import QmlPreview.Live.Watcher
import QmlPreview.Proofs.Runs

/-! What is asked to remove files. Sweeping a directory, deleting old side files and closing a
watcher all remove one path after the other, whatever the answers. -/

namespace QmlPreview

open Script (Answers Log Runs runs_ask_iff runs_bind_iff runs_done_iff runs_request_iff)

section
variable {σ : Type} (answers : Answers σ FileRequest.Answer)

/-- Each path is asked to be removed, in order. -/
inductive RemovesAll : List Path → σ → Log FileRequest.Answer → σ → Prop
  | nil (s : σ) : RemovesAll [] s [] s
  | cons {path : Path} {rest : List Path} {removed : Except Fault Unit} {s s₁ s' : σ}
      {log : Log FileRequest.Answer} : answers s (.remove path) removed s₁ →
      RemovesAll rest s₁ log s' →
      RemovesAll (path :: rest) s (⟨.remove path, removed⟩ :: log) s'

inductive Sweeps (dir : Path) (keep : List Path) (s : σ) : Log FileRequest.Answer → σ → Prop
  | absent {s' : σ} : answers s (.isPresent dir) false s' →
      Sweeps dir keep s [⟨.isPresent dir, false⟩] s'
  | unlisted {fault : Fault} {s₁ s' : σ} : answers s (.isPresent dir) true s₁ →
      answers s₁ (.list dir) (.error fault) s' →
      Sweeps dir keep s [⟨.isPresent dir, true⟩, ⟨.list dir, .error fault⟩] s'
  | swept {names : List Text} {log : Log FileRequest.Answer} {s₁ s₂ s' : σ} :
      answers s (.isPresent dir) true s₁ → answers s₁ (.list dir) (.ok names) s₂ →
      RemovesAll answers (sweepable dir keep names) s₂ log s' →
      Sweeps dir keep s (⟨.isPresent dir, true⟩ :: ⟨.list dir, .ok names⟩ :: log) s'

inductive Watcher.Closes (w : Watcher) (s : σ) : Log FileRequest.Answer → Watcher → σ → Prop
  | again : w.phase = .closed → Closes w s [] w s
  | closed {removals sweeping : Log FileRequest.Answer} {s₁ s' : σ} : w.phase ≠ .closed →
      RemovesAll answers w.generations s removals s₁ →
      Sweeps answers w.directory [w.target] s₁ sweeping s' →
      Closes w s (removals ++ sweeping) { w with generations := [], phase := .closed } s'

end

/-- After this answer to its removal a file is not there. -/
def IsGone (removed : Except Fault Unit) : Prop :=
  removed = .ok () ∨ ∃ fault, removed = .error fault ∧ fault.isNotFound = true

/-- The paths that could not be removed, although they are there. -/
def unremoved (log : Log FileRequest.Answer) : List Path :=
  log.filterMap fun
    | ⟨.remove path, .error fault⟩ => if fault.isNotFound then none else some path
    | _ => none

theorem unremoved_of_isGone {path : Path} {removed : Except Fault Unit}
    {log : Log FileRequest.Answer} (gone : IsGone removed) :
    unremoved (⟨.remove path, removed⟩ :: log) = unremoved log := by
  obtain rfl | ⟨fault, rfl, missing⟩ := gone
  · rfl
  · simp only [unremoved, List.filterMap_cons, missing, if_true]

variable {σ : Type} {answers : Answers σ FileRequest.Answer} {s s' : σ}
  {log : Log FileRequest.Answer} {paths : List Path}

theorem runs_removeEach_iff :
    (∃ count, Runs answers (removeEach paths) s log count s') ↔
      RemovesAll answers paths s log s' := by
  constructor
  · rintro ⟨count, run⟩
    induction paths generalizing s log count with
    | nil =>
        obtain ⟨rfl, rfl, rfl⟩ := runs_done_iff.mp run
        exact .nil _
    | cons path rest ih =>
        obtain ⟨_, removed, s₁, _, asked, later, rfl⟩ := runs_bind_iff.mp run
        obtain ⟨rfl, removing⟩ := runs_request_iff.mp asked
        obtain ⟨_, counted, s₂, _, removes, ended, rfl⟩ := runs_bind_iff.mp later
        obtain ⟨rfl, rfl, rfl⟩ := runs_done_iff.mp ended
        rw [List.append_nil]
        exact .cons removing (ih _ removes)
  · intro way
    induction way with
    | nil s => exact ⟨_, .done _ _⟩
    | cons removing _ ih =>
        obtain ⟨count, removes⟩ := ih
        exact ⟨_, runs_bind_iff.mpr ⟨_, _, _, _, runs_request_iff.mpr ⟨rfl, removing⟩,
          runs_bind_iff.mpr ⟨_, _, _, [], removes, .done _ _, (List.append_nil _).symm⟩, rfl⟩⟩

theorem Watcher.runs_removeOld_iff {left : List Path} :
    Runs answers (removeOld paths) s log left s' ↔
      RemovesAll answers paths s log s' ∧ left = unremoved log := by
  constructor
  · intro run
    induction paths generalizing s log left with
    | nil =>
        obtain ⟨rfl, rfl, rfl⟩ := runs_done_iff.mp run
        exact ⟨.nil _, rfl⟩
    | cons path rest ih =>
        obtain ⟨_, removed, s₁, _, asked, later, rfl⟩ := runs_bind_iff.mp run
        obtain ⟨rfl, removing⟩ := runs_request_iff.mp asked
        cases removed with
        | ok _ =>
            obtain ⟨removes, rfl⟩ := ih later
            exact ⟨.cons removing removes, rfl⟩
        | error fault =>
            obtain ⟨_, rest', s₂, _, ran, ended, rfl⟩ := runs_bind_iff.mp later
            obtain ⟨rfl, rfl, rfl⟩ := runs_done_iff.mp ended
            obtain ⟨removes, rfl⟩ := ih ran
            rw [List.append_nil]
            refine ⟨.cons removing removes, ?_⟩
            by_cases gone : fault.isNotFound <;> simp [unremoved, gone]
  · rintro ⟨way, rfl⟩
    induction way with
    | nil s => exact .done _ _
    | @cons path rest removed s s₁ s' log removing _ ih =>
        refine runs_bind_iff.mpr ⟨_, _, _, _, runs_request_iff.mpr ⟨rfl, removing⟩, ?_, rfl⟩
        cases removed with
        | ok _ => exact ih
        | error fault =>
            refine runs_bind_iff.mpr ⟨_, _, _, [], ih, ?_, (List.append_nil _).symm⟩
            by_cases gone : fault.isNotFound
            · simp only [gone, if_true, unremoved, List.filterMap_cons]
              exact .done _ _
            · simp only [gone, unremoved, List.filterMap_cons]
              exact .done _ _

theorem Watcher.runs_discardAll_iff :
    Runs answers (discardAll paths) s log () s' ↔ RemovesAll answers paths s log s' := by
  constructor
  · intro run
    induction paths generalizing s log with
    | nil =>
        obtain ⟨rfl, _, rfl⟩ := runs_done_iff.mp run
        exact .nil _
    | cons path rest ih =>
        obtain ⟨removed, s₁, _, removing, later, rfl⟩ := runs_ask_iff.mp run
        exact .cons removing (ih later)
  · intro way
    induction way with
    | nil s => exact .done _ _
    | cons removing _ ih => exact .ask removing ih

theorem runs_sweep_iff {dir : Path} {keep : List Path} :
    (∃ result, Runs answers (sweep dir keep) s log result s') ↔
      Sweeps answers dir keep s log s' := by
  constructor
  · rintro ⟨result, run⟩
    obtain ⟨_, isThere, s₁, _, asked, rest, rfl⟩ := runs_bind_iff.mp run
    obtain ⟨rfl, looking⟩ := runs_request_iff.mp asked
    cases isThere with
    | false =>
        obtain ⟨rfl, rfl, rfl⟩ := runs_done_iff.mp rest
        exact .absent looking
    | true =>
        obtain ⟨_, names, s₂, _, asked, rest', rfl⟩ := runs_bind_iff.mp rest
        obtain ⟨rfl, listing⟩ := runs_request_iff.mp asked
        cases names with
        | error fault =>
            obtain ⟨rfl, rfl, rfl⟩ := runs_done_iff.mp rest'
            exact .unlisted looking listing
        | ok names =>
            obtain ⟨_, count, s₃, _, removing, ended, rfl⟩ := runs_bind_iff.mp rest'
            obtain ⟨rfl, rfl, rfl⟩ := runs_done_iff.mp ended
            rw [List.append_nil]
            exact .swept looking listing (runs_removeEach_iff.mp ⟨count, removing⟩)
  · intro way
    cases way with
    | absent looking =>
        exact ⟨_, runs_bind_iff.mpr ⟨_, _, _, _, runs_request_iff.mpr ⟨rfl, looking⟩, .done _ _,
          rfl⟩⟩
    | unlisted looking listing =>
        exact ⟨_, runs_bind_iff.mpr ⟨_, _, _, _, runs_request_iff.mpr ⟨rfl, looking⟩,
          .ask listing (.done _ _), rfl⟩⟩
    | swept looking listing removes =>
        obtain ⟨count, run⟩ := runs_removeEach_iff.mpr removes
        exact ⟨_, runs_bind_iff.mpr ⟨_, _, _, _, runs_request_iff.mpr ⟨rfl, looking⟩,
          runs_bind_iff.mpr ⟨_, _, _, _, runs_request_iff.mpr ⟨rfl, listing⟩,
            runs_bind_iff.mpr ⟨_, _, _, [], run, .done _ _, (List.append_nil _).symm⟩, rfl⟩, rfl⟩⟩

theorem Watcher.runs_close_iff {w w' : Watcher} :
    Runs answers w.close s log w' s' ↔ Closes answers w s log w' s' := by
  unfold close
  by_cases ended : w.phase = .closed
  · rw [if_pos ended]
    constructor
    · intro run
      obtain ⟨rfl, rfl, rfl⟩ := runs_done_iff.mp run
      exact .again ended
    · intro way
      cases way with
      | again => exact .done _ _
      | closed open' => exact absurd ended open'
  · rw [if_neg ended]
    constructor
    · intro run
      obtain ⟨removals, _, s₁, _, removing, rest, rfl⟩ := runs_bind_iff.mp run
      obtain ⟨sweeping, swept, s₂, _, sweeps, done, rfl⟩ := runs_bind_iff.mp rest
      obtain ⟨rfl, rfl, rfl⟩ := runs_done_iff.mp done
      rw [List.append_nil]
      exact .closed ended (runs_discardAll_iff.mp removing) (runs_sweep_iff.mp ⟨swept, sweeps⟩)
    · intro way
      cases way with
      | again shut => exact absurd shut ended
      | closed _ removing sweeping =>
          obtain ⟨swept, sweeps⟩ := runs_sweep_iff.mpr sweeping
          exact runs_bind_iff.mpr ⟨_, _, _, _, runs_discardAll_iff.mpr removing,
            runs_bind_iff.mpr ⟨_, _, _, [], sweeps, .done _ _, (List.append_nil _).symm⟩, rfl⟩

end QmlPreview
