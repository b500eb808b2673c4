import QmlPreview.Engine.Process
import QmlPreview.Proofs.Runs

/-! Reloads of the engine that runs processes. A reload that is refused leaves the process and the
staged file of the document before as they were. The launch settings are those of the document that was
asked for last, whether it is shown or not. -/

namespace QmlPreview

open Script (Answers Log Runs runs_ask_iff runs_bind_iff runs_done_iff runs_request_bind_iff)

/-- The settings are the ones that a document with these facts asks for. -/
structure EngineOptions.Describes (o : EngineOptions) (facts : Facts) : Prop where
  style : o.style = facts.style.map (·.name)
  widgetApp : o.widgetApp = facts.usesCharts

/-- Documents with these facts ask for the same launch settings. -/
structure Facts.LaunchAlike (facts other : Facts) : Prop where
  style : facts.style = other.style
  usesCharts : facts.usesCharts = other.usesCharts

/-- Importing the module of a style selects that style. -/
theorem ControlsStyle.ofModule?_module (style : ControlsStyle) :
    ofModule? style.module = some style := by
  cases style <;> rfl

theorem ControlsStyle.name_injective : Function.Injective ControlsStyle.name := by
  intro a b same
  have modules : a.module = b.module := congrArg ("QtQuick.Controls.".toList ++ ·) same
  have selected := congrArg ofModule? modules
  rw [ofModule?_module, ofModule?_module] at selected
  exact Option.some.inj selected

namespace EngineOptions

variable {o : EngineOptions} {facts other : Facts}

theorem follow_describes : (o.follow facts).Describes facts := ⟨rfl, rfl⟩

theorem follow_eq_self_iff : o.follow facts = o ↔ o.Describes facts := by
  constructor
  · intro same
    rw [← same]
    exact follow_describes
  · rintro ⟨style, widgetApp⟩
    rw [follow, ← style, ← widgetApp]

theorem Describes.iff_launchAlike (described : o.Describes facts) :
    o.Describes other ↔ facts.LaunchAlike other := by
  constructor
  · rintro ⟨style, widgetApp⟩
    refine ⟨?_, described.widgetApp.symm.trans widgetApp⟩
    exact Option.map_injective ControlsStyle.name_injective (described.style.symm.trans style)
  · rintro ⟨style, usesCharts⟩
    exact ⟨style ▸ described.style, usesCharts ▸ described.widgetApp⟩

end EngineOptions

namespace ProcessEngine

section
variable {σ : Type} (answers : Answers σ HostRequest.Answer)

inductive Settles (process : Nat) : (remaining : Nat) → σ → Log HostRequest.Answer →
    Except Fault Bool → σ → Prop
  | unknown {remaining : Nat} {fault : Fault} {s s' : σ} :
      answers s (.process (.status process)) (.error fault) s' →
      Settles process remaining s [⟨.process (.status process), .error fault⟩] (.error fault) s'
  | ended {remaining : Nat} {status : ExitStatus} {s s' : σ} :
      answers s (.process (.status process)) (.ok (some status)) s' →
      Settles process remaining s [⟨.process (.status process), .ok (some status)⟩]
        (.ok status.isSuccess) s'
  | stayed {s s' : σ} : answers s (.process (.status process)) (.ok none) s' →
      Settles process 0 s [⟨.process (.status process), .ok none⟩] (.ok true) s'
  | waited {remaining : Nat} {log : Log HostRequest.Answer} {loaded : Except Fault Bool}
      {s s₁ s₂ s' : σ} : remaining ≠ 0 →
      answers s (.process (.status process)) (.ok none) s₁ →
      answers s₁ (.sleep (min remaining settleStep)) () s₂ →
      Settles process (remaining - settleStep) s₂ log loaded s' →
      Settles process remaining s (⟨.process (.status process), .ok none⟩ ::
        ⟨.sleep (min remaining settleStep), ()⟩ :: log) loaded s'

inductive Launches (options : EngineOptions) (file : Path) (s : σ) : Log HostRequest.Answer →
    Except Fault (Option Nat) → σ → Prop
  | unstarted {fault : Fault} {s' : σ} :
      answers s (.process (.start (options.launchOn file))) (.error fault) s' →
      Launches options file s [⟨.process (.start (options.launchOn file)), .error fault⟩]
        (.error fault) s'
  | unknown {process : Nat} {log : Log HostRequest.Answer} {fault : Fault} {s₁ s' : σ} :
      answers s (.process (.start (options.launchOn file))) (.ok process) s₁ →
      Settles answers process options.settle.toNat s₁ log (.error fault) s' →
      Launches options file s (⟨.process (.start (options.launchOn file)), .ok process⟩ :: log)
        (.error fault) s'
  | failed {process : Nat} {log : Log HostRequest.Answer} {s₁ s' : σ} :
      answers s (.process (.start (options.launchOn file))) (.ok process) s₁ →
      Settles answers process options.settle.toNat s₁ log (.ok false) s' →
      Launches options file s (⟨.process (.start (options.launchOn file)), .ok process⟩ :: log)
        (.ok none) s'
  | loaded {process : Nat} {log : Log HostRequest.Answer} {s₁ s' : σ} :
      answers s (.process (.start (options.launchOn file))) (.ok process) s₁ →
      Settles answers process options.settle.toNat s₁ log (.ok true) s' →
      Launches options file s (⟨.process (.start (options.launchOn file)), .ok process⟩ :: log)
        (.ok (some process)) s'

inductive Stops (s : σ) : Option Nat → Log HostRequest.Answer → σ → Prop
  | idle : Stops s none [] s
  | running {process : Nat} {s₁ s₂ s' : σ} :
      answers s (.process (.status process)) (.ok none) s₁ →
      answers s₁ (.process (.kill process)) () s₂ → answers s₂ (.process (.wait process)) () s' →
      Stops s (some process) [⟨.process (.status process), .ok none⟩,
        ⟨.process (.kill process), ()⟩, ⟨.process (.wait process), ()⟩] s'
  | ended {process : Nat} {status : Except Fault (Option ExitStatus)} {s₁ s' : σ} :
      answers s (.process (.status process)) status s₁ → status ≠ .ok none →
      answers s₁ (.process (.wait process)) () s' →
      Stops s (some process) [⟨.process (.status process), status⟩,
        ⟨.process (.wait process), ()⟩] s'

/-- The ways that removing a staged file can go, if there is one. -/
inductive Unstages (s : σ) : Option Path → Log HostRequest.Answer → σ → Prop
  | nothing : Unstages s none [] s
  | asked {path : Path} {removed : Except Fault Unit} {s' : σ} :
      answers s (.file (.remove path)) removed s' →
      Unstages s (some path) [⟨.file (.remove path), removed⟩] s'

inductive Reloads (e : ProcessEngine) (locator : Locator) (facts : Facts) (s : σ) :
    Log HostRequest.Answer → Except Error Unit × ProcessEngine → σ → Prop
  | unknown {log : Log HostRequest.Answer} {fault : Fault} {s' : σ} :
      Launches answers (e.options.follow facts) locator.path s log (.error fault) s' →
      Reloads e locator facts s log
        (.error (.io fault), { e with options := e.options.follow facts }) s'
  | failed {log : Log HostRequest.Answer} {s' : σ} :
      Launches answers (e.options.follow facts) locator.path s log (.ok none) s' →
      Reloads e locator facts s log
        (.error (.engineLoadFailed locator.url), { e with options := e.options.follow facts }) s'
  | replaced {launching stopping removing : Log HostRequest.Answer} {process : Nat} {s₁ s₂ s' : σ} :
      Launches answers (e.options.follow facts) locator.path s launching (.ok (some process)) s₁ →
      Stops answers s₁ e.child stopping s₂ → Unstages answers s₂ e.staged removing s' →
      Reloads e locator facts s (launching ++ (stopping ++ removing))
        (.ok (), ⟨e.options.follow facts, some process, none⟩) s'

end

variable {σ : Type} {answers : Answers σ HostRequest.Answer} {s s' : σ}
  {log : Log HostRequest.Answer}

theorem runs_settle_iff {process remaining : Nat} {loaded : Except Fault Bool} :
    Runs answers (settle process remaining) s log loaded s' ↔
      Settles answers process remaining s log loaded s' := by
  have shorter {n : Nat} (nonzero : n ≠ 0) : n - settleStep < n :=
    Nat.sub_lt (Nat.pos_of_ne_zero nonzero) (by decide)
  constructor
  · intro run
    induction remaining using Nat.strongRecOn generalizing s log with
    | ind remaining ih =>
        rw [settle] at run
        obtain ⟨status, s₁, _, looked, later, rfl⟩ := runs_request_bind_iff.mp run
        match status with
        | .error fault =>
            obtain ⟨rfl, rfl, rfl⟩ := runs_done_iff.mp later
            exact .unknown looked
        | .ok (some status) =>
            obtain ⟨rfl, rfl, rfl⟩ := runs_done_iff.mp later
            exact .ended looked
        | .ok none =>
            by_cases zero : remaining = 0
            · subst zero
              obtain ⟨rfl, rfl, rfl⟩ := runs_done_iff.mp later
              exact .stayed looked
            · simp only [ne_eq, zero, not_false_eq_true, dif_pos] at later
              obtain ⟨_, s₂, _, slept, rest, rfl⟩ := runs_request_bind_iff.mp later
              exact .waited zero looked slept (ih _ (shorter zero) rest)
  · intro way
    induction way with
    | unknown looked =>
        rw [settle]
        exact .ask looked (.done _ _)
    | ended looked =>
        rw [settle]
        exact .ask looked (.done _ _)
    | stayed looked =>
        rw [settle]
        exact .ask looked (.done _ _)
    | waited nonzero looked slept _ ih =>
        rw [settle]
        refine runs_request_bind_iff.mpr ⟨_, _, _, looked, ?_, rfl⟩
        simp only [ne_eq, nonzero, not_false_eq_true, dif_pos]
        exact runs_request_bind_iff.mpr ⟨_, _, _, slept, ih, rfl⟩

theorem runs_launch_iff {options : EngineOptions} {file : Path}
    {process? : Except Fault (Option Nat)} :
    Runs answers (launch options file) s log process? s' ↔
      Launches answers options file s log process? s' := by
  constructor
  · intro run
    obtain ⟨started, s₁, _, starting, later, rfl⟩ := runs_request_bind_iff.mp run
    cases started with
    | error fault =>
        obtain ⟨rfl, rfl, rfl⟩ := runs_done_iff.mp later
        exact .unstarted starting
    | ok process =>
        obtain ⟨settling, loaded, s₂, _, settled, ended, rfl⟩ := runs_bind_iff.mp later
        have settles := runs_settle_iff.mp settled
        match loaded with
        | .error fault =>
            obtain ⟨rfl, rfl, rfl⟩ := runs_done_iff.mp ended
            rw [List.append_nil]
            exact .unknown starting settles
        | .ok false =>
            obtain ⟨rfl, rfl, rfl⟩ := runs_done_iff.mp ended
            rw [List.append_nil]
            exact .failed starting settles
        | .ok true =>
            obtain ⟨rfl, rfl, rfl⟩ := runs_done_iff.mp ended
            rw [List.append_nil]
            exact .loaded starting settles
  · intro way
    cases way with
    | unstarted starting => exact runs_request_bind_iff.mpr ⟨_, _, _, starting, .done _ _, rfl⟩
    | unknown starting settles | failed starting settles | loaded starting settles =>
        exact runs_request_bind_iff.mpr ⟨_, _, _, starting, runs_bind_iff.mpr
          ⟨_, _, _, [], runs_settle_iff.mpr settles, .done _ _, (List.append_nil _).symm⟩, rfl⟩

theorem runs_stop_iff {e e' : ProcessEngine} :
    Runs answers e.stop s log e' s' ↔
      Stops answers s e.child log s' ∧ e' = { e with child := none } := by
  obtain ⟨options, child, staged⟩ := e
  cases child with
  | none =>
      constructor
      · intro run
        obtain ⟨rfl, rfl, rfl⟩ := runs_done_iff.mp run
        exact ⟨.idle, rfl⟩
      · rintro ⟨way, rfl⟩
        cases way
        exact .done _ _
  | some process =>
      constructor
      · intro run
        obtain ⟨status, s₁, _, looked, later, rfl⟩ := runs_request_bind_iff.mp run
        match status with
        | .ok none =>
            obtain ⟨_, s₂, _, killed, rest, rfl⟩ := runs_request_bind_iff.mp later
            obtain ⟨_, s₃, _, waited, ended, rfl⟩ := runs_request_bind_iff.mp rest
            obtain ⟨rfl, rfl, rfl⟩ := runs_done_iff.mp ended
            exact ⟨.running looked killed waited, rfl⟩
        | .ok (some _) | .error _ =>
            obtain ⟨_, s₂, _, waited, ended, rfl⟩ := runs_request_bind_iff.mp later
            obtain ⟨rfl, rfl, rfl⟩ := runs_done_iff.mp ended
            exact ⟨.ended looked nofun waited, rfl⟩
      · rintro ⟨way, rfl⟩
        cases way with
        | running looked killed waited =>
            exact .ask looked (.ask killed (.ask waited (.done _ _)))
        | @ended _ status _ _ looked ended waited =>
            refine runs_request_bind_iff.mpr ⟨_, _, _, looked, ?_, rfl⟩
            match status with
            | .ok none => exact absurd rfl ended
            | .ok (some _) | .error _ => exact .ask waited (.done _ _)

theorem runs_removeStaged_iff {e e' : ProcessEngine} :
    Runs answers e.removeStaged s log e' s' ↔
      Unstages answers s e.staged log s' ∧ e' = { e with staged := none } := by
  obtain ⟨options, child, staged⟩ := e
  cases staged with
  | none =>
      constructor
      · intro run
        obtain ⟨rfl, rfl, rfl⟩ := runs_done_iff.mp run
        exact ⟨.nothing, rfl⟩
      · rintro ⟨way, rfl⟩
        cases way
        exact .done _ _
  | some path =>
      constructor
      · intro run
        obtain ⟨removed, s₁, _, removing, ended, rfl⟩ := runs_ask_iff.mp run
        obtain ⟨rfl, rfl, rfl⟩ := runs_done_iff.mp ended
        exact ⟨.asked removing, rfl⟩
      · rintro ⟨way, rfl⟩
        cases way with
        | asked removing => exact .ask removing (.done _ _)

theorem runs_close_iff {e e' : ProcessEngine} :
    Runs answers e.close s log e' s' ↔ ∃ stopping s₁ removing,
      Stops answers s e.child stopping s₁ ∧ Unstages answers s₁ e.staged removing s' ∧
        log = stopping ++ removing ∧ e' = { e with child := none, staged := none } := by
  constructor
  · intro run
    obtain ⟨stopping, _, s₁, removing, stopped, removed, rfl⟩ := runs_bind_iff.mp run
    obtain ⟨stops, rfl⟩ := runs_stop_iff.mp stopped
    obtain ⟨unstages, rfl⟩ := runs_removeStaged_iff.mp removed
    exact ⟨stopping, s₁, removing, stops, unstages, rfl, rfl⟩
  · rintro ⟨stopping, s₁, removing, stops, unstages, rfl, rfl⟩
    exact runs_bind_iff.mpr ⟨stopping, _, s₁, removing, runs_stop_iff.mpr ⟨stops, rfl⟩,
      runs_removeStaged_iff.mpr ⟨unstages, rfl⟩, rfl⟩

theorem runs_reload_iff {e e' : ProcessEngine} {locator : Locator} {facts : Facts}
    {result : Except Error Unit} :
    Runs answers (e.reload locator facts) s log (result, e') s' ↔
      Reloads answers e locator facts s log (result, e') s' := by
  constructor
  · intro run
    obtain ⟨launching, process?, s₁, _, launched, later, rfl⟩ := runs_bind_iff.mp run
    have launches := runs_launch_iff.mp launched
    match process? with
    | .error fault =>
        obtain ⟨rfl, same, rfl⟩ := runs_done_iff.mp later
        rw [List.append_nil, same]
        exact .unknown launches
    | .ok none =>
        obtain ⟨rfl, same, rfl⟩ := runs_done_iff.mp later
        rw [List.append_nil, same]
        exact .failed launches
    | .ok (some process) =>
        obtain ⟨closing, _, s₂, _, closed, ended, rfl⟩ := runs_bind_iff.mp later
        obtain ⟨stopping, s₃, removing, stops, unstages, rfl, rfl⟩ := runs_close_iff.mp closed
        obtain ⟨rfl, same, rfl⟩ := runs_done_iff.mp ended
        rw [List.append_nil, same]
        exact .replaced launches stops unstages
  · intro way
    cases way with
    | unknown launches | failed launches =>
        exact runs_bind_iff.mpr
          ⟨_, _, _, [], runs_launch_iff.mpr launches, .done _ _, (List.append_nil _).symm⟩
    | replaced launches stops unstages =>
        refine runs_bind_iff.mpr ⟨_, _, _, _, runs_launch_iff.mpr launches, ?_, rfl⟩
        exact runs_bind_iff.mpr ⟨_, _, _, [],
          runs_close_iff.mpr ⟨_, _, _, stops, unstages, rfl, rfl⟩, .done _ _,
          (List.append_nil _).symm⟩

/-- The exchange starts a process or waits for one; it ends none and touches no file. -/
def Spares (x : (q : HostRequest) × q.Answer) : Prop :=
  match x.1 with
  | .process (.start _) | .process (.status _) | .sleep _ => True
  | _ => False

theorem Settles.spares {process remaining : Nat} {loaded : Except Fault Bool}
    (settles : Settles answers process remaining s log loaded s') : ∀ x ∈ log, Spares x := by
  induction settles with
  | unknown | ended | stayed => exact List.forall_mem_singleton.mpr trivial
  | waited _ _ _ _ ih =>
      exact List.forall_mem_cons.mpr ⟨trivial, List.forall_mem_cons.mpr ⟨trivial, ih⟩⟩

theorem Launches.spares {options : EngineOptions} {file : Path}
    {process? : Except Fault (Option Nat)}
    (launches : Launches answers options file s log process? s') : ∀ x ∈ log, Spares x := by
  cases launches with
  | unstarted => exact List.forall_mem_singleton.mpr trivial
  | unknown _ settles | failed _ settles | loaded _ settles =>
      exact List.forall_mem_cons.mpr ⟨trivial, settles.spares⟩

theorem Launches.started {options : EngineOptions} {file : Path} {process : Nat}
    (launches : Launches answers options file s log (.ok (some process)) s') :
    ⟨.process (.start (options.launchOn file)), .ok process⟩ ∈ log := by
  cases launches with
  | loaded => exact List.mem_cons_self

structure Reloading where
  before : ProcessEngine
  locator : Locator
  facts : Facts
  log : Log HostRequest.Answer
  result : Except Error Unit
  after : ProcessEngine

namespace Reloading

def isAccepted (x : Reloading) : Bool := x.result.isOk

/-- The process and the staged file are as they were, and nothing was done to them. -/
structure Keeps (x : Reloading) : Prop where
  child : x.after.child = x.before.child
  staged : x.after.staged = x.before.staged
  spared : ∀ exchange ∈ x.log, Spares exchange

/-- A process that was started on the document is shown, with nothing staged. -/
structure Replaces (x : Reloading) : Prop where
  child : ∃ process, x.after.child = some process ∧
    ⟨.process (.start ((x.before.options.follow x.facts).launchOn x.locator.path)), .ok process⟩ ∈ x.log
  staged : x.after.staged = none

/-- What is known of the document that was asked for last, where there was one with the facts `first`
before. The last reload comes first. -/
def asked (first : Facts) (steps : List Reloading) : Facts :=
  (steps.head?.map (·.facts)).getD first

def shown (first : Facts) (steps : List Reloading) : Facts :=
  ((steps.find? isAccepted).map (·.facts)).getD first

/-- The process that shows the document, where `child` was the one before. -/
def shownBy (child : Option Nat) (steps : List Reloading) : Option Nat :=
  ((steps.find? isAccepted).map (·.after.child)).getD child

end Reloading

/-- Reloads, one after the other; the last one comes first. -/
inductive ReloadRun (answers : Answers σ HostRequest.Answer) (e₀ : ProcessEngine) (s₀ : σ) :
    List Reloading → ProcessEngine → σ → Prop
  | none : ReloadRun answers e₀ s₀ [] e₀ s₀
  | reload {steps : List Reloading} {step : Reloading} {s s' : σ} :
      ReloadRun answers e₀ s₀ steps step.before s →
      Runs answers (step.before.reload step.locator step.facts) s step.log
        (step.result, step.after) s' →
      ReloadRun answers e₀ s₀ (step :: steps) step.after s'

theorem Reloads.options {e e' : ProcessEngine} {locator : Locator} {facts : Facts}
    {result : Except Error Unit} (reloads : Reloads answers e locator facts s log (result, e') s') :
    e'.options = e.options.follow facts := by
  cases reloads <;> rfl

theorem Reloads.replaces {step : Reloading} (accepted : step.isAccepted)
    (reloads : Reloads answers step.before step.locator step.facts s step.log
      (step.result, step.after) s') : step.Replaces := by
  obtain ⟨e, locator, facts, log, result, e'⟩ := step
  dsimp only at reloads
  cases reloads with
  | unknown | failed => cases accepted
  | replaced launches => exact ⟨⟨_, rfl, List.mem_append_left _ launches.started⟩, rfl⟩

theorem Reloads.keeps {step : Reloading} (refused : ¬step.isAccepted)
    (reloads : Reloads answers step.before step.locator step.facts s step.log
      (step.result, step.after) s') :
    step.Keeps ∧ (step.after = step.before ↔ step.before.options.Describes step.facts) := by
  obtain ⟨e, locator, facts, log, result, e'⟩ := step
  have same : { e with options := e.options.follow facts } = e ↔ e.options.Describes facts := by
    rw [← EngineOptions.follow_eq_self_iff]
    constructor
    · exact congrArg ProcessEngine.options
    · intro kept
      rw [kept]
  dsimp only at reloads
  cases reloads with
  | unknown launches | failed launches => exact ⟨⟨rfl, rfl, launches.spares⟩, same⟩
  | replaced => exact absurd rfl refused

namespace ReloadRun

variable {e₀ e : ProcessEngine} {s₀ : σ} {steps : List Reloading}

theorem reloads_of_mem (run : ReloadRun answers e₀ s₀ steps e s) {step : Reloading}
    (h : step ∈ steps) : ∃ s s', Reloads answers step.before step.locator step.facts s step.log
      (step.result, step.after) s' := by
  induction run with
  | none => cases h
  | reload _ reloaded ih =>
      obtain rfl | earlier := List.mem_cons.mp h
      · exact ⟨_, _, runs_reload_iff.mp reloaded⟩
      · exact ih earlier

theorem options_describe_asked {first : Facts} (described : e₀.options.Describes first)
    (run : ReloadRun answers e₀ s₀ steps e s) :
    e.options.Describes (Reloading.asked first steps) := by
  cases run with
  | none => exact described
  | reload _ reloaded =>
      rw [(runs_reload_iff.mp reloaded).options]
      exact EngineOptions.follow_describes

theorem child_eq_shownBy (run : ReloadRun answers e₀ s₀ steps e s) :
    e.child = Reloading.shownBy e₀.child steps := by
  induction run with
  | none => rfl
  | @reload steps step _ _ _ reloaded ih =>
      rw [Reloading.shownBy, List.find?_cons]
      cases accepted : step.isAccepted with
      | true => rfl
      | false =>
          have refused : ¬step.isAccepted := Bool.eq_false_iff.mp accepted
          exact ((runs_reload_iff.mp reloaded).keeps refused).1.child.trans ih

end ReloadRun

end ProcessEngine

open ProcessEngine (Reloading ReloadRun Reloads runs_reload_iff)

/-- Every reload makes the launch settings those of its document. So a refused one leaves the engine as
it was exactly if the settings were those already. After any number of reloads the process is the one
that shows the last accepted document; the settings describe that document exactly if the last one that
was asked for has the same style and charts. -/
theorem refused_reloads_keep_engine_iff {σ : Type} {answers : Answers σ HostRequest.Answer}
    {e₀ e : ProcessEngine} {s₀ s : σ} {steps : List Reloading}
    (run : ReloadRun answers e₀ s₀ steps e s) :
    (∀ step ∈ steps, step.after.options = step.before.options.follow step.facts ∧
      (step.isAccepted → step.Replaces) ∧ (¬step.isAccepted → step.Keeps ∧
        (step.after = step.before ↔ step.before.options.Describes step.facts))) ∧
    e.child = Reloading.shownBy e₀.child steps ∧
    ∀ first, e₀.options.Describes first → e.options.Describes (Reloading.asked first steps) ∧
      (e.options.Describes (Reloading.shown first steps) ↔
        (Reloading.asked first steps).LaunchAlike (Reloading.shown first steps)) := by
  refine ⟨fun step h => ?_, run.child_eq_shownBy, fun first described => ?_⟩
  · obtain ⟨_, _, reloads⟩ := run.reloads_of_mem h
    exact ⟨reloads.options, reloads.replaces, reloads.keeps⟩
  · have asked := run.options_describe_asked described
    exact ⟨asked, asked.iff_launchAlike⟩

def anyAnswer : Answers Unit HostRequest.Answer := fun _ _ _ _ => True

theorem anyAnswer_intro {q : HostRequest} {r : q.Answer} : anyAnswer () q r () := trivial

/-- A document with the Material style takes the place of another one. The next document has that style
too and is refused. -/
theorem refused_reload_keeps_engine_of_same_style :
    let facts : Facts := { style := some .material, usesCharts := true }
    let e₀ : ProcessEngine :=
      { options := { settle := 20 }, child := some 1, staged := some "/a/.qmlview-0.qml".toList }
    let e : ProcessEngine :=
      { options := { settle := 20, style := some "Material".toList, widgetApp := true }
        child := some 2 }
    ∃ accepted refused, ReloadRun anyAnswer e₀ () [refused, accepted] e () ∧
      accepted.isAccepted ∧ ¬refused.isAccepted ∧ accepted.facts = facts ∧ refused.facts = facts ∧
      accepted.Replaces ∧ refused.Keeps ∧ refused.after = refused.before := by
  intro facts e₀ e
  have started {launch : Launch} (process : Nat) :
      anyAnswer () (.process (.start launch)) (.ok process) () := anyAnswer_intro
  have killed {process : Nat} :
      anyAnswer () (.process (.status process)) (.ok (some .killed)) () := anyAnswer_intro
  have removed {path : Path} : anyAnswer () (.file (.remove path)) (.ok ()) () := anyAnswer_intro
  obtain ⟨log, replaced⟩ : ∃ log,
      Reloads anyAnswer e₀ (.file "/a/b.qml".toList) facts () log (.ok (), e) () :=
    ⟨_, .replaced (.loaded (started 2)
        (.waited (by decide) anyAnswer_intro anyAnswer_intro (.stayed anyAnswer_intro)))
      (.running anyAnswer_intro anyAnswer_intro anyAnswer_intro) (.asked removed)⟩
  obtain ⟨log', error, failed⟩ : ∃ log error,
      Reloads anyAnswer e (.file "/a/c.qml".toList) facts () log (.error error, e) () :=
    ⟨_, _, .failed (.failed (started 3) (.ended killed))⟩
  let accepted : Reloading := ⟨e₀, .file "/a/b.qml".toList, facts, log, .ok (), e⟩
  let refused : Reloading := ⟨e, .file "/a/c.qml".toList, facts, log', .error error, e⟩
  have first : ReloadRun anyAnswer e₀ () [accepted] accepted.after () :=
    .reload .none (runs_reload_iff.mpr replaced)
  have run : ReloadRun anyAnswer e₀ () [refused, accepted] refused.after () :=
    .reload first (runs_reload_iff.mpr failed)
  obtain ⟨outcomes, -, -⟩ := refused_reloads_keep_engine_iff run
  obtain ⟨-, -, kept⟩ := outcomes refused List.mem_cons_self
  obtain ⟨-, shown, -⟩ := outcomes accepted (List.mem_cons_of_mem _ List.mem_cons_self)
  obtain ⟨keeps, same⟩ := kept nofun
  exact ⟨accepted, refused, run, rfl, nofun, rfl, rfl, shown rfl, keeps, same.mpr ⟨rfl, rfl⟩⟩

/-- A document with the Material style is refused in place of one without a style. -/
theorem refused_reload_changes_style :
    let shown : Facts := {}
    let facts : Facts := { style := some .material }
    let e : ProcessEngine := { child := some 1 }
    ∃ log error e', e.options.Describes shown ∧
      Runs anyAnswer (e.reload (.file "/a/b.qml".toList) facts) () log (.error error, e') () ∧
      e'.options ≠ e.options ∧ ¬e'.options.Describes shown := by
  intro shown facts e
  have started {launch : Launch} :
      anyAnswer () (.process (.start launch)) (.ok 2) () := anyAnswer_intro
  have exited {process : Nat} :
      anyAnswer () (.process (.status process)) (.ok (some (.exited 3))) () := anyAnswer_intro
  have failed : Reloads anyAnswer e (.file "/a/b.qml".toList) facts () _ (.error _, _) () :=
    .failed (.failed started (.ended exited))
  refine ⟨_, _, _, ⟨rfl, rfl⟩, runs_reload_iff.mpr failed, ?_, ?_⟩
  · intro same
    cases congrArg EngineOptions.style same
  · intro described
    cases described.style

end QmlPreview
