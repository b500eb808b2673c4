import QmlPreview.Proofs.Polling
import QmlPreview.Session

/-! Live sessions: what their start can do, and the runs that follow it. The watcher starts, makes
its first side file and takes it as the one shown if the engine could load it; then it polls. -/

namespace QmlPreview

open Script (Answers Log Runs runs_ask_iff runs_bind_iff runs_done_iff runs_request_iff)

namespace Watcher

/-- The watcher of a resolved source that was last changed at the given time. -/
def started (target : Path) (options : WatchOptions) (modified : Time) : Watcher :=
  { idle target options with lastModified := some modified, phase := .watching }

inductive Starts {σ : Type} (answers : Answers σ FileRequest.Answer) (path : Path)
    (options : WatchOptions) (s : σ) : Log FileRequest.Answer → Except Error Watcher → σ → Prop
  | unresolved {fault : Fault} {s' : σ} : answers s (.resolve path) (.error fault) s' →
      Starts answers path options s [⟨.resolve path, .error fault⟩] (.error (.ofReading path fault))
        s'
  | undated {target : Path} {sweeping : Log FileRequest.Answer}
      {fault : Fault} {s₁ s₂ s' : σ} : answers s (.resolve path) (.ok target) s₁ →
      Sweeps answers (idle target options).directory [target] s₁ sweeping s₂ →
      answers s₂ (.modified target) (.error fault) s' →
      Starts answers path options s
        (⟨.resolve path, .ok target⟩ :: (sweeping ++ [⟨.modified target, .error fault⟩]))
        (.error (.io fault)) s'
  | started {target : Path} {sweeping : Log FileRequest.Answer}
      {modified : Time} {s₁ s₂ s' : σ} : answers s (.resolve path) (.ok target) s₁ →
      Sweeps answers (idle target options).directory [target] s₁ sweeping s₂ →
      answers s₂ (.modified target) (.ok modified) s' →
      Starts answers path options s
        (⟨.resolve path, .ok target⟩ :: (sweeping ++ [⟨.modified target, .ok modified⟩]))
        (.ok (started target options modified)) s'

theorem runs_start_iff {σ : Type} {answers : Answers σ FileRequest.Answer} {path : Path}
    {options : WatchOptions} {s s' : σ} {log : Log FileRequest.Answer}
    {result : Except Error Watcher} :
    Runs answers (start path options) s log result s' ↔
      Starts answers path options s log result s' := by
  constructor
  · intro run
    obtain ⟨_, target, s₁, _, asked, resolved, rfl⟩ := runs_bind_iff.mp run
    obtain ⟨rfl, resolving⟩ := runs_request_iff.mp asked
    cases target with
    | error fault =>
        obtain ⟨rfl, rfl, rfl⟩ := runs_done_iff.mp resolved
        exact .unresolved resolving
    | ok target =>
        obtain ⟨sweeping, swept, s₂, _, ran, rest, rfl⟩ := runs_bind_iff.mp resolved
        have sweeps := runs_sweep_iff.mp ⟨swept, ran⟩
        obtain ⟨modified, s₃, _, dating, ended, rfl⟩ := runs_ask_iff.mp rest
        cases modified with
        | error fault =>
            obtain ⟨rfl, rfl, rfl⟩ := runs_done_iff.mp ended
            exact .undated resolving sweeps dating
        | ok modified =>
            obtain ⟨rfl, rfl, rfl⟩ := runs_done_iff.mp ended
            exact .started resolving sweeps dating
  · intro way
    cases way with
    | unresolved resolving => exact .ask resolving (.done _ _)
    | undated resolving sweeping dating =>
        obtain ⟨swept, sweeps⟩ := runs_sweep_iff.mpr sweeping
        exact runs_bind_iff.mpr ⟨_, _, _, _, runs_request_iff.mpr ⟨rfl, resolving⟩,
          runs_bind_iff.mpr ⟨_, _, _, _, sweeps, .ask dating (.done _ _), rfl⟩, rfl⟩
    | started resolving sweeping dating =>
        obtain ⟨swept, sweeps⟩ := runs_sweep_iff.mpr sweeping
        exact runs_bind_iff.mpr ⟨_, _, _, _, runs_request_iff.mpr ⟨rfl, resolving⟩,
          runs_bind_iff.mpr ⟨_, _, _, _, sweeps, .ask dating (.done _ _), rfl⟩, rfl⟩

end Watcher

namespace Session

open Watcher (Closes Generates Starts)

inductive StartsLive {σ : Type} (answers : Answers σ SessionRequest.Answer) (ctx : Context)
    (layout : Layout) (s : σ) : Log SessionRequest.Answer → Except Error Watcher → σ → Prop
  | unstarted {starting : Log FileRequest.Answer} {e : Error} {s' : σ} :
      Starts (onFiles answers) ctx.source (ctx.settings.watchOptions layout) s starting (.error e)
        s' →
      StartsLive answers ctx layout s (starting.map FileRequest.inSession) (.error e) s'
  | unmade {starting closing : Log FileRequest.Answer} {making : Log SessionRequest.Answer}
      {w w' closed : Watcher} {e : Error} {s₁ s₂ s' : σ} :
      Starts (onFiles answers) ctx.source (ctx.settings.watchOptions layout) s starting (.ok w) s₁ →
      Generates answers w s₁ making (.error e, w') s₂ →
      Closes (onFiles answers) w' s₂ closing closed s' →
      StartsLive answers ctx layout s (starting.map FileRequest.inSession ++
        (making ++ closing.map FileRequest.inSession)) (.error e) s'
  | unloaded {starting closing : Log FileRequest.Answer} {making : Log SessionRequest.Answer}
      {w w' closed : Watcher} {g : Generation} {loaded : Except Fault (List Nat)} {e : Error}
      {s₁ s₂ s₃ s' : σ} :
      Starts (onFiles answers) ctx.source (ctx.settings.watchOptions layout) s starting (.ok w) s₁ →
      Generates answers w s₁ making (.ok g, w') s₂ →
      answers s₂ (.engine (.load g.locator)) loaded s₃ → rootsOf g.locator loaded = .error e →
      Closes (onFiles answers) w' s₃ closing closed s' →
      StartsLive answers ctx layout s (starting.map FileRequest.inSession ++
        (making ++ ⟨.engine (.load g.locator), loaded⟩ :: closing.map FileRequest.inSession))
        (.error e) s'
  | live {starting removals : Log FileRequest.Answer} {making : Log SessionRequest.Answer}
      {w w' : Watcher} {g : Generation} {loaded : Except Fault (List Nat)} {roots : List Nat}
      {s₁ s₂ s₃ s' : σ} :
      Starts (onFiles answers) ctx.source (ctx.settings.watchOptions layout) s starting (.ok w) s₁ →
      Generates answers w s₁ making (.ok g, w') s₂ →
      answers s₂ (.engine (.load g.locator)) loaded s₃ → rootsOf g.locator loaded = .ok roots →
      RemovesAll (onFiles answers) w'.generations s₃ removals s' →
      StartsLive answers ctx layout s (starting.map FileRequest.inSession ++
        (making ++ ⟨.engine (.load g.locator), loaded⟩ :: removals.map FileRequest.inSession))
        (.ok (w'.committed (unremoved removals) g)) s'

variable {σ : Type} {answers : Answers σ SessionRequest.Answer}

theorem runs_abandon_iff {w : Watcher} {e : Error} {s s' : σ} {log : Log SessionRequest.Answer}
    {result : Except Error Watcher} :
    Runs answers (abandon w e) s log result s' ↔ ∃ closing closed,
      Closes (onFiles answers) w s closing closed s' ∧
        log = closing.map FileRequest.inSession ∧ result = .error e := by
  constructor
  · intro run
    obtain ⟨_, closed, s₁, _, ran, ended, rfl⟩ := runs_bind_iff.mp run
    obtain ⟨closing, closes, rfl⟩ := runs_inSession_iff.mp ran
    obtain ⟨rfl, rfl, rfl⟩ := runs_done_iff.mp ended
    exact ⟨closing, closed, Watcher.runs_close_iff.mp closes, List.append_nil _, rfl⟩
  · rintro ⟨closing, closed, closes, rfl, rfl⟩
    exact runs_bind_iff.mpr ⟨_, _, _, [],
      runs_inSession_iff.mpr ⟨closing, Watcher.runs_close_iff.mpr closes, rfl⟩, .done _ _,
      (List.append_nil _).symm⟩

theorem runs_startLive_iff {ctx : Context} {layout : Layout} {s s' : σ}
    {log : Log SessionRequest.Answer} {result : Except Error Watcher} :
    Runs answers (startLive ctx layout) s log result s' ↔
      StartsLive answers ctx layout s log result s' := by
  constructor
  · intro run
    obtain ⟨_, started, s₁, _, ran, rest, rfl⟩ := runs_bind_iff.mp run
    obtain ⟨startLog, starting, rfl⟩ := runs_inSession_iff.mp ran
    have starts := Watcher.runs_start_iff.mp starting
    cases started with
    | error e =>
        obtain ⟨rfl, rfl, rfl⟩ := runs_done_iff.mp rest
        rw [List.append_nil]
        exact .unstarted starts
    | ok w =>
        obtain ⟨_, ⟨made, w'⟩, s₂, _, generating, after, rfl⟩ := runs_bind_iff.mp rest
        have generates := Watcher.runs_generate_iff.mp generating
        cases made with
        | error e =>
            obtain ⟨closing, closed, closes, rfl, rfl⟩ := runs_abandon_iff.mp after
            exact .unmade starts generates closes
        | ok g =>
            obtain ⟨_, loaded, s₃, _, asked, answered, rfl⟩ := runs_bind_iff.mp after
            obtain ⟨rfl, loads⟩ := runs_request_iff.mp asked
            cases roots : rootsOf g.locator loaded with
            | error e =>
                simp only [roots] at answered
                obtain ⟨closing, closed, closes, rfl, rfl⟩ := runs_abandon_iff.mp answered
                exact .unloaded starts generates loads roots closes
            | ok r =>
                simp only [roots] at answered
                obtain ⟨_, w'', s₄, _, committing, ended, rfl⟩ := runs_bind_iff.mp answered
                obtain ⟨removals, removing, rfl, rfl⟩ := Watcher.runs_commit_iff.mp committing
                obtain ⟨rfl, rfl, rfl⟩ := runs_done_iff.mp ended
                rw [List.append_nil]
                exact .live starts generates loads roots removing
  · intro way
    refine runs_bind_iff.mpr ?_
    cases way with
    | @unstarted startLog e _ starts =>
        exact ⟨_, _, _, [],
          runs_inSession_iff.mpr ⟨startLog, Watcher.runs_start_iff.mpr starts, rfl⟩,
          .done _ _, (List.append_nil _).symm⟩
    | @unmade startLog closing _ _ _ closed _ _ _ _ starts generates closes =>
        exact ⟨_, _, _, _,
          runs_inSession_iff.mpr ⟨startLog, Watcher.runs_start_iff.mpr starts, rfl⟩,
          runs_bind_iff.mpr ⟨_, _, _, _, Watcher.runs_generate_iff.mpr generates,
            runs_abandon_iff.mpr ⟨closing, closed, closes, rfl, rfl⟩, rfl⟩, rfl⟩
    | @unloaded startLog closing _ _ _ closed _ _ _ _ _ _ _ starts generates loads roots closes =>
        refine ⟨_, _, _, _,
          runs_inSession_iff.mpr ⟨startLog, Watcher.runs_start_iff.mpr starts, rfl⟩,
          runs_bind_iff.mpr ⟨_, _, _, _, Watcher.runs_generate_iff.mpr generates,
            runs_bind_iff.mpr ⟨_, _, _, _, runs_request_iff.mpr ⟨rfl, loads⟩, ?_, rfl⟩, rfl⟩, rfl⟩
        simp only [roots]
        exact runs_abandon_iff.mpr ⟨closing, closed, closes, rfl, rfl⟩
    | @live startLog removals _ w w' g _ _ _ _ s₃ _ starts generates loads roots removing =>
        have committing : Runs answers (w'.commit g).inSession s₃ _
            (w'.committed (unremoved removals) g) s' :=
          Watcher.runs_commit_iff.mpr ⟨removals, removing, rfl, rfl⟩
        refine ⟨_, _, _, _,
          runs_inSession_iff.mpr ⟨startLog, Watcher.runs_start_iff.mpr starts, rfl⟩,
          runs_bind_iff.mpr ⟨_, _, _, _, Watcher.runs_generate_iff.mpr generates,
            runs_bind_iff.mpr ⟨_, _, _, _, runs_request_iff.mpr ⟨rfl, loads⟩, ?_, rfl⟩, rfl⟩, rfl⟩
        simp only [roots]
        exact runs_bind_iff.mpr ⟨_, _, _, [], committing, .done _ _, (List.append_nil _).symm⟩

/-- A run of a live session: its start, with the log `start`, and the polls after it, the latest
first. -/
inductive LiveRun (answers : Answers σ SessionRequest.Answer) (ctx : Context) (layout : Layout)
    (s₀ : σ) (start : Log SessionRequest.Answer) :
    List (PollOutcome × Log SessionRequest.Answer) → Watcher → σ → Prop
  | live {w : Watcher} {s : σ} : Runs answers (startLive ctx layout) s₀ start (.ok w) s →
      LiveRun answers ctx layout s₀ start [] w s
  | poll {polls : List (PollOutcome × Log SessionRequest.Answer)} {w w' : Watcher} {s s' : σ}
      {log : Log SessionRequest.Answer} {outcome : PollOutcome} :
      LiveRun answers ctx layout s₀ start polls w s → Runs answers w.poll s log (outcome, w') s' →
      LiveRun answers ctx layout s₀ start ((outcome, log) :: polls) w' s'

end Session

/-- The states that a watcher can reach: it starts, and then makes side files, which are shown or
not, polls and closes, in any order. Between a side file and its showing the engine is asked
once. -/
inductive Watcher.Reached {σ : Type} (answers : Answers σ SessionRequest.Answer) (path : Path)
    (options : WatchOptions) (s₀ : σ) : Watcher → σ → Prop
  | started {w : Watcher} {s : σ} {log : Log SessionRequest.Answer} :
      Runs answers (start path options).inSession s₀ log (.ok w) s →
      Reached answers path options s₀ w s
  | made {w w' : Watcher} {s s' : σ} {log : Log SessionRequest.Answer}
      {result : Except Error Generation} : Reached answers path options s₀ w s →
      Runs answers (SessionScript.ofHostScript w.generate) s log (result, w') s' →
      Reached answers path options s₀ w' s'
  | shown {w w₁ w' : Watcher} {s s₁ s₂ s' : σ} {making committing : Log SessionRequest.Answer}
      {g : Generation} {q : EngineRequest} {answer : q.Answer} :
      Reached answers path options s₀ w s →
      Runs answers (SessionScript.ofHostScript w.generate) s making (.ok g, w₁) s₁ →
      answers s₁ (.engine q) answer s₂ →
      Runs answers (w₁.commit g).inSession s₂ committing w' s' →
      Reached answers path options s₀ w' s'
  | polled {w w' : Watcher} {s s' : σ} {log : Log SessionRequest.Answer} {outcome : PollOutcome} :
      Reached answers path options s₀ w s → Runs answers w.poll s log (outcome, w') s' →
      Reached answers path options s₀ w' s'
  | closed {w w' : Watcher} {s s' : σ} {log : Log SessionRequest.Answer} :
      Reached answers path options s₀ w s → Runs answers w.close.inSession s log w' s' →
      Reached answers path options s₀ w' s'

/-- A live session reaches such states. -/
theorem Session.LiveRun.reached {σ : Type} {answers : Answers σ SessionRequest.Answer}
    {ctx : Context} {layout : Layout} {s s' : σ} {start : Log SessionRequest.Answer}
    {polls : List (PollOutcome × Log SessionRequest.Answer)} {w : Watcher}
    (run : LiveRun answers ctx layout s start polls w s') :
    Watcher.Reached answers ctx.source (ctx.settings.watchOptions layout) s w s' := by
  induction run with
  | live started =>
      cases runs_startLive_iff.mp started with
      | live starts generates loading _ removing =>
          have starting := runs_inSession_iff.mpr ⟨_, Watcher.runs_start_iff.mpr starts, rfl⟩
          exact .shown (.started starting) (Watcher.runs_generate_iff.mpr generates) loading
            (Watcher.runs_commit_iff.mpr ⟨_, removing, rfl, rfl⟩)
  | poll _ polled ih => exact .polled ih polled

end QmlPreview
