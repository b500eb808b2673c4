import QmlPreview.Engine.Request

/-! Runs of scripts. Surroundings can answer a question in one way or in several, and may change
while they answer; what a script does is said of every run that it can have in them. -/

namespace QmlPreview

namespace Script

variable {Q : Type} {A : Q → Type} {σ α β : Type}

/-- In the given state the question can get this answer and leave that state. -/
abbrev Answers (σ : Type) (A : Q → Type) := σ → (q : Q) → A q → σ → Prop

/-- The questions that were asked and the answers to them, in order. -/
abbrev Log (A : Q → Type) := List ((q : Q) × A q)

/-- Run to its end, the script asks the questions of the log, gets the answers there, and ends with
a value in a state. -/
inductive Runs (answers : Answers σ A) : Script Q A α → σ → Log A → α → σ → Prop
  | done (a : α) (s : σ) : Runs answers (done a) s [] a s
  | ask {q : Q} {resume : A q → Script Q A α} {s s' s'' : σ} {r : A q} {log : Log A} {a : α} :
      answers s q r s' → Runs answers (resume r) s' log a s'' →
      Runs answers (ask q resume) s (⟨q, r⟩ :: log) a s''

variable {answers : Answers σ A}

theorem runs_done_iff {a b : α} {s s' : σ} {log : Log A} :
    Runs answers (done a) s log b s' ↔ log = [] ∧ b = a ∧ s' = s := by
  constructor
  · intro h
    cases h
    exact ⟨rfl, rfl, rfl⟩
  · rintro ⟨rfl, rfl, rfl⟩
    exact .done _ _

theorem runs_ask_iff {q : Q} {resume : A q → Script Q A α} {s s'' : σ} {log : Log A} {a : α} :
    Runs answers (ask q resume) s log a s'' ↔ ∃ r s' rest, answers s q r s' ∧
      Runs answers (resume r) s' rest a s'' ∧ log = ⟨q, r⟩ :: rest := by
  constructor
  · intro h
    cases h with
    | ask answered later => exact ⟨_, _, _, answered, later, rfl⟩
  · rintro ⟨r, s', rest, answered, later, rfl⟩
    exact .ask answered later

theorem runs_request_iff {q : Q} {s s' : σ} {log : Log A} {r : A q} :
    Runs answers (request q) s log r s' ↔ log = [⟨q, r⟩] ∧ answers s q r s' := by
  rw [request, runs_ask_iff]
  constructor
  · rintro ⟨r', s'', rest, answered, later, rfl⟩
    cases later
    exact ⟨rfl, answered⟩
  · rintro ⟨rfl, answered⟩
    exact ⟨r, s', [], answered, .done _ _, rfl⟩

/-- A run of two scripts, one after the other, is a run of the first and then one of the second. -/
theorem runs_bind_iff {script : Script Q A α} {f : α → Script Q A β} {s s'' : σ} {log : Log A}
    {b : β} : Runs answers (script >>= f) s log b s'' ↔ ∃ first a s' second,
      Runs answers script s first a s' ∧ Runs answers (f a) s' second b s'' ∧
        log = first ++ second := by
  induction script generalizing s log with
  | done a =>
      simp only [done_bind, runs_done_iff]
      constructor
      · exact fun h => ⟨[], a, s, log, ⟨rfl, rfl, rfl⟩, h, rfl⟩
      · rintro ⟨_, _, _, second, ⟨rfl, rfl, rfl⟩, h, rfl⟩
        exact h
  | ask q resume ih =>
      simp only [ask_bind, runs_ask_iff, ih]
      constructor
      · rintro ⟨r, s', _, answered, ⟨first, a, t, second, ran, later, rfl⟩, rfl⟩
        exact ⟨_, a, t, second, ⟨r, s', first, answered, ran, rfl⟩, later, rfl⟩
      · rintro ⟨_, a, t, second, ⟨r, s', first, answered, ran, rfl⟩, later, rfl⟩
        exact ⟨r, s', _, answered, ⟨first, a, t, second, ran, later, rfl⟩, rfl⟩

/-- A run of a question and then a script is the question's answer and then a run of the script. -/
theorem runs_request_bind_iff {q : Q} {f : A q → Script Q A β} {s s'' : σ} {log : Log A} {b : β} :
    Runs answers (request q >>= f) s log b s'' ↔ ∃ r s' rest, answers s q r s' ∧
      Runs answers (f r) s' rest b s'' ∧ log = ⟨q, r⟩ :: rest :=
  runs_ask_iff

theorem run_request_bind {answer : (q : Q) → σ → A q × σ} {q : Q} {f : A q → Script Q A β}
    {s s' : σ} {r : A q} (answered : answer q s = (r, s')) :
    run answer (request q >>= f) s = run answer (f r) s' := by
  rw [run_bind, request, run_ask, answered, run_done]

/-- Where each question has one answer, there is one run. -/
theorem run_eq_iff {answer : (q : Q) → σ → A q × σ} {script : Script Q A α} {s s' : σ} {a : α} :
    run answer script s = (a, s') ↔
      ∃ log, Runs (fun s q r s' => answer q s = (r, s')) script s log a s' := by
  induction script generalizing s with
  | done b =>
      simp only [run_done, runs_done_iff, Prod.mk.injEq]
      constructor
      · rintro ⟨rfl, rfl⟩
        exact ⟨[], rfl, rfl, rfl⟩
      · rintro ⟨_, -, rfl, rfl⟩
        exact ⟨rfl, rfl⟩
  | ask q resume ih =>
      simp only [run_ask, ih, runs_ask_iff]
      constructor
      · rintro ⟨log, later⟩
        exact ⟨_, _, _, log, rfl, later, rfl⟩
      · rintro ⟨_, r, s₁, log, answered, later, rfl⟩
        rw [answered]
        exact ⟨log, later⟩

/-- Where every question is replaced by one other question, the runs are those of the script itself,
with the other questions in their logs. -/
theorem runs_expand_iff {P : Type} {B : P → Type} {outer : Answers σ B}
    {f : (q : Q) → Script P B (A q)} {embed : (q : Q) × A q → (p : P) × B p}
    (single : ∀ q s log r s',
      Runs outer (f q) s log r s' ↔ log = [embed ⟨q, r⟩] ∧ answers s q r s')
    {script : Script Q A α} {s s' : σ} {log : Log B} {a : α} :
    Runs outer (script.expand f) s log a s' ↔
      ∃ inner, Runs answers script s inner a s' ∧ log = inner.map embed := by
  induction script generalizing s log with
  | done b =>
      have lifted : (done b : Script Q A α).expand f = done b := rfl
      simp only [lifted, runs_done_iff]
      constructor
      · rintro ⟨rfl, rfl, rfl⟩
        exact ⟨[], ⟨rfl, rfl, rfl⟩, rfl⟩
      · rintro ⟨_, ⟨rfl, rfl, rfl⟩, rfl⟩
        exact ⟨rfl, rfl, rfl⟩
  | ask q resume ih =>
      have lifted : (ask q resume).expand f = f q >>= fun r => (resume r).expand f := rfl
      simp only [lifted, runs_bind_iff, runs_ask_iff, single, ih]
      constructor
      · rintro ⟨_, r, s₁, _, ⟨rfl, answered⟩, ⟨rest, run, rfl⟩, rfl⟩
        exact ⟨⟨q, r⟩ :: rest, ⟨r, s₁, rest, answered, run, rfl⟩, rfl⟩
      · rintro ⟨_, ⟨r, s₁, rest, answered, run, rfl⟩, rfl⟩
        exact ⟨_, r, s₁, _, ⟨rfl, answered⟩, ⟨rest, run, rfl⟩, rfl⟩

/-- What holds of every state that an answer can lead to holds after a run. -/
theorem Runs.preserves {I : σ → Prop} (kept : ∀ {s q r s'}, answers s q r s' → I s → I s')
    {script : Script Q A α} {s s' : σ} {log : Log A} {a : α} (run : Runs answers script s log a s')
    (h : I s) : I s' := by
  induction run with
  | done a s => exact h
  | ask answered _ ih => exact ih (kept answered h)

theorem Runs.mono {more : Answers σ A} (weaker : ∀ {s q r s'}, answers s q r s' → more s q r s')
    {script : Script Q A α} {s s' : σ} {log : Log A} {a : α}
    (run : Runs answers script s log a s') : Runs more script s log a s' := by
  induction run with
  | done a s => exact .done a s
  | ask answered _ ih => exact .ask (weaker answered) ih

end Script

open Script (Answers Log Runs)

def FileScript.inSession {α : Type} (script : FileScript α) : SessionScript α :=
  SessionScript.ofHostScript (HostScript.ofFileScript script)

def HostRequest.inSession (x : (q : HostRequest) × q.Answer) : (q : SessionRequest) × q.Answer :=
  ⟨.host x.1, x.2⟩

def FileRequest.onHost (x : (q : FileRequest) × q.Answer) : (q : HostRequest) × q.Answer :=
  ⟨.file x.1, x.2⟩

def FileRequest.inSession (x : (q : FileRequest) × q.Answer) : (q : SessionRequest) × q.Answer :=
  ⟨.host (.file x.1), x.2⟩

section
variable {σ α : Type} {answers : Answers σ SessionRequest.Answer}

theorem runs_ofHostScript_iff {script : HostScript α} {s s' : σ}
    {log : Log SessionRequest.Answer} {a : α} :
    Runs answers (SessionScript.ofHostScript script) s log a s' ↔ ∃ inner,
      Runs (fun s q => answers s (.host q)) script s inner a s' ∧
        log = inner.map HostRequest.inSession :=
  Script.runs_expand_iff fun _ _ _ _ _ => Script.runs_request_iff

theorem runs_ofFileScript_iff {answers : Answers σ HostRequest.Answer} {script : FileScript α}
    {s s' : σ} {log : Log HostRequest.Answer} {a : α} :
    Runs answers (HostScript.ofFileScript script) s log a s' ↔ ∃ inner,
      Runs (fun s q => answers s (.file q)) script s inner a s' ∧
        log = inner.map FileRequest.onHost :=
  Script.runs_expand_iff fun _ _ _ _ _ => Script.runs_request_iff

theorem runs_inSession_iff {script : FileScript α} {s s' : σ} {log : Log SessionRequest.Answer}
    {a : α} : Runs answers script.inSession s log a s' ↔ ∃ inner,
      Runs (fun s q => answers s (.host (.file q))) script s inner a s' ∧
        log = inner.map FileRequest.inSession := by
  rw [FileScript.inSession, runs_ofHostScript_iff]
  constructor
  · rintro ⟨hostLog, hostRun, rfl⟩
    obtain ⟨inner, run, rfl⟩ := runs_ofFileScript_iff.mp hostRun
    exact ⟨inner, run, by rw [List.map_map]; rfl⟩
  · rintro ⟨inner, run, rfl⟩
    exact ⟨_, runs_ofFileScript_iff.mpr ⟨inner, run, rfl⟩, by rw [List.map_map]; rfl⟩

end

end QmlPreview
