import Mathlib.Logic.Function.Basic
import QmlPreview.Proofs.Runs

/-! What scripts ask when several of them run at the same time. What one of them may ask depends on
its own questions before and the answers to them, so it is found out from each script alone, for all
answers that it can get. -/

namespace QmlPreview.Script

variable {Q : Type} {A : Q → Type} {α β : Type}

/-- Whatever the answers, a script that goes on after the log asks only what it may, and ends as it
should. -/
def Asks (may : Log A → Q → Prop) (ends : Log A → α → Prop) : Script Q A α → Log A → Prop
  | done a, past => ends past a
  | ask q resume, past => may past q ∧ ∀ r, Asks may ends (resume r) (past ++ [⟨q, r⟩])

section
variable {may may' : Log A → Q → Prop} {ends ends' : Log A → α → Prop} {script : Script Q A α}
  {past : Log A}

theorem asks_bind_iff {f : α → Script Q A β} {finish : Log A → β → Prop} :
    Asks may finish (script >>= f) past ↔
      Asks may (fun log a => Asks may finish (f a) log) script past := by
  induction script generalizing past with
  | done a => exact Iff.rfl
  | ask q resume ih => exact and_congr_right fun _ => forall_congr' fun r => ih r

theorem Asks.mono (asks : Asks may ends script past)
    (wider : ∀ log q, past <+: log → may log q → may' log q)
    (weaker : ∀ log a, past <+: log → ends log a → ends' log a) :
    Asks may' ends' script past := by
  induction script generalizing past with
  | done a => exact weaker past a List.prefix_rfl asks
  | ask q resume ih =>
      refine ⟨wider past q List.prefix_rfl asks.1, fun r => ?_⟩
      have longer : past <+: past ++ [⟨q, r⟩] := List.prefix_append _ _
      exact ih r (asks.2 r) (fun log q h => wider log q (longer.trans h))
        fun log a h => weaker log a (longer.trans h)

/-- One script after the other. -/
theorem Asks.bind {f : α → Script Q A β} {finish : Log A → β → Prop}
    (first : Asks may ends script past)
    (second : ∀ log a, ends log a → Asks may finish (f a) log) :
    Asks may finish (script >>= f) past :=
  asks_bind_iff.mpr (first.mono (fun _ _ _ h => h) fun log a _ h => second log a h)

end

theorem expand_ask {P : Type} {B : P → Type} (g : (q : Q) → Script P B (A q)) (q : Q)
    (resume : A q → Script Q A α) :
    (ask q resume).expand g = g q >>= fun r => (resume r).expand g := rfl

theorem expand_bind {P : Type} {B : P → Type} (g : (q : Q) → Script P B (A q))
    (script : Script Q A α) (f : α → Script Q A β) :
    (script >>= f).expand g = script.expand g >>= fun a => (f a).expand g := by
  induction script with
  | done a => rfl
  | ask q resume ih =>
      rw [ask_bind, expand_ask, expand_ask, bind_assoc]
      exact congrArg _ (funext ih)

section
variable {ι σ : Type} [DecidableEq ι]

/-- What was asked by whom, and the answers, in order. -/
abbrev Trace (ι : Type) (A : Q → Type) := List (ι × ((q : Q) × A q))

def own (p : ι) (trace : Trace ι A) : Log A :=
  (trace.filter (fun x => decide (x.1 = p))).map Prod.snd

/-- A script runs for each `p`, all in the same surroundings, which may answer each of them in its
own way. Any of them can ask next. -/
inductive Together (answers : ι → Answers σ A) (scripts : ι → Script Q A α) (s₀ : σ) :
    Trace ι A → (ι → Script Q A α) → σ → Prop
  | start : Together answers scripts s₀ [] scripts s₀
  | step {trace : Trace ι A} {running : ι → Script Q A α} {s s' : σ} (p : ι) {q : Q}
      {resume : A q → Script Q A α} {r : A q} :
      Together answers scripts s₀ trace running s → running p = ask q resume →
      answers p s q r s' →
      Together answers scripts s₀ (trace ++ [(p, ⟨q, r⟩)])
        (Function.update running p (resume r)) s'

theorem own_append (p : ι) (before after : Trace ι A) :
    own p (before ++ after) = own p before ++ own p after := by
  simp only [own, List.filter_append, List.map_append]

theorem own_cons_self (p : ι) (x : (q : Q) × A q) (after : Trace ι A) :
    own p ((p, x) :: after) = x :: own p after := by
  simp only [own, List.filter_cons, decide_true, if_true, List.map_cons]

theorem own_cons_of_ne {p p' : ι} (h : p' ≠ p) (x : (q : Q) × A q) (after : Trace ι A) :
    own p ((p', x) :: after) = own p after := by
  simp only [own, List.filter_cons, h, decide_false, Bool.false_eq_true, if_false]

theorem own_map_self (p : ι) (log : Log A) : own p (log.map (Prod.mk p)) = log := by
  simp [own, List.filter_map, Function.comp_def]

theorem own_map_of_ne {p p' : ι} (h : p' ≠ p) (log : Log A) :
    own p (log.map (Prod.mk p')) = [] := by
  simp [own, List.filter_map, Function.comp_def, h]

theorem mem_own_iff {p : ι} {x : (q : Q) × A q} {trace : Trace ι A} :
    x ∈ own p trace ↔ (p, x) ∈ trace := by
  simp only [own, List.mem_map, List.mem_filter, decide_eq_true_eq]
  constructor
  · rintro ⟨⟨_, _⟩, ⟨member, rfl⟩, rfl⟩
    exact member
  · exact fun member => ⟨(p, x), ⟨member, rfl⟩, rfl⟩

variable {answers : ι → Answers σ A} {scripts running : ι → Script Q A α} {s₀ s : σ}
  {trace : Trace ι A}

/-- Scripts that run at the same time each ask what they may. -/
theorem Together.asked {may : ι → Log A → Q → Prop} {ends : ι → Log A → α → Prop}
    (asks : ∀ p, Asks (may p) (ends p) (scripts p) [])
    (run : Together answers scripts s₀ trace running s) :
    (∀ p, Asks (may p) (ends p) (running p) (own p trace)) ∧
      ∀ before p x after, trace = before ++ (p, x) :: after → may p (own p before) x.1 := by
  induction run with
  | start => exact ⟨asks, fun before p x after split => by cases before <;> cases split⟩
  | @step trace running _ _ p q resume r _ current _ ih =>
      obtain ⟨going, asked⟩ := ih
      have now := going p
      rw [current] at now
      constructor
      · intro p'
        rw [own_append]
        by_cases same : p' = p
        · subst same
          rw [Function.update_self, own_cons_self]
          exact now.2 r
        · rw [Function.update_of_ne same, own_cons_of_ne (Ne.symm same)]
          exact (List.append_nil (own p' trace)).symm ▸ going p'
      · intro before p' x after split
        rcases List.eq_nil_or_concat after with rfl | ⟨later, last, rfl⟩
        · obtain ⟨rfl, same⟩ := List.append_inj' split rfl
          cases same
          exact now.1
        · rw [List.concat_eq_append, ← List.cons_append, ← List.append_assoc] at split
          exact asked before p' x later (List.append_inj' split rfl).1

/-- One of the scripts can run on alone, up to where its first part ends. -/
theorem Together.alone {β : Type} {p : ι} {first : Script Q A β} {next : β → Script Q A α}
    {log : Log A} {b : β} {s' : σ} (run : Together answers scripts s₀ trace running s)
    (current : running p = first >>= next) (ran : Runs (answers p) first s log b s') :
    Together answers scripts s₀ (trace ++ log.map (Prod.mk p))
      (Function.update running p (next b)) s' := by
  induction ran generalizing trace running with
  | done b s =>
      have same : Function.update running p (next b) = running :=
        Function.update_eq_self_iff.mpr current.symm
      rwa [List.map_nil, List.append_nil, same]
  | ask answered _ ih =>
      have stepped := run.step p current answered
      have later := ih stepped (Function.update_self ..)
      rwa [Function.update_idem, List.append_assoc] at later

end

end QmlPreview.Script
