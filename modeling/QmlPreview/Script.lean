/-!
Scripts: computations that ask their surroundings one question at a time.

A script is data. It is done with a value, or it asks a question and goes on with the answer. Whoever
runs it decides what the answers are and what happens between two questions, so what a script does is
said by what it asks.
-/

namespace QmlPreview

/-- A computation that asks questions of type `Q`, where `A q` is the type of the answers to `q`. -/
inductive Script (Q : Type) (A : Q → Type) (α : Type) where
  | done (value : α)
  | ask (question : Q) (resume : A question → Script Q A α)

namespace Script

variable {Q P : Type} {A : Q → Type} {B : P → Type} {α β : Type}

def bind : Script Q A α → (α → Script Q A β) → Script Q A β
  | done a, f => f a
  | ask q resume, f => ask q (fun a => bind (resume a) f)

instance : Monad (Script Q A) where
  pure := done
  bind := bind

def request (q : Q) : Script Q A (A q) := ask q done

def interpret {m : Type → Type} [Monad m] (answer : (q : Q) → m (A q)) : Script Q A α → m α
  | done a => pure a
  | ask q resume => do interpret answer (resume (← answer q))

def run {σ : Type} (answer : (q : Q) → σ → A q × σ) (s : Script Q A α) (state : σ) : α × σ :=
  interpret (m := StateM σ) answer s state

def expand (f : (q : Q) → Script P B (A q)) : Script Q A α → Script P B α := interpret f

@[simp] theorem pure_eq_done (a : α) : (pure a : Script Q A α) = done a := rfl

@[simp] theorem done_bind (a : α) (f : α → Script Q A β) : done a >>= f = f a := rfl

@[simp] theorem ask_bind (q : Q) (resume : A q → Script Q A α) (f : α → Script Q A β) :
    ask q resume >>= f = ask q (fun a => resume a >>= f) := rfl

theorem bind_done (s : Script Q A α) : s >>= done = s := by
  induction s with
  | done a => rfl
  | ask q resume ih => simp [ih]

theorem bind_assoc {γ : Type} (s : Script Q A α) (f : α → Script Q A β) (g : β → Script Q A γ) :
    s >>= f >>= g = s >>= fun a => f a >>= g := by
  induction s with
  | done a => rfl
  | ask q resume ih => simp [ih]

instance : LawfulMonad (Script Q A) :=
  LawfulMonad.mk' (Script Q A) bind_done (fun _ _ => rfl) bind_assoc

@[simp] theorem run_done {σ : Type} (answer : (q : Q) → σ → A q × σ) (a : α) (state : σ) :
    run answer (done a) state = (a, state) := rfl

@[simp] theorem run_ask {σ : Type} (answer : (q : Q) → σ → A q × σ) (q : Q)
    (resume : A q → Script Q A α) (state : σ) :
    run answer (ask q resume) state =
      run answer (resume (answer q state).1) (answer q state).2 := rfl

/-- Running two scripts one after the other. -/
theorem run_bind {σ : Type} (answer : (q : Q) → σ → A q × σ) (s : Script Q A α)
    (f : α → Script Q A β) (state : σ) :
    run answer (s >>= f) state = run answer (f (run answer s state).1) (run answer s state).2 := by
  induction s generalizing state with
  | done a => rfl
  | ask q resume ih => simp [ih]

end Script

end QmlPreview
