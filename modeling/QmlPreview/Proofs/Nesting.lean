import QmlPreview.Braces
import QmlPreview.Proofs.Closed

/-! Brace depth along a sequence of lexemes. An element is a sequence whose depth rises from zero and
is back at zero with its last lexeme only; that is what the two brace checks on a text amount to. -/

namespace QmlPreview.Lexeme

/-- The lexeme is no blank. -/
def isVisible (x : Lexeme) : Bool := !Text.isBlank x.char

def visible (xs : List Lexeme) : List Lexeme := xs.filter isVisible

/-- The brace depth after a lexeme that is met at depth `d`. -/
def depthAfter (d : Int) (x : Lexeme) : Int :=
  if x.isCode '{' then d + 1 else if x.isCode '}' then d - 1 else d

/-- Each lexeme with the brace depth that it is met at. -/
def nested : Int → List Lexeme → List (Lexeme × Int)
  | _, [] => []
  | d, x :: xs => (x, d) :: nested (depthAfter d x) xs

/-- The brace depth after the lexemes, unless one of them closes the last open brace or one more. -/
def staysOpen : Nat → List Lexeme → Option Nat
  | d, [] => some d
  | d, x :: xs =>
    if x.isCode '{' then staysOpen (d + 1) xs
    else if x.isCode '}' then if d ≤ 1 then none else staysOpen (d - 1) xs
    else staysOpen d xs

/-- The lexemes of one element, up to the brace that closes it. -/
def IsElement (xs : List Lexeme) : Prop :=
  ∃ inner, xs = inner ++ [⟨'}', .code⟩] ∧ staysOpen 0 inner = some 1

theorem eq_of_isCode {x : Lexeme} {c : Char} (h : x.isCode c = true) : x = ⟨c, .code⟩ := by
  obtain ⟨char, region⟩ := x
  simp only [isCode, Bool.and_eq_true, beq_iff_eq] at h
  rw [h.1, h.2]

theorem brace_cases (x : Lexeme) :
    x = ⟨'{', .code⟩ ∨ x = ⟨'}', .code⟩ ∨ x.isBrace = false := by
  cases opens : x.isCode '{' with
  | true => exact .inl (eq_of_isCode opens)
  | false =>
      cases closes : x.isCode '}' with
      | true => exact .inr (.inl (eq_of_isCode closes))
      | false => exact .inr (.inr (by simp only [isBrace, opens, closes, Bool.or_false]))

theorem isCode_of_not_brace {x : Lexeme} (h : x.isBrace = false) :
    x.isCode '{' = false ∧ x.isCode '}' = false := by
  simpa only [isBrace, Bool.or_eq_false_iff] using h

@[simp] theorem depthAfter_open (d : Int) : depthAfter d ⟨'{', .code⟩ = d + 1 := rfl

@[simp] theorem depthAfter_close (d : Int) : depthAfter d ⟨'}', .code⟩ = d - 1 := rfl

theorem depthAfter_other (d : Int) {x : Lexeme} (h : x.isBrace = false) : depthAfter d x = d := by
  simp only [depthAfter, isCode_of_not_brace h, Bool.false_eq_true, if_false]

@[simp] theorem staysOpen_nil (d : Nat) : staysOpen d [] = some d := rfl

@[simp] theorem staysOpen_open (d : Nat) (xs : List Lexeme) :
    staysOpen d (⟨'{', .code⟩ :: xs) = staysOpen (d + 1) xs := rfl

@[simp] theorem staysOpen_close (d : Nat) (xs : List Lexeme) :
    staysOpen d (⟨'}', .code⟩ :: xs) = if d ≤ 1 then none else staysOpen (d - 1) xs := rfl

theorem staysOpen_other (d : Nat) {x : Lexeme} (h : x.isBrace = false) (xs : List Lexeme) :
    staysOpen d (x :: xs) = staysOpen d xs := by
  simp only [staysOpen, isCode_of_not_brace h, Bool.false_eq_true, if_false]

theorem staysOpen_append (d : Nat) (xs ys : List Lexeme) :
    staysOpen d (xs ++ ys) = (staysOpen d xs).bind (fun e => staysOpen e ys) := by
  induction xs generalizing d with
  | nil => rfl
  | cons x xs ih =>
      rw [List.cons_append]
      rcases brace_cases x with rfl | rfl | other
      · exact ih (d + 1)
      · simp only [staysOpen_close]
        split
        · rfl
        · exact ih (d - 1)
      · rw [staysOpen_other d other, staysOpen_other d other, ih]

theorem staysOpen_append_of_eq {d e : Nat} {xs : List Lexeme} (h : staysOpen d xs = some e)
    (ys : List Lexeme) : staysOpen d (xs ++ ys) = staysOpen e ys := by
  rw [staysOpen_append, h, Option.bind_some]

theorem staysOpen_add {d e : Nat} {xs : List Lexeme} (h : staysOpen d xs = some e) (k : Nat) :
    staysOpen (d + k) xs = some (e + k) := by
  induction xs generalizing d with
  | nil =>
      cases h
      rfl
  | cons x xs ih =>
      rcases brace_cases x with rfl | rfl | other
      · have deeper := ih (d := d + 1) h
        rwa [Nat.add_right_comm] at deeper
      · simp only [staysOpen_close] at h ⊢
        split at h
        · cases h
        · rename_i deep
          have lower := ih h
          rw [if_neg (by omega), Nat.sub_add_comm (by omega)]
          exact lower
      · rw [staysOpen_other d other] at h
        rw [staysOpen_other _ other]
        exact ih h

theorem staysOpen_of_no_brace (d : Nat) {xs : List Lexeme} (h : ∀ x ∈ xs, x.isBrace = false) :
    staysOpen d xs = some d := by
  induction xs with
  | nil => rfl
  | cons x xs ih =>
      rw [List.forall_mem_cons] at h
      rw [staysOpen_other d h.1, ih h.2]

theorem isBrace_of_not_visible {x : Lexeme} (h : x.isVisible = false) : x.isBrace = false := by
  rcases brace_cases x with rfl | rfl | other
  · cases h
  · cases h
  · exact other

/-- Blanks do not count. -/
theorem staysOpen_visible (d : Nat) (xs : List Lexeme) :
    staysOpen d (visible xs) = staysOpen d xs := by
  induction xs generalizing d with
  | nil => rfl
  | cons x xs ih =>
      cases shown : x.isVisible with
      | false =>
          rw [staysOpen_other d (isBrace_of_not_visible shown), ← ih d]
          simp only [visible, List.filter_cons, shown, Bool.false_eq_true, if_false]
      | true =>
          simp only [visible, List.filter_cons, shown, if_true] at ih ⊢
          simp only [staysOpen, ih]

theorem nested_append (d : Int) (xs ys : List Lexeme) :
    nested d (xs ++ ys) = nested d xs ++ nested (xs.foldl depthAfter d) ys := by
  induction xs generalizing d with
  | nil => rfl
  | cons x xs ih => simp only [List.cons_append, nested, List.foldl_cons, ih]

/-- Where the depth stays above zero, counting it does not depend on where counting stops. -/
theorem foldl_depthAfter {d e : Nat} {xs : List Lexeme} (h : staysOpen d xs = some e) :
    xs.foldl depthAfter (d : Int) = e := by
  induction xs generalizing d with
  | nil =>
      cases h
      rfl
  | cons x xs ih =>
      rw [List.foldl_cons]
      rcases brace_cases x with rfl | rfl | other
      · rw [depthAfter_open]
        exact ih (d := d + 1) h
      · simp only [staysOpen_close] at h
        split at h
        · cases h
        · rename_i deep
          have lower := ih h
          have cast : ((d - 1 : Nat) : Int) = (d : Int) - 1 := by omega
          rwa [depthAfter_close, ← cast]
      · rw [staysOpen_other d other] at h
        rw [depthAfter_other _ other]
        exact ih h

theorem nested_append_of_eq {d e : Nat} {xs : List Lexeme} (h : staysOpen d xs = some e)
    (ys : List Lexeme) : nested d (xs ++ ys) = nested d xs ++ nested e ys := by
  rw [nested_append, foldl_depthAfter h]

theorem map_fst_nested (d : Int) (xs : List Lexeme) : (nested d xs).map Prod.fst = xs := by
  induction xs generalizing d with
  | nil => rfl
  | cons x xs ih => simp only [nested, List.map_cons, ih]

theorem depthAfter_add (d k : Int) (x : Lexeme) : depthAfter (d + k) x = depthAfter d x + k := by
  simp only [depthAfter]
  split
  · omega
  · split <;> omega

theorem nested_add (d k : Int) (xs : List Lexeme) :
    nested (d + k) xs = (nested d xs).map (fun p => (p.1, p.2 + k)) := by
  induction xs generalizing d with
  | nil => rfl
  | cons x xs ih => simp only [nested, List.map_cons, depthAfter_add, ih]

theorem foldl_depthAfter_add (d k : Int) (xs : List Lexeme) :
    xs.foldl depthAfter (d + k) = xs.foldl depthAfter d + k := by
  induction xs generalizing d with
  | nil => rfl
  | cons x xs ih => rw [List.foldl_cons, List.foldl_cons, depthAfter_add, ih]

/-- What stays open inside one brace comes back to the depth that it starts at. -/
theorem foldl_depthAfter_root {xs : List Lexeme} (h : staysOpen 1 xs = some 1) :
    xs.foldl depthAfter 0 = 0 := by
  have deeper := foldl_depthAfter_add 0 1 xs
  have same := foldl_depthAfter h
  rw [Int.zero_add] at deeper
  have root : xs.foldl depthAfter 0 + 1 = 1 := deeper.symm.trans same
  omega

theorem filter_nested (d : Int) (xs : List Lexeme) :
    (nested d xs).filter (fun p => p.1.isVisible) = nested d (visible xs) := by
  induction xs generalizing d with
  | nil => rfl
  | cons x xs ih =>
      cases shown : x.isVisible with
      | false =>
          have same := depthAfter_other d (isBrace_of_not_visible shown)
          simp only [visible, nested, List.filter_cons, shown, same, Bool.false_eq_true, if_false]
            at ih ⊢
          exact ih d
      | true =>
          simp only [visible, nested, List.filter_cons, shown, if_true] at ih ⊢
          rw [ih]

/-- The byte length of the characters of a sequence of lexemes. -/
def bytes (xs : List Lexeme) : Nat := Text.byteLength (xs.map (·.char))

@[simp] theorem bytes_cons (x : Lexeme) (xs : List Lexeme) :
    bytes (x :: xs) = x.char.utf8Size + bytes xs := rfl

theorem bytes_append (xs ys : List Lexeme) : bytes (xs ++ ys) = bytes xs + bytes ys := by
  simp only [bytes, List.map_append, Text.byteLength_append]

theorem bytes_lex (t : Text) : bytes (lex t) = Text.byteLength t := by
  rw [bytes, Lexer.map_char_lex]

theorem balancedFrom_append {d e : Nat} {xs : List Lexeme} (h : staysOpen d xs = some e)
    (ys : List Lexeme) : balancedFrom d (xs ++ ys) = balancedFrom e ys := by
  induction xs generalizing d with
  | nil =>
      cases h
      rfl
  | cons x xs ih =>
      rw [List.cons_append]
      rcases brace_cases x with rfl | rfl | other
      · exact ih (d := d + 1) h
      · simp only [staysOpen_close] at h
        split at h
        · cases h
        · obtain ⟨d, rfl⟩ : ∃ d', d = d' + 1 := ⟨d - 1, by omega⟩
          exact ih (d := d) h
      · rw [staysOpen_other d other] at h
        simp only [balancedFrom, isCode_of_not_brace other, Bool.false_eq_true, if_false]
        exact ih h

theorem firstReturn_append {d e : Nat} {xs : List Lexeme} (h : staysOpen d xs = some e)
    (offset : Nat) (ys : List Lexeme) :
    firstReturn d offset (xs ++ ys) = firstReturn e (offset + bytes xs) ys := by
  induction xs generalizing d offset with
  | nil =>
      cases h
      rfl
  | cons x xs ih =>
      rw [List.cons_append, bytes_cons, ← Nat.add_assoc]
      rcases brace_cases x with rfl | rfl | other
      · exact ih (d := d + 1) h _
      · simp only [staysOpen_close] at h
        split at h
        · cases h
        · rename_i deep
          simp only [firstReturn, isCode, beq_self_eq_true, Bool.and_self, if_true, deep, if_false,
            Bool.true_and, Char.reduceBEq, Bool.false_eq_true]
          exact ih h _
      · rw [staysOpen_other d other] at h
        simp only [firstReturn, isCode_of_not_brace other, Bool.false_eq_true, if_false]
        exact ih h _

/-- Braces that balance from an open one on come back to it with some closing brace. -/
theorem exists_return {d : Nat} (hd : 1 ≤ d) {xs : List Lexeme} (h : balancedFrom d xs = true) :
    ∃ inner rest, xs = inner ++ ⟨'}', .code⟩ :: rest ∧ staysOpen d inner = some 1 := by
  induction xs generalizing d with
  | nil =>
      simp only [balancedFrom, beq_iff_eq] at h
      omega
  | cons x xs ih =>
      rcases brace_cases x with rfl | rfl | other
      · obtain ⟨inner, rest, rfl, stays⟩ := ih (d := d + 1) (by omega) h
        exact ⟨⟨'{', .code⟩ :: inner, rest, rfl, stays⟩
      · obtain ⟨d, rfl⟩ : ∃ d', d = d' + 1 := ⟨d - 1, by omega⟩
        cases d with
        | zero => exact ⟨[], xs, rfl, rfl⟩
        | succ d =>
            obtain ⟨inner, rest, rfl, stays⟩ := ih (d := d + 1) (by omega) h
            exact ⟨⟨'}', .code⟩ :: inner, rest, rfl, stays⟩
      · simp only [balancedFrom, isCode_of_not_brace other, Bool.false_eq_true, if_false] at h
        obtain ⟨inner, rest, rfl, stays⟩ := ih hd h
        exact ⟨x :: inner, rest, rfl, by rwa [staysOpen_other d other]⟩

theorem IsElement.balanced {xs : List Lexeme} (h : IsElement xs) : balancedFrom 0 xs = true := by
  obtain ⟨inner, rfl, stays⟩ := h
  rw [balancedFrom_append stays]
  rfl

theorem IsElement.firstReturn {xs : List Lexeme} (h : IsElement xs) :
    ∃ close, firstReturn 0 0 xs = some close ∧ close + 1 = bytes xs := by
  obtain ⟨inner, rfl, stays⟩ := h
  refine ⟨0 + bytes inner, ?_, ?_⟩
  · rw [firstReturn_append stays]
    rfl
  · rw [bytes_append, Nat.zero_add]
    rfl

/-- Balanced braces, one of which opens, make an element where nothing follows their first return to
depth zero. -/
theorem isElement_of_checks {lead rest : List Lexeme} (hl : ∀ x ∈ lead, x.isBrace = false)
    (balanced : balancedFrom 0 (lead ++ ⟨'{', .code⟩ :: rest) = true)
    (last : ∀ close, Lexeme.firstReturn 0 0 (lead ++ ⟨'{', .code⟩ :: rest) = some close →
      bytes (lead ++ ⟨'{', .code⟩ :: rest) ≤ close + 1) :
    ∃ inner, rest = inner ++ [⟨'}', .code⟩] ∧ staysOpen 1 inner = some 1 := by
  have open₀ := staysOpen_of_no_brace 0 hl
  rw [balancedFrom_append open₀] at balanced
  obtain ⟨inner, after, rfl, stays⟩ := exists_return (d := 1) (Nat.le_refl 1) balanced
  have returns : Lexeme.firstReturn 0 0 (lead ++ ⟨'{', .code⟩ :: (inner ++ ⟨'}', .code⟩ :: after)) =
      some (0 + bytes lead + 1 + bytes inner) := by
    rw [firstReturn_append open₀]
    exact firstReturn_append stays _ _
  have short := last _ returns
  have unit : ('}' : Char).utf8Size = 1 := rfl
  have unit' : ('{' : Char).utf8Size = 1 := rfl
  simp only [bytes_append, bytes_cons, unit, unit'] at short
  have none : after = [] := by
    cases after with
    | nil => rfl
    | cons x after =>
        have := x.char.utf8Size_pos
        simp only [bytes_cons] at short
        omega
  subst none
  exact ⟨inner, rfl, stays⟩

end QmlPreview.Lexeme
