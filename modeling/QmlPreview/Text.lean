/-!
Texts, and the operations on them that every other module shares.

A text is the list of its Unicode characters. Lengths and offsets are counted in UTF-8 bytes, so
`byteLength` is the length that all positions in a document are measured by.
-/

namespace QmlPreview

/-- A text is the list of its characters. -/
abbrev Text := List Char

namespace Text

section
variable (p : Char → Prop) [DecidablePred p]

/-- What all characters of a text have in common is decided along the text, not over all characters. -/
instance decidableForall (t : Text) : Decidable (∀ c ∈ t, p c) := List.decidableBAll p t

instance decidableForallOption (o : Option Char) : Decidable (∀ c ∈ o, p c) :=
  Option.decidableForallMem o

end

/-- The characters with the Unicode property White_Space. -/
def isBlank (c : Char) : Bool :=
  let n := c.toNat
  (9 ≤ n && n ≤ 13) || n == 0x20 || n == 0x85 || n == 0xA0 || n == 0x1680 ||
    (0x2000 ≤ n && n ≤ 0x200A) || n == 0x2028 || n == 0x2029 || n == 0x202F || n == 0x205F ||
    n == 0x3000

/-- Every blank of the ASCII range that the core library knows is a blank here too. -/
theorem isBlank_of_isWhitespace {c : Char} (h : c.isWhitespace = true) : isBlank c = true := by
  simp only [Char.isWhitespace, Bool.or_eq_true, decide_eq_true_eq] at h
  rcases h with ((rfl | rfl) | rfl) | rfl <;> rfl

def trimStart (t : Text) : Text := t.dropWhile isBlank

def trimEnd (t : Text) : Text := (t.reverse.dropWhile isBlank).reverse

def trim (t : Text) : Text := trimEnd (trimStart t)

/-- The maximal runs of characters that are no blanks, in order. -/
def words (t : Text) : List Text := (t.splitOnP isBlank).filter (fun w => !w.isEmpty)

/-- The pieces between newlines; a text without newline is one line. -/
def lines (t : Text) : List Text := t.splitOn '\n'

/-- The number of bytes of the text in UTF-8. -/
def byteLength : Text → Nat
  | [] => 0
  | c :: t => c.utf8Size + byteLength t

@[simp] theorem byteLength_nil : byteLength [] = 0 := rfl

@[simp] theorem byteLength_cons (c : Char) (t : Text) :
    byteLength (c :: t) = c.utf8Size + byteLength t := rfl

@[simp] theorem byteLength_append (s t : Text) :
    byteLength (s ++ t) = byteLength s + byteLength t := by
  induction s with
  | nil => simp
  | cons c s ih => simp [ih, Nat.add_assoc]

def ofNat (n : Nat) : Text := Nat.toDigits 10 n

theorem isDigit_of_mem_ofNat {n : Nat} {c : Char} (h : c ∈ ofNat n) : c.isDigit = true :=
  Nat.isDigit_of_mem_toDigits (by decide) (by decide) h

/-- What is left of `t` after `lead`, where `t` starts with it. -/
def dropLead? : (lead t : Text) → Option Text
  | [], t => some t
  | _ :: _, [] => none
  | c :: lead, d :: t => if c = d then dropLead? lead t else none

theorem dropLead?_eq_some_iff {lead t rest : Text} :
    dropLead? lead t = some rest ↔ t = lead ++ rest := by
  induction lead generalizing t with
  | nil => simp [dropLead?, eq_comm]
  | cons c lead ih =>
    cases t with
    | nil => simp [dropLead?]
    | cons d t =>
      by_cases h : c = d
      · simp [dropLead?, h, ih]
      · simp only [dropLead?, h, if_false, List.cons_append, List.cons.injEq, reduceCtorEq,
          false_iff, not_and]
        exact fun e => absurd e.symm h

end Text

end QmlPreview
