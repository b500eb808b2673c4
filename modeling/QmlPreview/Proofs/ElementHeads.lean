import QmlPreview.Document.ElementHead
import QmlPreview.Proofs.Blanks

/-! Element heads: a text starts with a head exactly if it is a type name, a gap of blanks and an
opening brace, whatever follows. -/

namespace QmlPreview.ElementHead

def isNameChar (c : Char) : Bool := continuesIdentifier c || c == '.'

theorem isNameChar_brace : isNameChar '{' = false := by decide

theorem isNameChar_of_isBlank {c : Char} (h : Text.isBlank c = true) : isNameChar c = false := by
  cases named : isNameChar c with
  | false => rfl
  | true =>
      change ((decide (c.val ≥ 65 ∧ c.val ≤ 90) || (c.val ≥ 97 && c.val ≤ 122) ||
        (c.val ≥ 48 && c.val ≤ 57)) || c == '_' || c == '.') = true at named
      simp only [Bool.or_eq_true, Bool.and_eq_true, decide_eq_true_eq, beq_iff_eq, ge_iff_le,
        UInt32.le_iff_toNat_le] at named
      change ((((65 ≤ c.toNat ∧ c.toNat ≤ 90) ∨ (97 ≤ c.toNat ∧ c.toNat ≤ 122)) ∨
        (48 ≤ c.toNat ∧ c.toNat ≤ 57)) ∨ c = '_') ∨ c = '.' at named
      simp only [Text.isBlank, Bool.or_eq_true, Bool.and_eq_true, decide_eq_true_eq,
        beq_iff_eq] at h
      rcases named with (letterOrDigit | rfl) | rfl
      · omega
      · exact absurd h (by decide)
      · exact absurd h (by decide)

theorem isBlank_of_isNameChar {c : Char} (h : isNameChar c = true) : Text.isBlank c = false := by
  cases blank : Text.isBlank c with
  | false => rfl
  | true =>
      rw [isNameChar_of_isBlank blank] at h
      cases h

theorem isBlank_of_isDigit {c : Char} (h : c.isDigit = true) : Text.isBlank c = false := by
  apply isBlank_of_isNameChar
  simp only [isNameChar, continuesIdentifier, Char.isAlphanum, h, Bool.or_true, Bool.true_or]

theorem takeWhile_dropWhile_append {p : Char → Bool} {a b : Text} (ha : ∀ c ∈ a, p c = true)
    (hb : ∀ c ∈ b.head?, p c = false) :
    (a ++ b).takeWhile p = a ∧ (a ++ b).dropWhile p = b := by
  rw [List.takeWhile_append_of_pos ha, List.dropWhile_append_of_pos ha]
  cases b with
  | nil => exact ⟨List.append_nil a, rfl⟩
  | cons c b =>
      have stop := hb c rfl
      simp only [List.takeWhile_cons, List.dropWhile_cons, stop, Bool.false_eq_true, if_false,
        List.append_nil, and_self]

/-- Reading a head succeeds on a name, a gap and a brace, and gives the name and the brace's place. -/
theorem parse?_eq_some_iff {t : Text} {h : ElementHead} :
    parse? t = some h ↔ ∃ gap more : Text, t = h.typeName ++ (gap ++ '{' :: more) ∧
      isTypeName h.typeName = true ∧ (∀ c ∈ h.typeName, isNameChar c = true) ∧
      (∀ c ∈ gap, Text.isBlank c = true) ∧ h.brace = Text.byteLength (h.typeName ++ gap) := by
  constructor
  · intro parsed
    simp only [parse?] at parsed
    split at parsed
    · rename_i found
      cases parsed
      simp only [Bool.and_eq_true, beq_iff_eq] at found
      obtain ⟨named, brace⟩ := found
      obtain ⟨more, opening⟩ := List.head?_eq_some_iff.mp brace
      refine ⟨(t.dropWhile isNameChar).takeWhile Text.isBlank, more, ?_, named,
        List.all_eq_true.mp List.all_takeWhile, List.all_eq_true.mp List.all_takeWhile,
        (Text.byteLength_append _ _).symm⟩
      rw [← opening]
      calc t = t.takeWhile isNameChar ++ t.dropWhile isNameChar :=
            List.takeWhile_append_dropWhile.symm
        _ = _ := congrArg _ List.takeWhile_append_dropWhile.symm
    · cases parsed
  · rintro ⟨gap, more, rfl, named, chars, blanks, place⟩
    have afterName : ∀ c ∈ (gap ++ '{' :: more).head?, isNameChar c = false := by
      cases gap with
      | nil => exact fun c hc => by cases hc; exact isNameChar_brace
      | cons d gap =>
          exact fun c hc => by cases hc; exact isNameChar_of_isBlank (blanks d List.mem_cons_self)
    have afterGap : ∀ c ∈ ('{' :: more).head?, Text.isBlank c = false :=
      fun c hc => by cases hc; rfl
    obtain ⟨name, rest⟩ := takeWhile_dropWhile_append chars afterName
    obtain ⟨between, open₀⟩ := takeWhile_dropWhile_append blanks afterGap
    unfold isNameChar at name rest
    simp only [parse?, name, rest, between, open₀, named, List.head?_cons, beq_self_eq_true,
      Bool.and_self, if_true, ← Text.byteLength_append, ← place]

/-- What follows the opening brace does not matter for the head. -/
theorem parse?_append {a : Text} {h : ElementHead} (ha : parse? a = some h) (b : Text) :
    parse? (a ++ b) = some h := by
  obtain ⟨gap, more, rfl, rest⟩ := parse?_eq_some_iff.mp ha
  refine parse?_eq_some_iff.mpr ⟨gap, more ++ b, ?_, rest⟩
  simp only [List.append_assoc, List.cons_append]

/-- Blanks at the end of the text do not matter for the head. -/
theorem parse?_trimEnd (t : Text) : parse? (Text.trimEnd t) = parse? t := by
  obtain ⟨trail, _, whole⟩ := Text.exists_trimEnd t
  cases trimmed : parse? (Text.trimEnd t) with
  | some h =>
      rw [whole]
      exact (parse?_append trimmed trail).symm
  | none =>
      cases parsed : parse? t with
      | none => rfl
      | some h =>
          obtain ⟨gap, more, rfl, rest⟩ := parse?_eq_some_iff.mp parsed
          have visible : Text.EndsVisible (h.typeName ++ (gap ++ ['{'])) := by
            intro c hc
            rw [← List.append_assoc, List.getLast?_append] at hc
            cases hc
            rfl
          have shorter := Text.trimEnd_append_visible visible more
          simp only [List.append_assoc, List.singleton_append] at shorter
          rw [shorter, parse?_eq_some_iff.mpr ⟨gap, Text.trimEnd more, rfl, rest⟩] at trimmed
          cases trimmed

end QmlPreview.ElementHead
