import QmlPreview.Mask
import QmlPreview.Proofs.Blanks
import QmlPreview.Proofs.Closed

/-! Masked texts: their length, their parts, and the place in the document that an offset in the masked
text stands for. -/

namespace QmlPreview

namespace Lexeme

theorem masked_of_not_comment {x : Lexeme} (h : x.region.isComment = false) :
    x.masked = [x.char] := by
  simp only [masked, h, Bool.false_and, Bool.false_eq_true, if_false]

/-- A lexeme that is masked by more than one character is masked by blanks. -/
theorem masked_cases (x : Lexeme) :
    x.masked = [x.char] ∨ ∀ c ∈ x.masked, Text.isBlank c = true := by
  unfold masked
  split
  · refine .inr ?_
    intro c hc
    rw [List.eq_of_mem_replicate hc]
    rfl
  · exact .inl rfl

theorem mem_masked {x : Lexeme} {c : Char} (h : c ∈ x.masked) : c = ' ' ∨ c = x.char := by
  unfold masked at h
  split at h
  · exact .inl (List.eq_of_mem_replicate h)
  · exact .inr (List.mem_singleton.mp h)

theorem blank_masked {x : Lexeme}
    (h : x.region.isComment = true ∨ Text.isBlank x.char = true) :
    ∀ c ∈ x.masked, Text.isBlank c = true := by
  intro c hc
  cases blank : Text.isBlank c with
  | true => rfl
  | false =>
      rcases mem_masked hc with rfl | rfl
      · cases blank
      · rcases h with comment | blank'
        · unfold masked at hc
          rw [comment, Bool.true_and] at hc
          split at hc
          · rw [List.eq_of_mem_replicate hc] at blank
            cases blank
          · rename_i newline
            simp only [bne_iff_ne, ne_eq, Decidable.not_not] at newline
            rw [newline] at blank
            cases blank
        · cases blank.symm.trans blank'

theorem byteLength_replicate_space (n : Nat) :
    Text.byteLength (List.replicate n ' ') = n := by
  induction n with
  | zero => rfl
  | succ n ih =>
      rw [List.replicate_succ, Text.byteLength_cons, ih, Nat.add_comm]
      rfl

theorem byteLength_masked (x : Lexeme) : Text.byteLength x.masked = x.char.utf8Size := by
  unfold masked
  split
  · exact byteLength_replicate_space _
  · rw [Text.byteLength_cons, Text.byteLength_nil, Nat.add_zero]

theorem masked_ne_nil (x : Lexeme) : x.masked ≠ [] := by
  intro none
  have length := x.byteLength_masked
  rw [none] at length
  exact absurd length.symm (Nat.ne_of_gt x.char.utf8Size_pos)

/-- A visible character of a masked text stands for itself, and lies in no comment. -/
theorem eq_of_mem_masked {x : Lexeme} {c : Char} (h : c ∈ x.masked)
    (visible : Text.isBlank c = false) : x.char = c ∧ x.region.isComment = false := by
  unfold masked at h
  split at h
  · rw [List.eq_of_mem_replicate h] at visible
    cases visible
  · rename_i shown
    have same := List.mem_singleton.mp h
    subst same
    refine ⟨rfl, ?_⟩
    cases comment : x.region.isComment with
    | false => rfl
    | true =>
        simp only [comment, Bool.true_and, bne_iff_ne, ne_eq, Decidable.not_not] at shown
        rw [shown] at visible
        cases visible

theorem comment_or_blank {x : Lexeme} (h : ∀ c ∈ x.masked, Text.isBlank c = true) :
    x.region.isComment = true ∨ Text.isBlank x.char = true := by
  cases comment : x.region.isComment with
  | true => exact .inl rfl
  | false =>
      rw [masked_of_not_comment comment] at h
      exact .inr (h _ List.mem_cons_self)

/-- The text that stands for a sequence of lexemes in a masked text. -/
def maskedText (xs : List Lexeme) : Text := xs.flatMap masked

@[simp] theorem maskedText_nil : maskedText [] = [] := rfl

@[simp] theorem maskedText_cons (x : Lexeme) (xs : List Lexeme) :
    maskedText (x :: xs) = x.masked ++ maskedText xs := rfl

theorem maskedText_newline (r : Region) (xs : List Lexeme) :
    maskedText (⟨'\n', r⟩ :: xs) = '\n' :: maskedText xs := by
  cases r <;> rfl

theorem maskedText_append (xs ys : List Lexeme) :
    maskedText (xs ++ ys) = maskedText xs ++ maskedText ys := List.flatMap_append

theorem byteLength_maskedText (xs : List Lexeme) :
    Text.byteLength (maskedText xs) = Text.byteLength (xs.map (·.char)) := by
  induction xs with
  | nil => rfl
  | cons x xs ih =>
      rw [maskedText_cons, Text.byteLength_append, byteLength_masked, ih]
      rfl

theorem maskedText_of_not_comment {xs : List Lexeme}
    (h : ∀ x ∈ xs, x.region.isComment = false) : maskedText xs = xs.map (·.char) := by
  induction xs with
  | nil => rfl
  | cons x xs ih =>
      rw [List.forall_mem_cons] at h
      rw [maskedText_cons, masked_of_not_comment h.1, ih h.2]
      rfl

theorem map_char_of_visible {xs : List Lexeme}
    (h : ∀ c ∈ maskedText xs, Text.isBlank c = false) : xs.map (·.char) = maskedText xs := by
  refine (maskedText_of_not_comment ?_).symm
  intro x hx
  obtain ⟨c, t, shown⟩ := List.exists_cons_of_ne_nil x.masked_ne_nil
  have member : c ∈ x.masked := by rw [shown]; exact List.mem_cons_self
  exact (eq_of_mem_masked member (h c (List.mem_flatMap.mpr ⟨x, hx, member⟩))).2

theorem exists_cons_of_maskedText {xs : List Lexeme} {c : Char} {t : Text}
    (h : maskedText xs = c :: t) (visible : Text.isBlank c = false) :
    ∃ x rest, xs = x :: rest ∧ x.char = c ∧ x.region.isComment = false := by
  cases xs with
  | nil => cases h
  | cons x rest =>
      refine ⟨x, rest, rfl, eq_of_mem_masked ?_ visible⟩
      rw [maskedText_cons] at h
      cases shown : x.masked with
      | nil => exact absurd shown x.masked_ne_nil
      | cons d u =>
          rw [shown] at h
          cases h
          exact List.mem_cons_self

theorem getLast?_maskedText {xs : List Lexeme} {x : Lexeme} (h : xs.getLast? = some x)
    (shown : x.region.isComment = false) : (maskedText xs).getLast? = some x.char := by
  obtain ⟨front, rfl⟩ := List.getLast?_eq_some_iff.mp h
  rw [maskedText_append, maskedText_cons, maskedText_nil, List.append_nil,
    masked_of_not_comment shown, List.getLast?_append, List.getLast?_singleton, Option.some_or]

/-- A cut of the masked text next to a character that is no blank is a cut of the lexemes, because
only blanks stand for a lexeme together. -/
theorem exists_of_maskedText_eq_append {xs : List Lexeme} {p r : Text}
    (h : maskedText xs = p ++ r) (cut : Text.EndsVisible p ∨ Text.StartsVisible r) :
    ∃ ys zs, xs = ys ++ zs ∧ maskedText ys = p ∧ maskedText zs = r := by
  induction xs generalizing p with
  | nil =>
      obtain ⟨rfl, rfl⟩ := List.append_eq_nil_iff.mp h.symm
      exact ⟨[], [], rfl, rfl, rfl⟩
  | cons x xs ih =>
      rw [maskedText_cons] at h
      rcases List.append_eq_append_iff.mp h with ⟨rest, rfl, later⟩ | ⟨inside, first, rfl⟩
      · have cut' : Text.EndsVisible rest ∨ Text.StartsVisible r := by
          refine cut.imp_left ?_
          intro visible c hc
          refine visible c ?_
          have nonempty : rest ≠ [] := by
            rintro rfl
            cases hc
          rwa [Text.getLast?_append_of_ne_nil _ nonempty]
        obtain ⟨ys, zs, rfl, rfl, zr⟩ := ih later cut'
        exact ⟨x :: ys, zs, rfl, rfl, zr⟩
      · -- The cut falls into the blanks of one lexeme, or next to them.
        rcases List.eq_nil_or_concat p with rfl | ⟨start, last, rfl⟩
        · exact ⟨[], x :: xs, rfl, rfl, by rw [maskedText_cons, first, List.nil_append]⟩
        · cases inside with
          | nil =>
              refine ⟨[x], xs, rfl, ?_, rfl⟩
              rw [maskedText_cons, first, maskedText_nil, List.append_nil, List.append_nil]
          | cons c inside =>
              rcases x.masked_cases with one | blank
              · have length := congrArg List.length (one.symm.trans first)
                simp only [List.concat_eq_append, List.length_append, List.length_cons,
                  List.length_nil] at length
                omega
              · rcases cut with visible | visible
                · have := visible last (by simp)
                  rw [blank last (by rw [first]; simp)] at this
                  cases this
                · have := visible c rfl
                  rw [blank c (by rw [first]; simp)] at this
                  cases this

end Lexeme

namespace Lexer

open Lexeme (maskedText)

theorem maskComments_eq (t : Text) : maskComments t = maskedText (lex t) := rfl

theorem byteLength_maskComments (t : Text) :
    Text.byteLength (maskComments t) = Text.byteLength t := by
  rw [maskComments_eq, Lexeme.byteLength_maskedText, map_char_lex]

theorem Closed.maskComments {t : Text} (h : Closed t) : maskComments t = t := by
  rw [maskComments_eq, Lexeme.maskedText_of_not_comment h.noComment, map_char_lex]

theorem Closed.maskComments_append {a b : Text} (h : Closed a) (apart : Apart a b) :
    QmlPreview.maskComments (a ++ b) = a ++ QmlPreview.maskComments b := by
  rw [maskComments_eq, h.lex_append apart, Lexeme.maskedText_append, ← maskComments_eq,
    h.maskComments, maskComments_eq]

end Lexer

end QmlPreview
