import QmlPreview.Proofs.Masking
import QmlPreview.Proofs.Nesting

/-! Lexing a masked text: what was a comment is blank code there, and all else lies in the region it
lay in. So masking twice is masking once, and the braces of a text are those of its mask. -/

namespace QmlPreview

open Lexer (State lexFrom step stateAfter)

namespace Lexeme

def uncommented (x : Lexeme) : List Lexeme :=
  if x.region.isComment then x.masked.map (⟨·, .code⟩) else [x]

theorem uncommented_of_comment {x : Lexeme} (h : x.region.isComment = true) :
    x.uncommented = x.masked.map (⟨·, .code⟩) := by rw [uncommented, if_pos h]

theorem uncommented_of_shown {x : Lexeme} (h : x.region.isComment = false) :
    x.uncommented = [x] := by
  rw [uncommented, h, if_neg Bool.false_ne_true]

theorem maskedText_uncommented (x : Lexeme) : maskedText x.uncommented = x.masked := by
  cases comment : x.region.isComment with
  | false =>
      rw [uncommented_of_shown comment, maskedText_cons, maskedText_nil, List.append_nil]
  | true =>
      rw [uncommented_of_comment comment, maskedText_of_not_comment, List.map_map]
      · exact List.map_id _
      · intro y hy
        obtain ⟨c, _, rfl⟩ := List.mem_map.mp hy
        rfl

theorem maskedText_flatMap_uncommented (xs : List Lexeme) :
    maskedText (xs.flatMap uncommented) = maskedText xs := by
  induction xs with
  | nil => rfl
  | cons x xs ih =>
      rw [List.flatMap_cons, maskedText_append, maskedText_uncommented, ih, maskedText_cons]

theorem bytes_flatMap_uncommented (xs : List Lexeme) :
    bytes (xs.flatMap uncommented) = bytes xs := by
  rw [bytes, bytes, ← byteLength_maskedText, ← byteLength_maskedText,
    maskedText_flatMap_uncommented]

theorem noBrace_uncommented {x : Lexeme} (h : x.region.isComment = true) :
    ∀ y ∈ x.uncommented, y.isBrace = false := by
  intro y hy
  rw [uncommented_of_comment h] at hy
  obtain ⟨c, hc, rfl⟩ := List.mem_map.mp hy
  apply isBrace_of_not_visible
  rw [isVisible, blank_masked (.inl h) c hc]
  rfl

theorem noBrace_of_comment {x : Lexeme} (h : x.region.isComment = true) : x.isBrace = false := by
  rcases brace_cases x with rfl | rfl | other
  · cases h
  · cases h
  · exact other

theorem balancedFrom_uncommented (d : Nat) (xs : List Lexeme) :
    balancedFrom d (xs.flatMap uncommented) = balancedFrom d xs := by
  induction xs generalizing d with
  | nil => rfl
  | cons x xs ih =>
      rw [List.flatMap_cons]
      cases comment : x.region.isComment with
      | true =>
          have hidden := staysOpen_of_no_brace d (noBrace_uncommented comment)
          have alone : staysOpen d [x] = some d := staysOpen_other d (noBrace_of_comment comment) []
          rw [balancedFrom_append hidden, ih, ← List.singleton_append, balancedFrom_append alone]
      | false =>
          rw [uncommented_of_shown comment, List.singleton_append]
          simp only [balancedFrom, ih]

theorem firstReturn_uncommented (d offset : Nat) (xs : List Lexeme) :
    firstReturn d offset (xs.flatMap uncommented) = firstReturn d offset xs := by
  induction xs generalizing d offset with
  | nil => rfl
  | cons x xs ih =>
      rw [List.flatMap_cons]
      cases comment : x.region.isComment with
      | true =>
          have hidden := staysOpen_of_no_brace d (noBrace_uncommented comment)
          have alone : staysOpen d [x] = some d := staysOpen_other d (noBrace_of_comment comment) []
          have length : bytes x.uncommented = bytes [x] := by
            have := bytes_flatMap_uncommented [x]
            rwa [List.flatMap_singleton] at this
          rw [firstReturn_append hidden, ih, ← List.singleton_append, firstReturn_append alone,
            length]
      | false =>
          rw [uncommented_of_shown comment, List.singleton_append]
          simp only [firstReturn, ih]

end Lexeme

namespace Lexer

open Lexeme (maskedText)

/-- Where the lexer of the masked text is while that of the text is in state `s`. -/
def State.uncommented (s : State) : State := if s.region.isLiteral then s else {}

theorem uncommented_of_outside {s : State} (h : s.region.isLiteral = false) :
    s.uncommented = {} := by
  rw [State.uncommented, h, if_neg Bool.false_ne_true]

/-- What follows a character decides only whether it opens or closes a comment. -/
theorem step_of_shown {s : State} {c : Char} {next : Option Char}
    (shown : (step s c next).1.isComment = false) : step s c next = step s c none := by
  obtain ⟨region, pending⟩ := s
  cases pending with
  | some r => rfl
  | none =>
      cases region with
      | code =>
          simp only [step] at shown ⊢
          split at shown
          · cases shown
          · split at shown
            · cases shown
            · rename_i line block
              simp only [line, block, reduceCtorEq, and_false, if_false]
      | lineComment => rfl
      | blockComment =>
          simp only [step] at shown
          split at shown <;> cases shown
      | literal q => rfl

theorem State.Valid.eq_of_pending {region r : Region} (hs : State.Valid ⟨region, some r⟩)
    (inside : region ≠ .code) : r = region := by
  rcases hs.pending r rfl with ⟨same, _⟩ | ⟨_, code⟩
  · exact same
  · exact absurd code inside

theorem State.Valid.eq_of_pending_code {r : Region} (hs : State.Valid ⟨.code, some r⟩) :
    r = .blockComment := by
  rcases hs.pending r rfl with ⟨same, code⟩ | ⟨comment, _⟩
  · exact absurd same code
  · exact comment

theorem outside_of_hidden {s : State} (hs : s.Valid) {c : Char} {next : Option Char}
    (hidden : (step s c next).1.isComment = true) : s.region.isLiteral = false := by
  obtain ⟨region, pending⟩ := s
  cases region with
  | code => rfl
  | lineComment => rfl
  | blockComment => rfl
  | literal q =>
      cases pending with
      | some r =>
          obtain rfl := hs.eq_of_pending (by rintro ⟨⟩)
          cases hidden
      | none =>
          simp only [step] at hidden
          split at hidden
          · cases hidden
          · split at hidden
            · cases hidden
            · split at hidden <;> cases hidden

/-- A character outside of comments is read alike in the masked text. -/
theorem step_uncommented {s : State} (hs : s.Valid) {c : Char} {next : Option Char}
    (shown : (step s c next).1.isComment = false) :
    step s.uncommented c next = ((step s c next).1, (step s c next).2.uncommented) := by
  obtain ⟨region, pending⟩ := s
  cases region with
  | code =>
      cases pending with
      | some r =>
          obtain rfl := hs.eq_of_pending_code
          cases shown
      | none =>
          have start : (State.mk .code none).uncommented = {} := rfl
          rw [start]
          simp only [step] at shown ⊢
          split at shown
          · cases shown
          · rename_i line
            split at shown
            · cases shown
            · rename_i block
              simp only [line, block, if_false]
              split <;> rfl
  | lineComment =>
      cases pending with
      | some r =>
          obtain rfl := hs.eq_of_pending (by rintro ⟨⟩)
          cases shown
      | none =>
          simp only [step] at shown
          split at shown
          · rename_i newline
            subst newline
            rfl
          · cases shown
  | blockComment =>
      cases pending with
      | some r =>
          obtain rfl := hs.eq_of_pending (by rintro ⟨⟩)
          cases shown
      | none =>
          simp only [step] at shown
          split at shown <;> cases shown
  | literal q =>
      have same : (State.mk (.literal q) pending).uncommented = ⟨.literal q, pending⟩ := rfl
      rw [same]
      cases pending with
      | some r => rfl
      | none =>
          simp only [step]
          split
          · rfl
          · split
            · rfl
            · split <;> rfl

theorem head?_maskedText_lexFrom (s : State) (t : Text) :
    (maskedText (lexFrom s t)).head? = t.head? ∨
      ∀ d ∈ (maskedText (lexFrom s t)).head?, isDelimiter d = false := by
  cases t with
  | nil => exact .inl rfl
  | cons c t =>
      obtain ⟨d, more, shown⟩ :=
        List.exists_cons_of_ne_nil (Lexeme.masked_ne_nil ⟨c, (step s c t.head?).1⟩)
      have member : d ∈ Lexeme.masked ⟨c, (step s c t.head?).1⟩ := by
        rw [shown]
        exact List.mem_cons_self
      rw [lexFrom, Lexeme.maskedText_cons, shown]
      rcases Lexeme.mem_masked member with rfl | rfl
      · refine .inr ?_
        intro e he
        cases he
        rfl
      · exact .inl rfl

theorem lexFrom_maskedText {s : State} (hs : s.Valid) (t : Text) :
    lexFrom s.uncommented (maskedText (lexFrom s t)) =
      (lexFrom s t).flatMap Lexeme.uncommented := by
  induction t generalizing s with
  | nil => rfl
  | cons c t ih =>
      have rest := ih (valid_step hs c t.head?)
      rw [lexFrom, Lexeme.maskedText_cons, List.flatMap_cons, ← rest]
      cases comment : (step s c t.head?).1.isComment with
      | true =>
          -- Blanks stand for the character, and the lexer of the masked text passes them in code.
          have before := uncommented_of_outside (outside_of_hidden hs comment)
          have after : (step s c t.head?).2.uncommented = {} := by
            apply uncommented_of_outside
            apply isLiteral_step hs
            cases region : (step s c t.head?).1 with
            | literal q =>
                rw [region] at comment
                cases comment
            | code => rfl
            | lineComment => rfl
            | blockComment => rfl
          rw [before, after, Lexeme.uncommented_of_comment comment, lexFrom_plain_append]
          intro d hd
          exact isPlain_of_isBlank (Lexeme.blank_masked (.inl comment) d hd)
      | false =>
          -- The masked text may go on with a blank here; only a delimiter would make a difference.
          have read := step_uncommented hs comment
          have alone := step_of_shown (s := s.uncommented) (by rw [read]; exact comment)
          have same : step s.uncommented c (maskedText (lexFrom (step s c t.head?).2 t)).head? =
              step s.uncommented c t.head? := by
            rcases head?_maskedText_lexFrom (step s c t.head?).2 t with next | apart
            · rw [next]
            · rw [alone]
              exact step_before_not_delimiter _ _ apart
          rw [Lexeme.uncommented_of_shown comment, Lexeme.masked_of_not_comment comment,
            List.singleton_append, List.singleton_append, lexFrom, same, read]

theorem uncommented_start : State.uncommented {} = {} := rfl

theorem lex_maskComments (t : Text) : lex (maskComments t) = (lex t).flatMap Lexeme.uncommented := by
  have masked := lexFrom_maskedText valid_start t
  rwa [uncommented_start] at masked

theorem maskComments_maskComments (t : Text) : maskComments (maskComments t) = maskComments t := by
  rw [maskComments_eq (maskComments t), lex_maskComments, Lexeme.maskedText_flatMap_uncommented,
    maskComments_eq]

end Lexer

theorem bracesBalanced_maskComments (t : Text) :
    bracesBalanced (maskComments t) = bracesBalanced t := by
  rw [bracesBalanced, Lexer.lex_maskComments, Lexeme.balancedFrom_uncommented, bracesBalanced]

theorem rootClose_maskComments (t : Text) : rootClose (maskComments t) = rootClose t := by
  rw [rootClose, Lexer.lex_maskComments, Lexeme.firstReturn_uncommented, rootClose]

end QmlPreview
