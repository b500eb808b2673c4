import QmlPreview.Proofs.Elements

/-! Lexing a text twice, once after a header and once on its own. The header may leave the first of
the two lexers inside a literal, so the two need not agree; up to the first character that can open or
close something they mask the same comments. -/

namespace QmlPreview

namespace Lexer

open Lexeme (maskedText)

/-- The character neither opens nor closes anything, and escapes nothing. -/
def isMute (c : Char) : Bool := isPlain c && c != '\\'

theorem isMute_of_isNameChar {c : Char} (h : ElementHead.isNameChar c = true) :
    isMute c = true := by
  simp only [isMute, Bool.and_eq_true, bne_iff_ne]
  refine ⟨Element.isPlain_of_isNameChar h, ?_⟩
  rintro rfl
  exact absurd h (by decide)

theorem isMute_of_isBlank {c : Char} (h : Text.isBlank c = true) : isMute c = true := by
  simp only [isMute, Bool.and_eq_true, bne_iff_ne]
  refine ⟨isPlain_of_isBlank h, ?_⟩
  rintro rfl
  exact absurd h (by decide)

/-- The second lexer is where the first one is, unless that is inside a literal: then the second one
has not seen the literal open. -/
def Shadows (s k : State) : Prop :=
  (s = k ∧ s.region.isLiteral = false) ∨
    ∃ q, isQuote q = true ∧ s = ⟨.literal q, none⟩ ∧ k = {}

theorem Shadows.step {s k : State} (h : Shadows s k) {c : Char} {next : Option Char}
    (mute : (step s c next).1.isComment = true ∨ isMute c = true) :
    Shadows (step s c next).2 (step k c next).2 ∧
      (step k c next).1.isComment = (step s c next).1.isComment := by
  rcases h with ⟨rfl, outside⟩ | ⟨q, quote, rfl, rfl⟩
  · refine ⟨.inl ⟨rfl, ?_⟩, rfl⟩
    obtain ⟨region, pending⟩ := s
    cases pending with
    | some r => exact outside
    | none =>
        cases region with
        | code =>
            revert mute
            simp only [Lexer.step]
            split
            · exact fun _ => rfl
            · split
              · exact fun _ => rfl
              · split
                · rename_i opens
                  intro mute
                  simp only [Region.isComment, Bool.false_eq_true, false_or, isMute, isPlain, opens,
                    Bool.not_true, Bool.and_false, Bool.false_and] at mute
                · exact fun _ => rfl
        | lineComment =>
            simp only [Lexer.step]
            split <;> rfl
        | blockComment =>
            simp only [Lexer.step]
            split <;> rfl
        | literal q => cases outside
  · have plain : isMute c = true := by
      rcases mute with comment | mute
      · revert comment
        simp only [Lexer.step]
        split
        · intro comment
          cases comment
        · split
          · intro comment
            cases comment
          · split <;> intro comment <;> cases comment
      · exact mute
    simp only [isMute, Bool.and_eq_true, bne_iff_ne] at plain
    have notQuote : c ≠ q := by
      rintro rfl
      simp only [isPlain, quote, Bool.not_true, Bool.and_false, Bool.false_eq_true,
        false_and] at plain
    rw [step_plain plain.1]
    simp only [Lexer.step, plain.2, notQuote, if_false]
    split
    · exact ⟨.inl ⟨rfl, rfl⟩, rfl⟩
    · exact ⟨.inr ⟨q, quote, rfl, rfl⟩, rfl⟩

/-- Both lexers mask the same comments as long as nothing opens or closes a literal. -/
theorem Shadows.run {s k : State} (h : Shadows s k) {t : Text}
    (mute : ∀ x ∈ lexFrom s t, x.region.isComment = true ∨ isMute x.char = true) :
    Shadows (stateAfter s t) (stateAfter k t) ∧
      maskedText (lexFrom k t) = maskedText (lexFrom s t) := by
  induction t generalizing s k with
  | nil => exact ⟨h, rfl⟩
  | cons c t ih =>
      simp only [lexFrom, List.forall_mem_cons] at mute
      obtain ⟨related, same⟩ := h.step mute.1
      obtain ⟨after, later⟩ := ih related mute.2
      refine ⟨after, ?_⟩
      simp only [lexFrom, Lexeme.maskedText_cons, later, Lexeme.masked, same]

/-- A lexer that is not inside a comment is in code or in a literal. -/
theorem region_of_visible {s : State} (hs : s.Valid) (none : s.pending = none) {c : Char}
    (visible : Text.isBlank c = false) {next : Option Char}
    (h : (step s c next).1.isComment = false) :
    s = {} ∨ ∃ q, isQuote q = true ∧ s = ⟨.literal q, .none⟩ := by
  obtain ⟨region, pending⟩ := s
  cases none
  cases region with
  | code => exact .inl rfl
  | lineComment =>
      have notNewline : c ≠ '\n' := by
        rintro rfl
        cases visible
      simp only [step, notNewline, if_false] at h
      cases h
  | blockComment =>
      simp only [step] at h
      split at h <;> cases h
  | literal q => exact .inr ⟨q, hs.isQuote q rfl, rfl⟩

theorem Shadows.eq_start {s : State} {t : Text} (h : Shadows s (stateAfter {} t)) {c : Char}
    (visible : Text.isBlank c = false) {next : Option Char}
    (shown : (Lexer.step s c next).1.isComment = false) : stateAfter {} t = {} := by
  rcases h with ⟨rfl, outside⟩ | ⟨q, _, _, start⟩
  · rcases pending_stateAfter (s := {}) rfl t with none | ⟨q, escape⟩
    · rcases region_of_visible (valid_stateAfter valid_start t) none visible shown with
        code | ⟨q, _, inside⟩
      · exact code
      · rw [inside] at outside
        cases outside
    · rw [escape] at outside
      cases outside
  · exact start

/-- What a step leaves pending is the other half of a comment delimiter, or escaped. -/
theorem pending_step {s : State} {c : Char} {next : Option Char} {r : Region}
    (h : (step s c next).2.pending = some r) :
    r.isComment = true ∨ c = '\\' ∧ (step s c next).1.isComment = false := by
  obtain ⟨region, pending⟩ := s
  cases pending with
  | some _ => cases h
  | none =>
      cases region with
      | code =>
          simp only [step] at h
          split at h
          · cases h
            exact .inl rfl
          · split at h
            · cases h
              exact .inl rfl
            · split at h <;> cases h
      | lineComment =>
          simp only [step] at h
          split at h <;> cases h
      | blockComment =>
          simp only [step] at h
          split at h
          · cases h
            exact .inl rfl
          · cases h
      | literal q =>
          simp only [step] at h ⊢
          split at h
          · rename_i escape
            simp only [escape, if_true]
            exact .inr ⟨trivial, rfl⟩
          · split at h
            · cases h
            · split at h <;> cases h

end Lexer

end QmlPreview
