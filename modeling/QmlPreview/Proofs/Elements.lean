import QmlPreview.Document.Parts
import QmlPreview.Proofs.ElementHeads
import QmlPreview.Proofs.Masking
import QmlPreview.Proofs.Nesting

/-! Texts that are one element. The lexer meets both braces of such a text in code, so it lexes the
name, the gap and the body one after the other. -/

namespace QmlPreview

/-- An element cut at its braces. -/
structure Element where
  /-- The type name as written, with its qualifier. -/
  typeName : Text
  /-- What stands between the type name and the opening brace. -/
  gap : Text
  body : Text

namespace Element

open Lexer (Apart stateAfter isPlain)

def text (e : Element) : Text := e.typeName ++ (e.gap ++ '{' :: (e.body ++ ['}']))

theorem text_eq_append (e : Element) :
    e.text = (e.typeName ++ e.gap ++ '{' :: e.body) ++ ['}'] := by
  simp only [text, List.append_assoc, List.cons_append]

theorem endsVisible_text (e : Element) : Text.EndsVisible e.text := by
  intro c hc
  rw [text_eq_append, List.getLast?_append] at hc
  cases hc
  rfl

def brace (e : Element) : Nat := Text.byteLength (e.typeName ++ e.gap)

/-- Only blanks and comments stand in the gap, both braces are code, and no brace between them closes
the element. -/
structure Sound (e : Element) : Prop where
  isTypeName : ElementHead.isTypeName e.typeName = true
  nameChars : ∀ c ∈ e.typeName, ElementHead.isNameChar c = true
  gapBlank : ∀ c ∈ maskComments e.gap, Text.isBlank c = true
  gapEnds : stateAfter {} e.gap = {}
  bodyOpen : Lexeme.staysOpen 1 (lex e.body) = some 1
  bodyEnds : stateAfter {} e.body = {}

theorem isIdle_of_isNameChar {c : Char} (h : ElementHead.isNameChar c = true) :
    Lexer.isIdle c = true := by
  simp only [Lexer.isIdle, isPlain, Lexer.isQuote, Bool.and_eq_true, bne_iff_ne, Bool.not_eq_true',
    Bool.or_eq_false_iff, beq_eq_false_iff_ne]
  refine ⟨⟨⟨?_, ⟨?_, ?_⟩, ?_⟩, ?_⟩, ?_⟩ <;> rintro rfl <;> exact absurd h (by decide)

theorem isPlain_of_isNameChar {c : Char} (h : ElementHead.isNameChar c = true) :
    isPlain c = true := Lexer.isPlain_of_isIdle (isIdle_of_isNameChar h)

theorem isDelimiter_of_isNameChar {c : Char} (h : ElementHead.isNameChar c = true) :
    Lexer.isDelimiter c = false := by
  simp only [Lexer.isDelimiter, Bool.or_eq_false_iff, beq_eq_false_iff_ne]
  refine ⟨?_, ?_⟩ <;> rintro rfl <;> exact absurd h (by decide)

theorem apart_name {name : Text} (h : ∀ c ∈ name, ElementHead.isNameChar c = true) (t : Text) :
    Apart name t :=
  .inl fun c hc => isDelimiter_of_isNameChar (h c (List.mem_of_getLast? hc))

theorem apart_open (t u : Text) : Apart t ('{' :: u) := .inr fun c hc => by cases hc; rfl

theorem apart_close (t u : Text) : Apart t ('}' :: u) := .inr fun c hc => by cases hc; rfl

theorem noBrace_name {name : Text} (h : ∀ c ∈ name, ElementHead.isNameChar c = true) :
    ∀ x ∈ lex name, x.isBrace = false := by
  intro x hx
  have member : x.char ∈ (lex name).map (·.char) := List.mem_map_of_mem hx
  rw [Lexer.map_char_lex] at member
  rcases Lexeme.brace_cases x with rfl | rfl | other
  · exact absurd (h _ member) (by decide)
  · exact absurd (h _ member) (by decide)
  · exact other

theorem noBrace_gap {gap : Text} (h : ∀ c ∈ maskComments gap, Text.isBlank c = true) :
    ∀ x ∈ lex gap, x.isBrace = false := by
  intro x hx
  have shown : ∀ c ∈ x.masked, c ∈ maskComments gap :=
    fun c hc => List.mem_flatMap.mpr ⟨x, hx, hc⟩
  rcases Lexeme.brace_cases x with rfl | rfl | other
  · exact absurd (h _ (shown _ List.mem_cons_self)) (by decide)
  · exact absurd (h _ (shown _ List.mem_cons_self)) (by decide)
  · exact other

section
variable {e : Element} (h : e.Sound)
include h

theorem Sound.stateAfter_name : stateAfter {} e.typeName = {} :=
  Lexer.stateAfter_plain fun c hc => isPlain_of_isNameChar (h.nameChars c hc)

theorem Sound.lex_text : lex e.text =
    lex e.typeName ++ (lex e.gap ++ ⟨'{', .code⟩ :: (lex e.body ++ [⟨'}', .code⟩])) := by
  have opened (t : Text) : Lexer.lexFrom {} ('{' :: t) = ⟨'{', .code⟩ :: lex t := rfl
  have closed : Lexer.lexFrom {} ['}'] = [⟨'}', .code⟩] := rfl
  rw [text, Lexer.lex_append (apart_name h.nameChars _), h.stateAfter_name,
    Lexer.lexFrom_append {} (apart_open _ _), h.gapEnds, opened, lex.eq_1 (e.body ++ ['}']),
    Lexer.lexFrom_append {} (apart_close _ _), h.bodyEnds, closed, lex, lex, lex]

theorem Sound.stateAfter_text : stateAfter {} e.text = {} := by
  have opened (t : Text) : stateAfter {} ('{' :: t) = stateAfter {} t := rfl
  rw [text, Lexer.stateAfter_append {} (apart_name h.nameChars _), h.stateAfter_name,
    Lexer.stateAfter_append {} (apart_open _ _), h.gapEnds, opened,
    Lexer.stateAfter_append {} (apart_close _ _), h.bodyEnds]
  rfl

theorem Sound.lex_text_newline : lex (e.text ++ ['\n']) = lex e.text ++ [⟨'\n', .code⟩] := by
  rw [Lexer.lex_append (.inr (by decide)), h.stateAfter_text]
  rfl

theorem Sound.noBrace_lead : ∀ x ∈ lex e.typeName ++ lex e.gap, x.isBrace = false := by
  intro x hx
  rcases List.mem_append.mp hx with inName | inGap
  · exact noBrace_name h.nameChars x inName
  · exact noBrace_gap h.gapBlank x inGap

theorem Sound.isElement : Lexeme.IsElement (lex e.text) := by
  refine ⟨lex e.typeName ++ lex e.gap ++ ⟨'{', .code⟩ :: lex e.body, ?_, ?_⟩
  · rw [h.lex_text]
    simp only [List.append_assoc, List.cons_append]
  · rw [Lexeme.staysOpen_append_of_eq (Lexeme.staysOpen_of_no_brace 0 h.noBrace_lead),
      Lexeme.staysOpen_open]
    exact h.bodyOpen

theorem Sound.maskComments_text : maskComments e.text =
    e.typeName ++ (maskComments e.gap ++ '{' :: (maskComments e.body ++ ['}'])) := by
  have name : maskComments e.typeName = e.typeName :=
    (Lexer.closed_of_plain fun c hc => isPlain_of_isNameChar (h.nameChars c hc)).maskComments
  rw [Lexer.maskComments_eq, h.lex_text]
  simp only [Lexeme.maskedText_append, Lexeme.maskedText_cons, ← Lexer.maskComments_eq, name]
  rfl

/-- The masked element starts with its head. -/
theorem Sound.parse?_maskComments :
    ElementHead.parse? (maskComments e.text) = some ⟨e.typeName, e.brace⟩ := by
  refine ElementHead.parse?_eq_some_iff.mpr ⟨maskComments e.gap, maskComments e.body ++ ['}'],
    h.maskComments_text, h.isTypeName, h.nameChars, h.gapBlank, ?_⟩
  rw [brace, Text.byteLength_append, Text.byteLength_append, Lexer.byteLength_maskComments]

end

end Element

end QmlPreview
