import QmlPreview.Document.Facts
import QmlPreview.Proofs.Decomposition

/-! A printed document: the statements of a header, one a line, an empty line and an element. Scanning
it finds those statements and the head of the element, and it can be taken apart into the two. -/

namespace QmlPreview

open Lexer (Closed)

namespace ElementHead

theorem startsVisible_of_parse? {t : Text} {h : ElementHead} (parsed : parse? t = some h) :
    Text.StartsVisible t := by
  obtain ⟨gap, more, rfl, named, nameChars, _⟩ := parse?_eq_some_iff.mp parsed
  cases name : h.typeName with
  | nil =>
      rw [name] at named
      exact absurd named (by decide)
  | cons c t =>
      rw [name] at nameChars
      intro d hd
      cases hd
      exact isBlank_of_isNameChar (nameChars c List.mem_cons_self)

theorem isNameChar_spelling (k : Keyword) : ∀ c ∈ k.spelling, isNameChar c = true := by
  cases k <;> decide

/-- A head starts no statement, unless its type is named as a keyword. -/
theorem ofText?_of_parse? {t : Text} {h : ElementHead} (parsed : parse? t = some h)
    (other : ∀ k : Keyword, h.typeName ≠ k.spelling) : Keyword.ofText? t = none := by
  cases found : Keyword.ofText? t with
  | none => rfl
  | some k =>
      obtain ⟨rest, spelled, blank⟩ :=
        Keyword.startsText_iff.mp (Keyword.ofText?_eq_some_iff.mp found)
      obtain ⟨gap, more, named, _, nameChars, blanks, _⟩ := parse?_eq_some_iff.mp parsed
      have afterKeyword : ∀ c ∈ rest.head?, isNameChar c = false := by
        intro c hc
        rw [Option.mem_def.mp hc] at blank
        exact isNameChar_of_isBlank blank
      have afterName : ∀ c ∈ (gap ++ '{' :: more).head?, isNameChar c = false := by
        cases gap with
        | nil => exact fun c hc => by cases hc; exact isNameChar_brace
        | cons d gap =>
            exact fun c hc => by cases hc; exact isNameChar_of_isBlank (blanks d List.mem_cons_self)
      have keyword := (takeWhile_dropWhile_append (isNameChar_spelling k) afterKeyword).1
      have name := (takeWhile_dropWhile_append nameChars afterName).1
      rw [← spelled] at keyword
      rw [← named] at name
      exact absurd (name.symm.trans keyword) (other k)

end ElementHead

/-- The statements of a header, an empty line, and what follows them. -/
def printed (ss : List Statement) (t : Text) : Text := Statement.lines ss ++ '\n' :: t

section
variable {ss : List Statement} (wellFormed : ∀ s ∈ ss, s.WellFormed)

theorem byteLength_printed (t : Text) :
    Text.byteLength (printed ss t) = Text.byteLength (printed ss []) + Text.byteLength t := by
  have unit : ('\n' : Char).utf8Size = 1 := rfl
  simp only [printed, Text.byteLength_append, Text.byteLength_cons, Text.byteLength_nil, unit]
  omega

theorem printed_eq_append (t : Text) : printed ss t = printed ss [] ++ t := by
  simp only [printed, List.append_assoc, List.cons_append, List.nil_append]

theorem dropBytes_printed (t : Text) :
    Text.dropBytes (Text.byteLength (printed ss [])) (printed ss t) = t := by
  rw [printed_eq_append t, Text.dropBytes_append]

theorem closed_printed (closed : Closed (Statement.lines ss)) : Closed (printed ss []) :=
  closed.append (Lexer.closed_of_plain (by decide)) (.inr (by decide))

/-- Closed statements do not reach into what follows them. -/
theorem lex_printed (closed : Closed (Statement.lines ss)) (t : Text) :
    lex (printed ss t) = lex (printed ss []) ++ lex t := by
  rw [printed_eq_append t, (closed_printed closed).lex_append (Lexer.apart_newline _ _)]

theorem stateAfter_printed (closed : Closed (Statement.lines ss)) (t : Text) :
    Lexer.stateAfter {} (printed ss t) = Lexer.stateAfter {} t := by
  rw [printed_eq_append t, (closed_printed closed).stateAfter_append (Lexer.apart_newline _ _)]

theorem maskComments_printed (closed : Closed (Statement.lines ss)) (t : Text) :
    maskComments (printed ss t) = printed ss (maskComments t) := by
  have newline (u : Text) : maskComments ('\n' :: u) = '\n' :: maskComments u := rfl
  rw [printed, closed.maskComments_append (.inr fun c hc => by cases hc; rfl), newline, printed]

include wellFormed

theorem readAll_printed {t : Text} (visible : Text.StartsVisible t)
    (none : Keyword.ofText? t = none) : Statement.readAll (printed ss t) = (ss, t) := by
  have newline : ∀ c ∈ ['\n'], Text.isBlank c = true := by decide
  have trimmed : Text.trimStart ('\n' :: t) = t :=
    (Text.trimStart_append newline t).trans (Text.trimStart_eq_self visible)
  have rest : Statement.readAll ('\n' :: t) = ([], t) := by
    rw [Statement.readAll_of_none (by rwa [trimmed]), trimmed]
  rw [printed, Statement.readAll_lines wellFormed, rest, List.append_nil]

theorem ofMasked_printed {t : Text} (visible : Text.StartsVisible t)
    (none : Keyword.ofText? t = none) : Header.ofMasked (printed ss t) =
      Header.ofStatements ss (Text.byteLength (printed ss [])) := by
  have length : Text.byteLength (printed ss t) =
      Text.byteLength (printed ss []) + Text.byteLength t := byteLength_printed t
  rw [Header.ofMasked, readAll_printed wellFormed visible none]
  exact congrArg (Header.ofStatements ss) (by omega)

variable (closed : Closed (Statement.lines ss))
include closed

/-- Scanning a printed document finds its statements and the head of its element. -/
theorem scan_printed {t : Text} {head : ElementHead}
    (parsed : ElementHead.parse? (maskComments t) = some head)
    (other : ∀ k : Keyword, head.typeName ≠ k.spelling) :
    Header.ofMasked (maskComments (printed ss t)) =
        Header.ofStatements ss (Text.byteLength (printed ss [])) ∧
      scan (printed ss t) = Facts.ofParts
        (Header.ofStatements ss (Text.byteLength (printed ss []))).imports (some head.typeName) := by
  have header := ofMasked_printed wellFormed (ElementHead.startsVisible_of_parse? parsed)
    (ElementHead.ofText?_of_parse? parsed other)
  rw [scan, maskComments_printed closed, header]
  refine ⟨rfl, ?_⟩
  simp only [show (Header.ofStatements ss (Text.byteLength (printed ss []))).contentStart =
    Text.byteLength (printed ss []) from rfl, dropBytes_printed, parsed, Option.map_some]

/-- A printed document that ends after its element can be taken apart again. -/
theorem decompose_printed {e : Element} (sound : e.Sound)
    (other : ∀ k : Keyword, e.typeName ≠ k.spelling) :
    decompose (printed ss (e.text ++ ['\n'])) = .ok
      { Header.ofStatements ss (Text.byteLength (printed ss [])) with
        content := e.text, rootType := e.typeName, rootOpen := e.brace } := by
  have masked : maskComments (e.text ++ ['\n']) = maskComments e.text ++ ['\n'] := by
    rw [Lexer.maskComments_eq, sound.lex_text_newline, Lexeme.maskedText_append]
    rfl
  have parsed : ElementHead.parse? (maskComments (e.text ++ ['\n'])) =
      some ⟨e.typeName, e.brace⟩ := by
    rw [masked]
    exact ElementHead.parse?_append sound.parse?_maskComments ['\n']
  have header := ofMasked_printed wellFormed (ElementHead.startsVisible_of_parse? parsed)
    (ElementHead.ofText?_of_parse? parsed other)
  have visible : Text.EndsVisible (maskComments e.text) := by
    intro c hc
    rw [sound.maskComments_text, ← List.cons_append, ← List.append_assoc, ← List.append_assoc,
      List.getLast?_append] at hc
    cases hc
    rfl
  have trimmed : Text.trimEnd (maskComments (e.text ++ ['\n'])) = maskComments e.text := by
    rw [masked]
    exact Text.trimEnd_append visible (by decide)
  have start : (Header.ofStatements ss (Text.byteLength (printed ss []))).contentStart =
      Text.byteLength (printed ss []) := rfl
  have content : maskedContent (printed ss (e.text ++ ['\n'])) = maskComments e.text := by
    rw [maskedContent, maskComments_printed closed, header, start, dropBytes_printed, trimmed]
  have raw : rawContent (printed ss (e.text ++ ['\n'])) = e.text := by
    rw [rawContent, content, maskComments_printed closed, header, start, Text.slice,
      Nat.add_sub_cancel_left, dropBytes_printed, Lexer.byteLength_maskComments,
      Text.takeBytes_append]
  refine decompose_eq_ok_iff.mpr ⟨⟨e.typeName, e.brace⟩, ?_, ?_, ?_⟩
  · rw [content]
    exact sound.parse?_maskComments
  · rw [raw]
    exact braceFault_of_isElement sound.isElement
  · rw [partsWith, raw, maskComments_printed closed, header]

end

end QmlPreview
