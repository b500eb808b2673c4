import QmlPreview.Proofs.Headers
import QmlPreview.Proofs.Shadows

/-! Taking a text apart finds one sound element, which the lexer meets in code or inside a literal that
the header leaves open. -/

namespace QmlPreview

open Lexer (stateAfter lexFrom Shadows)
open Lexeme (maskedText)

namespace Header

theorem contentStart_ofMasked {masked header : Text}
    (h : masked = header ++ (Statement.readAll masked).2) :
    (ofMasked masked).contentStart = Text.byteLength header := by
  have length := congrArg Text.byteLength h
  rw [Text.byteLength_append] at length
  simp only [ofMasked, ofStatements]
  omega

end Header

/-- What follows the header of a masked text is what is left after its statements. -/
theorem dropBytes_contentStart (masked : Text) :
    Text.dropBytes (Header.ofMasked masked).contentStart masked = (Statement.readAll masked).2 := by
  obtain ⟨header, split, _⟩ := Statement.exists_readAll masked
  rw [Header.contentStart_ofMasked split]
  exact (congrArg (Text.dropBytes _) split).trans (Text.dropBytes_append _ _)

theorem decompose_of_toOption {t : Text} {parts : Parts}
    (h : (decompose t).toOption = some parts) : decompose t = .ok parts := by
  cases taken : decompose t with
  | error m =>
      rw [taken] at h
      cases h
  | ok found =>
      rw [taken] at h
      cases h
      rfl

/-- What follows the header of the masked text, without the blanks at its end. -/
def maskedContent (t : Text) : Text :=
  Text.trimEnd (Text.dropBytes (Header.ofMasked (maskComments t)).contentStart (maskComments t))

def rawContent (t : Text) : Text :=
  Text.slice (Header.ofMasked (maskComments t)).contentStart
    ((Header.ofMasked (maskComments t)).contentStart + Text.byteLength (maskedContent t)) t

def braceFault (content : Text) : Option Malformation :=
  if bracesBalanced content then
    if (rootClose content).any (fun close => close + 1 < Text.byteLength content) then
      some .textAfterRoot
    else none
  else some .unbalancedBraces

theorem braceFault_of_isElement {content : Text} (element : Lexeme.IsElement (lex content)) :
    braceFault content = none := by
  obtain ⟨close, found, last⟩ := element.firstReturn
  rw [Lexeme.bytes_lex] at last
  have notBefore : ¬ close + 1 < Text.byteLength content := by omega
  simp only [braceFault, bracesBalanced, element.balanced, rootClose, found, Option.any_some,
    notBefore, decide_false, if_true, Bool.false_eq_true, if_false]

def partsWith (t : Text) (h : ElementHead) : Parts :=
  { Header.ofMasked (maskComments t) with
    content := rawContent t, rootType := h.typeName, rootOpen := h.brace }

theorem decompose_of_no_head {t : Text} (none : ElementHead.parse? (maskedContent t) = none) :
    decompose t = .error (if (maskedContent t).isEmpty then .noContent else .notAnElement) := by
  rw [maskedContent] at none ⊢
  simp only [decompose, none]
  split <;> rfl

theorem decompose_of_head {t : Text} {h : ElementHead}
    (parsed : ElementHead.parse? (maskedContent t) = some h) :
    decompose t = (braceFault (rawContent t)).elim (.ok (partsWith t h)) .error := by
  have nonempty : (maskedContent t).isEmpty = false := by
    cases content : maskedContent t with
    | nil =>
        rw [content] at parsed
        cases parsed
    | cons c rest => rfl
  have content : Text.slice (Header.ofMasked (maskComments t)).contentStart
      ((Header.ofMasked (maskComments t)).contentStart + Text.byteLength (maskedContent t)) t =
        rawContent t := rfl
  rw [maskedContent] at nonempty parsed content
  simp only [decompose, nonempty, parsed, content, Bool.false_eq_true, if_false]
  unfold braceFault
  cases bracesBalanced (rawContent t) with
  | false => rfl
  | true =>
      simp only [Bool.not_true, Bool.false_eq_true, if_false, if_true]
      split <;> rfl

theorem decompose_eq_error_iff_of_head {t : Text} {h : ElementHead}
    (parsed : ElementHead.parse? (maskedContent t) = some h) {m : Malformation} :
    decompose t = .error m ↔ braceFault (rawContent t) = some m := by
  rw [decompose_of_head parsed]
  cases braceFault (rawContent t) with
  | none => exact ⟨nofun, nofun⟩
  | some found => rw [Option.elim_some, Except.error.injEq, Option.some.injEq]

theorem decompose_eq_ok_iff {t : Text} {parts : Parts} : decompose t = .ok parts ↔
    ∃ h, ElementHead.parse? (maskedContent t) = some h ∧ braceFault (rawContent t) = none ∧
      parts = partsWith t h := by
  cases parsed : ElementHead.parse? (maskedContent t) with
  | none =>
      rw [decompose_of_no_head parsed]
      constructor
      · exact nofun
      · rintro ⟨_, none, _⟩
        cases none
  | some h =>
      rw [decompose_of_head parsed]
      cases fault : braceFault (rawContent t) with
      | some m =>
          constructor
          · exact nofun
          · rintro ⟨_, _, none, _⟩
            cases none
      | none =>
          constructor
          · intro taken
            cases taken
            exact ⟨h, rfl, rfl, rfl⟩
          · rintro ⟨_, same, _, rfl⟩
            cases same
            rfl

/-- The lexemes of a document, cut where its content starts and where it ends. -/
structure Sections (t : Text) (header content tail : List Lexeme) : Prop where
  lexed : lex t = header ++ (content ++ tail)
  start : Lexeme.bytes header = (Header.ofMasked (maskComments t)).contentStart
  ends : content ≠ [] →
    ∀ c ∈ (maskedText header).getLast?, Statement.isEnd c = true ∨ Text.isBlank c = true
  masked : maskedText content = maskedContent t
  raw : content.map (·.char) = rawContent t
  blankTail : ∀ c ∈ maskedText tail, Text.isBlank c = true

theorem exists_sections (t : Text) : ∃ header content tail, Sections t header content tail := by
  obtain ⟨header, split, visible, _, ends⟩ := Statement.exists_readAll (maskComments t)
  obtain ⟨trail, blank, trimmed⟩ := Text.exists_trimEnd (Statement.readAll (maskComments t)).2
  have start := Header.contentStart_ofMasked split
  have content : maskedContent t = Text.trimEnd (Statement.readAll (maskComments t)).2 := by
    rw [maskedContent, dropBytes_contentStart]
  have masked : maskedText (lex t) = header ++ (Statement.readAll (maskComments t)).2 := split
  obtain ⟨hs, later, lexed, before, after⟩ :=
    Lexeme.exists_of_maskedText_eq_append masked (.inr visible)
  obtain ⟨cs, ts, rfl, middle, last⟩ := Lexeme.exists_of_maskedText_eq_append
    (after.trans trimmed) (.inl (Text.endsVisible_trimEnd _))
  have offset : Text.byteLength (hs.map (·.char)) = Text.byteLength header := by
    rw [← Lexeme.byteLength_maskedText, before]
  refine ⟨hs, cs, ts, lexed, by rw [Lexeme.bytes, offset, start], ?_, by rw [middle, content], ?_,
    by rwa [last]⟩
  · intro nonempty
    rw [before]
    apply ends
    intro none
    rw [none] at middle
    obtain ⟨x, cs, rfl⟩ := List.exists_cons_of_ne_nil nonempty
    exact x.masked_ne_nil (List.append_eq_nil_iff.mp middle).1
  · have chars : t = hs.map (·.char) ++ (cs.map (·.char) ++ ts.map (·.char)) := by
      rw [← Lexer.map_char_lex t, lexed, List.map_append, List.map_append]
    have length : Text.byteLength (maskedContent t) = Text.byteLength (cs.map (·.char)) := by
      rw [content, ← middle, Lexeme.byteLength_maskedText]
    have cut : Text.takeBytes (Text.byteLength (cs.map (·.char)))
        (Text.dropBytes (Text.byteLength (hs.map (·.char))) t) = cs.map (·.char) := by
      rw [chars, Text.dropBytes_append, Text.takeBytes_append]
    rw [rawContent, start, ← offset, length, Text.slice, Nat.add_sub_cancel_left, cut]

/-- A header that ends in a blank or in the end of a statement leaves no escape pending. -/
theorem isComment_of_pending {header : List Lexeme}
    (ends : ∀ c ∈ (maskedText header).getLast?, Statement.isEnd c = true ∨ Text.isBlank c = true)
    {s : Lexer.State} (atStart : header = [] → s = {})
    (step : ∀ y ∈ header.getLast?, ∃ s₀ next, Lexer.step s₀ y.char next = (y.region, s))
    {r : Region} (pending : s.pending = some r) : r.isComment = true := by
  cases last : header.getLast? with
  | none =>
      rw [atStart (List.getLast?_eq_none_iff.mp last)] at pending
      cases pending
  | some y =>
      obtain ⟨s₀, next, step⟩ := step y last
      have moved : (Lexer.step s₀ y.char next).2 = s := congrArg Prod.snd step
      rw [← moved] at pending
      rcases Lexer.pending_step pending with comment | ⟨escape, shown⟩
      · exact comment
      · rw [step] at shown
        have ends := ends y.char (Lexeme.getLast?_maskedText last shown)
        rw [escape] at ends
        exact absurd ends (by decide)

section
variable {t : Text} {header content tail : List Lexeme} (cut : Sections t header content tail)
include cut

variable {h : ElementHead} (parsed : ElementHead.parse? (maskedText content) = some h)
include parsed

theorem Sections.exists_first : ∃ x rest, content = x :: rest ∧ x.region.isComment = false ∧
    ElementHead.isNameChar x.char = true := by
  obtain ⟨gap, more, masked, named, nameChars, _⟩ := ElementHead.parse?_eq_some_iff.mp parsed
  cases name : h.typeName with
  | nil =>
      rw [name] at named
      exact absurd named (by decide)
  | cons c t =>
      rw [name] at nameChars masked
      have first := nameChars c List.mem_cons_self
      obtain ⟨x, rest, rfl, char, shown⟩ :=
        Lexeme.exists_cons_of_maskedText masked (ElementHead.isBlank_of_isNameChar first)
      exact ⟨x, rest, rfl, shown, by rwa [char]⟩

/-- The lexer that reads a document meets its content in code or inside a literal. -/
theorem Sections.exists_state : ∃ s : Lexer.State, s.Valid ∧ Shadows s {} ∧
    content ++ tail = lexFrom s ((content ++ tail).map (·.char)) := by
  obtain ⟨s, valid, lexed, atStart, step⟩ :=
    Lexer.exists_lexFrom_of_append Lexer.valid_start cut.lexed
  refine ⟨s, valid, ?_, lexed⟩
  obtain ⟨x, rest, rfl, shown, nameChar⟩ := cut.exists_first parsed
  simp only [List.cons_append, List.map_cons, lexFrom, List.cons.injEq] at lexed
  rw [congrArg Lexeme.region lexed.1] at shown
  have none : s.pending = none := by
    cases pending : s.pending with
    | none => rfl
    | some r =>
        have ends := cut.ends (List.cons_ne_nil x rest)
        have comment := isComment_of_pending ends atStart step pending
        simp only [Lexer.step, pending, comment] at shown
        cases shown
  have visible := ElementHead.isBlank_of_isNameChar nameChar
  rcases Lexer.region_of_visible valid none visible shown with rfl | ⟨q, quote, rfl⟩
  · exact .inl ⟨rfl, rfl⟩
  · exact .inr ⟨q, quote, rfl, rfl⟩

end

/-- The lexemes of a content cut around the opening brace of its element. -/
structure HeadCut (content : List Lexeme) (h : ElementHead) (name gap : List Lexeme)
    (brace : Lexeme) (body : List Lexeme) : Prop where
  lexemes : content = name ++ (gap ++ brace :: body)
  isTypeName : ElementHead.isTypeName h.typeName = true
  nameChars : ∀ c ∈ h.typeName, ElementHead.isNameChar c = true
  nameMasked : maskedText name = h.typeName
  nameText : name.map (·.char) = h.typeName
  gapBlank : ∀ c ∈ maskedText gap, Text.isBlank c = true
  char : brace.char = '{'
  shown : brace.region.isComment = false
  place : h.brace = Text.byteLength (h.typeName ++ maskedText gap)

theorem exists_headCut {content : List Lexeme} {h : ElementHead}
    (parsed : ElementHead.parse? (maskedText content) = some h) :
    ∃ name gap brace body, HeadCut content h name gap brace body := by
  obtain ⟨blanks, more, masked, named, nameChars, blank, place⟩ :=
    ElementHead.parse?_eq_some_iff.mp parsed
  have visibleName : ∀ c ∈ h.typeName, Text.isBlank c = false :=
    fun c hc => ElementHead.isBlank_of_isNameChar (nameChars c hc)
  obtain ⟨ns, rest, lexemes, name, afterName⟩ := Lexeme.exists_of_maskedText_eq_append masked
    (.inl fun c hc => visibleName c (List.mem_of_getLast? hc))
  obtain ⟨gs, opened, rfl, gap, afterGap⟩ := Lexeme.exists_of_maskedText_eq_append afterName
    (.inr fun c hc => by cases hc; rfl)
  obtain ⟨x, body, rfl, brace, shown⟩ := Lexeme.exists_cons_of_maskedText afterGap rfl
  have nameText : ns.map (·.char) = h.typeName := by
    rw [Lexeme.map_char_of_visible, name]
    rw [name]
    exact visibleName
  rw [← gap] at blank place
  exact ⟨ns, gs, x, body, lexemes, named, nameChars, name, nameText, blank, brace, shown, place⟩

/-- Nothing before the opening brace opens or closes a literal. -/
theorem HeadCut.mute {content name gap body : List Lexeme} {h : ElementHead} {brace : Lexeme}
    (cut : HeadCut content h name gap brace body) :
    ∀ y ∈ name ++ gap, y.region.isComment = true ∨ Lexer.isMute y.char = true := by
  intro y hy
  rcases List.mem_append.mp hy with inName | inGap
  · have member : y.char ∈ name.map (·.char) := List.mem_map_of_mem inName
    rw [cut.nameText] at member
    exact .inr (Lexer.isMute_of_isNameChar (cut.nameChars _ member))
  · refine (Lexeme.comment_or_blank ?_).imp_right Lexer.isMute_of_isBlank
    intro c hc
    exact cut.gapBlank c (List.mem_flatMap.mpr ⟨y, inGap, hc⟩)

/-- A content that starts, lexed on its own, with the head `h`: only blanks and comments stand in the
gap before the brace. -/
structure Opening (content : Text) (h : ElementHead) (gap body : Text) : Prop where
  text : content = h.typeName ++ (gap ++ '{' :: body)
  isTypeName : ElementHead.isTypeName h.typeName = true
  nameChars : ∀ c ∈ h.typeName, ElementHead.isNameChar c = true
  gapBlank : ∀ c ∈ maskComments gap, Text.isBlank c = true
  gapEnds : stateAfter {} gap = {}
  place : h.brace = Text.byteLength (h.typeName ++ gap)

/-- The content, read up to its opening brace: on its own it has the same head as in the document. -/
theorem exists_opening {t : Text} {h : ElementHead}
    (parsed : ElementHead.parse? (maskedContent t) = some h) :
    ∃ gap body, Opening (rawContent t) h gap body := by
  obtain ⟨header, content, tail, sections⟩ := exists_sections t
  rw [← sections.masked] at parsed
  obtain ⟨s, valid, shadows, lexed⟩ := sections.exists_state parsed
  obtain ⟨ns, gs, x, body, cut⟩ := exists_headCut parsed
  let lead := h.typeName ++ gs.map (·.char)
  have text : (content ++ tail).map (·.char) = lead ++ '{' :: (body ++ tail).map (·.char) := by
    rw [cut.lexemes]
    simp only [lead, List.map_append, List.map_cons, List.append_assoc, List.cons_append,
      cut.nameText, cut.char]
  rw [text, Lexer.lexFrom_append s (Element.apart_open _ _)] at lexed
  have both : lexFrom s lead ++ lexFrom (stateAfter s lead) ('{' :: (body ++ tail).map (·.char)) =
      (ns ++ gs) ++ (x :: body ++ tail) := by
    rw [← lexed, cut.lexemes]
    simp only [List.append_assoc, List.cons_append]
  have length : (lexFrom s lead).length = (ns ++ gs).length := by
    simp only [Lexer.length_lexFrom, lead, ← cut.nameText, List.length_append, List.length_map]
  obtain ⟨front, back⟩ := List.append_inj both length
  obtain ⟨after, same⟩ := shadows.run (t := lead) (by rw [front]; exact cut.mute)
  have start : stateAfter {} lead = {} := by
    have shown := cut.shown
    simp only [lexFrom, List.cons_append, List.cons.injEq] at back
    rw [← back.1] at shown
    exact after.eq_start rfl shown
  have plain : ∀ c ∈ h.typeName, Lexer.isPlain c = true :=
    fun c hc => Element.isPlain_of_isNameChar (cut.nameChars c hc)
  have apart := Element.apart_name cut.nameChars (gs.map (·.char))
  have masks : maskComments (gs.map (·.char)) = maskedText gs := by
    rw [front, Lexeme.maskedText_append, cut.nameMasked, ← lex, ← Lexer.maskComments_eq,
      (Lexer.closed_of_plain plain).maskComments_append apart] at same
    exact List.append_cancel_left same
  refine ⟨gs.map (·.char), body.map (·.char), ?_, cut.isTypeName, cut.nameChars, ?_, ?_, ?_⟩
  · rw [← sections.raw, cut.lexemes]
    simp only [List.map_append, List.map_cons, cut.nameText, cut.char]
  · rw [masks]
    exact cut.gapBlank
  · rwa [(Lexer.closed_of_plain plain).stateAfter_append apart] at start
  · rw [cut.place, Text.byteLength_append, Text.byteLength_append, ← masks,
      Lexer.byteLength_maskComments]

section
variable {content gap body : Text} {h : ElementHead} (opening : Opening content h gap body)
include opening

theorem Opening.lex_content : lex content =
    (lex h.typeName ++ lex gap) ++ ⟨'{', .code⟩ :: lex body := by
  have opened : lexFrom {} ('{' :: body) = ⟨'{', .code⟩ :: lex body := rfl
  have plain : ∀ c ∈ h.typeName, Lexer.isPlain c = true :=
    fun c hc => Element.isPlain_of_isNameChar (opening.nameChars c hc)
  rw [opening.text, (Lexer.closed_of_plain plain).lex_append
    (Element.apart_name opening.nameChars _), Lexer.lex_append (Element.apart_open _ _),
    opening.gapEnds, opened, List.append_assoc]

theorem Opening.bytes_lead : Lexeme.bytes (lex h.typeName ++ lex gap) = h.brace := by
  rw [Lexeme.bytes_append, Lexeme.bytes_lex, Lexeme.bytes_lex, opening.place, Text.byteLength_append]

/-- The body is what follows the opening brace. -/
theorem Opening.exists_front :
    ∃ front : Text, content = front ++ body ∧ Text.byteLength front = h.brace + 1 := by
  refine ⟨h.typeName ++ gap ++ ['{'], ?_, ?_⟩
  · rw [opening.text]
    simp only [List.append_assoc, List.singleton_append]
  · rw [Text.byteLength_append, ← opening.place]
    rfl

theorem Opening.dropBytes_brace : Text.dropBytes (h.brace + 1) content = body := by
  obtain ⟨front, text, length⟩ := opening.exists_front
  rw [text, ← length, Text.dropBytes_append]

theorem Opening.noBrace : ∀ x ∈ lex h.typeName ++ lex gap, x.isBrace = false := by
  intro x hx
  rcases List.mem_append.mp hx with inName | inGap
  · exact Element.noBrace_name opening.nameChars x inName
  · exact Element.noBrace_gap opening.gapBlank x inGap

/-- The brace checks accept a content exactly if the brace that its head opens is closed by its last
character, and by none before. -/
theorem Opening.braceFault_eq_none_iff : braceFault content = none ↔
    ∃ inner, lex body = inner ++ [⟨'}', .code⟩] ∧ Lexeme.staysOpen 1 inner = some 1 := by
  constructor
  · intro accepted
    unfold braceFault at accepted
    split at accepted
    · rename_i balanced
      split at accepted
      · cases accepted
      · rename_i last
        rw [bracesBalanced, opening.lex_content] at balanced
        refine Lexeme.isElement_of_checks opening.noBrace balanced ?_
        intro close found
        rw [← opening.lex_content] at found ⊢
        simp only [rootClose, found, Option.any_some, decide_eq_true_eq, Nat.not_lt] at last
        rwa [Lexeme.bytes_lex]
    · cases accepted
  · rintro ⟨inner, closed, stays⟩
    refine braceFault_of_isElement ⟨(lex h.typeName ++ lex gap) ++ ⟨'{', .code⟩ :: inner, ?_, ?_⟩
    · rw [opening.lex_content, closed]
      simp only [List.append_assoc, List.cons_append]
    · rw [Lexeme.staysOpen_append_of_eq (Lexeme.staysOpen_of_no_brace 0 opening.noBrace)]
      exact stays

end

/-- The content of a document is one sound element. -/
theorem exists_element {t : Text} {parts : Parts} (h : decompose t = .ok parts) :
    ∃ e : Element, e.Sound ∧ parts.content = e.text ∧ parts.rootType = e.typeName ∧
      parts.rootOpen = e.brace := by
  obtain ⟨head, parsed, accepted, rfl⟩ := decompose_eq_ok_iff.mp h
  obtain ⟨gap, rest, opening⟩ := exists_opening parsed
  obtain ⟨inner, lexedRest, stays⟩ := opening.braceFault_eq_none_iff.mp accepted
  have body : rest = inner.map (·.char) ++ ['}'] := by
    rw [← Lexer.map_char_lex rest, lexedRest, List.map_append]
    rfl
  rw [body, Lexer.lex_append (Element.apart_close _ _)] at lexedRest
  obtain ⟨lexedBody, close⟩ := List.append_inj lexedRest (by simp [lex])
  simp only [lexFrom, List.cons.injEq, Lexeme.mk.injEq, true_and, and_true] at close
  refine ⟨⟨head.typeName, gap, inner.map (·.char)⟩, ⟨opening.isTypeName, opening.nameChars,
    opening.gapBlank, opening.gapEnds, ?_, ?_⟩, ?_, rfl, opening.place⟩
  · rw [lexedBody]
    exact stays
  · exact Lexer.stateAfter_eq_start_of_code close (by decide)
  · rw [partsWith, opening.text, body, Element.text]

end QmlPreview
