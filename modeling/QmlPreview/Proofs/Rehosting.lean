import QmlPreview.Proofs.Hosting
import QmlPreview.Proofs.Stripping

/-! Re-hosting: the body of a window root in the phone. Properties are removed from it line by line, and
a line is told by its text alone, so a removal may begin or end inside a comment. What is kept stays
intact exactly if lexing it alone finds what lexing the whole body found. -/

namespace QmlPreview

open Lexer (stateAfter lexFrom keepsLiterals breaksLiteral Apart)
open Lexeme (kinds visible staysOpen)
open Outline (indentation)
open Rehosting (keptFrom)

/-- The lexemes of `shown` in a text where it stands between two others. -/
def Lexer.within (before shown after : Text) : List Lexeme :=
  ((lex (before ++ (shown ++ after))).drop before.length).take shown.length

theorem Lexer.within_eq {before shown after : Text} (start : stateAfter {} before = {})
    (first : Apart before (shown ++ after)) (last : Apart shown after) :
    within before shown after = lex shown := by
  have lengths (t : Text) : (lex t).length = t.length := length_lexFrom {} t
  rw [within, lex_append first, start, lexFrom_append {} last, List.drop_left' (lengths before)]
  exact List.take_left' (lengths shown)

namespace Parts

/-- The root element from its opening brace on. -/
def rootBody (parts : Parts) : Text := Text.dropBytes (parts.rootOpen + 1) parts.content

/-- The lexemes of the body that survive the removal of properties. -/
def keptBody (parts : Parts) (c : Container) : List Lexeme :=
  keptFrom c.loses {} (lex parts.rootBody)

/-- Lexed alone, what is left of the body shows its characters in regions of the kinds that they have
in the source. -/
def KeepsRegions (parts : Parts) (c : Container) : Prop :=
  kinds (lex (Rehosting.strip parts.rootBody c.loses)) = kinds (parts.keptBody c)

def replacementHead (parts : Parts) (c : Container) : Text :=
  ElementHead.qualifier parts.rootType ++ c.replacement ++ " \x7b\n    anchors.fill: parent".toList

def replacementBody (parts : Parts) (c : Container) : Text :=
  (((parts.keptBody c).map (·.char)).dropWhile Rehosting.isIndent).dropWhile (· == '\n')

theorem rehosted?_eq {parts : Parts} {c : Container}
    (container : Container.ofKind? parts.rootKind = some c) :
    parts.rehosted? = some (parts.replacementHead c ++ '\n' :: parts.replacementBody c) := by
  have line : " \x7b\n    anchors.fill: parent\n".toList =
      " \x7b\n    anchors.fill: parent".toList ++ ['\n'] := by decide
  rw [rehosted?, container, Option.map_some, line, replacementHead, replacementBody, keptBody,
    Rehosting.map_char_keptFrom]
  simp only [rootBody, Rehosting.strip, List.append_assoc, List.cons_append, List.nil_append]

end Parts

/-- The text of the framed document before the body of its re-hosted root. -/
def framedBefore (doc : Document) (parts : Parts) (c : Container) : Text :=
  printed parts.repeated
    ((deviceShell doc).head ++ (reindent (parts.replacementHead c) (indentation 3) ++ ['\n']))

def framedBody (parts : Parts) (c : Container) : Text :=
  reindent (parts.replacementBody c) (indentation 3)

def framedAfter (doc : Document) : Text := (deviceShell doc).tail ++ ['\n']

/-- A framed document is a window again, and the visible characters that were kept of the body lie in
regions of the kinds they had in the source. -/
structure Intact (kept : List Lexeme) (before shown after : Text) : Prop where
  accepted : ∃ window, decompose (before ++ (shown ++ after)) = .ok window ∧
    window.rootType = "Window".toList
  regions : kinds (Lexer.within before shown after) = kinds kept

section
variable {t : Text} {parts : Parts} (taken : decompose t = .ok parts)
include taken

theorem exists_rootBody : ∃ body, parts.rootBody = body ++ ['}'] ∧
    lex parts.rootBody = lex body ++ [⟨'}', .code⟩] ∧ staysOpen 1 (lex body) = some 1 ∧
    (keepsLiterals {} parts.content = true → keepsLiterals {} parts.rootBody = true) := by
  obtain ⟨e, sound, content, _, rootOpen⟩ := exists_element taken
  have text : parts.content = (e.typeName ++ (e.gap ++ ['{'])) ++ (e.body ++ ['}']) := by
    simp only [content, Element.text, List.append_assoc, List.cons_append, List.nil_append]
  have offset : parts.rootOpen + 1 = Text.byteLength (e.typeName ++ (e.gap ++ ['{'])) := by
    have unit : ('{' : Char).utf8Size = 1 := rfl
    simp only [rootOpen, Element.brace, Text.byteLength_append, Text.byteLength_cons,
      Text.byteLength_nil, unit]
    omega
  have body : parts.rootBody = e.body ++ ['}'] := by
    rw [Parts.rootBody, text, offset, Text.dropBytes_append]
  refine ⟨e.body, body, ?_, sound.bodyOpen, ?_⟩
  · rw [body, Lexer.lex_append (Element.apart_close _ _), sound.bodyEnds]
    rfl
  · intro keeps
    have lead : stateAfter {} (e.typeName ++ (e.gap ++ ['{'])) = {} := by
      rw [Lexer.stateAfter_append {} (Element.apart_name sound.nameChars _),
        sound.stateAfter_name, Lexer.stateAfter_append {} (Element.apart_open _ _), sound.gapEnds]
      rfl
    have apart : Apart (e.typeName ++ (e.gap ++ ['{'])) (e.body ++ ['}']) :=
      (Apart.append_left (.inl (by decide)) (List.cons_ne_nil _ _) e.gap).append_left
        (List.append_ne_nil_of_right_ne_nil _ (List.cons_ne_nil _ _)) e.typeName
    rw [text, Lexer.keepsLiterals_append apart, lead, Bool.and_eq_true] at keeps
    rw [body]
    exact keeps.2

end

section
variable {t : Text} {parts : Parts} (taken : decompose t = .ok parts) (c : Container)
include taken

theorem idle_replacementName :
    ∀ x ∈ ElementHead.qualifier parts.rootType ++ c.replacement, Lexer.isIdle x = true := by
  obtain ⟨e, sound, _, rootType, _⟩ := exists_element taken
  have replacement : ∀ x ∈ c.replacement, Lexer.isIdle x = true := by cases c <;> decide
  refine List.forall_mem_append.mpr ⟨fun x hx => ?_, replacement⟩
  refine Element.isIdle_of_isNameChar (sound.nameChars x ?_)
  rw [← rootType, ← ElementHead.qualifier_append_unqualified parts.rootType]
  exact List.mem_append_left _ hx

theorem plain_replacementHead : ∀ x ∈ parts.replacementHead c, Lexer.isPlain x = true := by
  have line : ∀ x ∈ " \x7b\n    anchors.fill: parent".toList, Lexer.isPlain x = true := by decide
  exact List.forall_mem_append.mpr
    ⟨fun x hx => Lexer.isPlain_of_isIdle (idle_replacementName taken c x hx), line⟩

theorem nests_replacementHead (d : Nat) : Nests d (d + 1) (parts.replacementHead c) := by
  have line : " \x7b\n    anchors.fill: parent".toList =
      " \x7b".toList ++ "\n    anchors.fill: parent".toList := by decide
  have rest : Nests (d + 1) (d + 1) "\n    anchors.fill: parent".toList :=
    nests_of_inert (Lexer.inert_of_idle (by decide)) (d + 1)
  rw [Parts.replacementHead, line]
  exact (nests_of_inert (Lexer.inert_of_idle (idle_replacementName taken c)) d).append
    ((Outline.nests_open d).append rest (.inl (by decide))) (.inr (by decide))

omit taken in
theorem endsVisible_replacementHead : Text.EndsVisible (parts.replacementHead c) := by
  have line : " \x7b\n    anchors.fill: parent".toList =
      " \x7b\n    anchors.fill: paren".toList ++ ['t'] := by decide
  intro x hx
  rw [Parts.replacementHead, line, ← List.append_assoc, List.getLast?_append] at hx
  cases hx
  rfl

/-- The lines of the head are indented apart from those of the body. -/
theorem shown_replacement (doc : Document) (body : Text) :
    (deviceShell doc).shown (parts.replacementHead c ++ '\n' :: body) =
      reindent (parts.replacementHead c) (indentation 3) ++
        '\n' :: reindent body (indentation 3) := by
  rw [Shell.shown, Lexer.reindent_eq, Lexer.reindentFrom_append,
    (nests_replacementHead taken c 0).ends]
  rfl

theorem nests_shownHead (k d : Nat) :
    Nests d (d + 1) (reindent (parts.replacementHead c) (indentation k)) :=
  (nests_replacementHead taken c d).reindent
    (Lexer.keepsLiterals_plain (plain_replacementHead taken c)) (endsVisible_replacementHead c) k

theorem stateAfter_framedBefore (closed : parts.toHeader.IsClosed) (doc : Document) :
    stateAfter {} (framedBefore doc parts c) = {} := by
  have apart (t : Text) : Apart (deviceShell doc).head t := (deviceShell doc).apart_head t
  rw [framedBefore, stateAfter_printed closed.closed_repeated,
    Lexer.stateAfter_append {} (apart _), (sound_deviceShell doc).nests_head.ends,
    Lexer.stateAfter_append {} (Lexer.apart_before_newline _ _),
    (nests_shownHead taken c 3 0).ends]
  rfl

theorem framed_eq (doc : Document) :
    framedBefore doc parts c ++ (framedBody parts c ++ framedAfter doc) =
      printed parts.repeated (((deviceShell doc).element
        (parts.replacementHead c ++ '\n' :: parts.replacementBody c)).text ++ ['\n']) := by
  rw [Shell.text_element, shown_replacement taken c doc, framedBefore, framedBody, framedAfter,
    printed_eq_append, printed_eq_append (_ ++ _)]
  simp only [List.append_assoc, List.cons_append, List.nil_append]

theorem frameInPhone_rehosted {doc : Document} (same : doc.text = t)
    (container : Container.ofKind? parts.rootKind = some c) :
    frameInPhone doc true = .ok
      { text := framedBefore doc parts c ++ (framedBody parts c ++ framedAfter doc)
        locator := .directory doc.directory, kind := .frame, source := doc.path } := by
  subst same
  rw [frameInPhone_rehost_eq taken (Parts.rehosted?_eq container),
    (sound_deviceShell doc).render_around, framed_eq taken c doc]

theorem within_framed (closed : parts.toHeader.IsClosed) (doc : Document) :
    Lexer.within (framedBefore doc parts c) (framedBody parts c) (framedAfter doc) =
      lex (framedBody parts c) := by
  refine Lexer.within_eq (stateAfter_framedBefore taken c closed doc) ?_
    (Lexer.apart_before_newline _ _)
  have line : framedBefore doc parts c = (printed parts.repeated [] ++ ((deviceShell doc).head ++
      reindent (parts.replacementHead c) (indentation 3))) ++ ['\n'] := by
    rw [framedBefore, printed_eq_append]
    simp only [List.append_assoc]
  rw [line]
  exact Lexer.apart_newline _ _

/-- What is kept of the body stays in the root, and closes it. -/
theorem exists_keptBody : ∃ kept, parts.keptBody c = kept ++ [⟨'}', .code⟩] ∧
    staysOpen 1 kept = some 1 := by
  obtain ⟨body, _, lexed, stays, _⟩ := exists_rootBody taken
  rw [Parts.keptBody, lexed]
  exact Rehosting.exists_keptFrom (σ := {}) (Int.le_refl 0) stays

theorem exists_replacementBody : ∃ lead rest, (∀ x ∈ lead, Text.isBlank x = true) ∧
    parts.replacementBody c = rest ++ ['}'] ∧
    (parts.keptBody c).map (·.char) = lead ++ parts.replacementBody c := by
  obtain ⟨kept, text, _⟩ := exists_keptBody taken c
  have chars : (parts.keptBody c).map (·.char) = kept.map (·.char) ++ ['}'] := by
    rw [text, List.map_append]
    rfl
  obtain ⟨indent, body, indents, unindented, whole⟩ :=
    Text.exists_dropWhile (p := Rehosting.isIndent) (by decide : Rehosting.isIndent '}' = false)
      (kept.map (·.char))
  obtain ⟨breaks, rest, newlines, dropped, part⟩ :=
    Text.exists_dropWhile (p := (· == '\n')) (by decide : ('}' == '\n') = false) body
  have replaced : parts.replacementBody c = rest ++ ['}'] := by
    rw [Parts.replacementBody, chars, unindented, dropped]
  refine ⟨indent ++ breaks, rest, List.forall_mem_append.mpr ⟨fun x hx => ?_, fun x hx => ?_⟩,
    replaced, ?_⟩
  · have either := indents x hx
    simp only [Rehosting.isIndent, Bool.or_eq_true, beq_iff_eq] at either
    rcases either with rfl | rfl <;> rfl
  · rw [beq_iff_eq.mp (newlines x hx)]
    rfl
  · rw [chars, whole, part, replaced, List.append_assoc]

theorem kinds_keptBody : ∃ kept, kinds (parts.keptBody c) = kinds kept ++ [('}', .code)] ∧
    ∀ k, staysOpen (k + 2) (parts.keptBody c) = some (k + 1) := by
  obtain ⟨kept, text, stays⟩ := exists_keptBody taken c
  refine ⟨kept, ?_, fun k => ?_⟩
  · rw [text, Lexeme.kinds_append]
    rfl
  · have deeper := Lexeme.staysOpen_add stays (k + 1)
    rw [text, show k + 2 = 1 + (k + 1) by omega, Lexeme.staysOpen_append_of_eq deeper,
      Lexeme.staysOpen_close, if_neg (by omega), Lexeme.staysOpen_nil]
    exact congrArg some (by omega)

/-- A literal of the kept body that a newline breaks comes after a region that is not as it was. -/
theorem not_prefix_of_breaksLiteral (keeps : keepsLiterals {} parts.content = true)
    {front back : Text} (body : parts.replacementBody c = front ++ '\n' :: back)
    (breaks : breaksLiteral (stateAfter {} front) '\n' = true) :
    ¬ kinds (lex front) <+: kinds (parts.keptBody c) := by
  intro same
  obtain ⟨_, _, _, _, literals⟩ := exists_rootBody taken
  obtain ⟨lead, _, blank, _, text⟩ := exists_replacementBody taken c
  obtain ⟨regions, state⟩ := Lexer.blank_append blank front
  have follows : Rehosting.Follows {} {} {} := ⟨nofun, fun _ => .inl rfl, fun _ => rfl⟩
  rw [body, ← List.append_assoc] at text
  rw [← regions] at same
  have intact := Rehosting.not_breaksLiteral Lexer.valid_start Lexer.valid_start follows
    (literals keeps) text same
  rw [state, breaks] at intact
  cases intact

/-- A kept body that is lexed as it was breaks no literal. -/
theorem keepsLiterals_replacementBody (keeps : keepsLiterals {} parts.content = true)
    (same : kinds (lex (parts.replacementBody c)) = kinds (parts.keptBody c)) :
    keepsLiterals {} (parts.replacementBody c) = true := by
  rcases Lexer.keepsLiterals_or_break {} (parts.replacementBody c) with literals | ⟨front, back,
    body, _, breaks⟩
  · exact literals
  · refine absurd ?_ (not_prefix_of_breaksLiteral taken c keeps body breaks)
    rw [← same, body, Lexer.lex_append (Lexer.apart_before_newline _ _), Lexeme.kinds_append]
    exact List.prefix_append _ _

theorem keepsRegions_iff : parts.KeepsRegions c ↔
    kinds (lex (parts.replacementBody c)) = kinds (parts.keptBody c) := by
  obtain ⟨lead, _, blank, _, text⟩ := exists_replacementBody taken c
  have chars : Rehosting.strip parts.rootBody c.loses = lead ++ parts.replacementBody c :=
    (Rehosting.map_char_keptFrom c.loses {} (lex parts.rootBody)).symm.trans text
  rw [Parts.KeepsRegions, chars, (Lexer.blank_append blank _).1]

theorem endsVisible_replacementBody : Text.EndsVisible (parts.replacementBody c) := by
  obtain ⟨_, rest, _, replaced, _⟩ := exists_replacementBody taken c
  rw [replaced]
  exact Text.endsVisible_append (List.cons_ne_nil _ _) fun x hx => by cases hx; rfl

theorem nests_replacementBody
    (same : kinds (lex (parts.replacementBody c)) = kinds (parts.keptBody c)) (k : Nat) :
    Nests (k + 2) (k + 1) (parts.replacementBody c) := by
  obtain ⟨kept, last, stays⟩ := kinds_keptBody taken c
  obtain ⟨_, rest, _, replaced, _⟩ := exists_replacementBody taken c
  refine ⟨?_, (Lexeme.staysOpen_of_kinds same _).trans (stays k)⟩
  have closing : lex (parts.replacementBody c) =
      lex rest ++ [⟨'}', (Lexer.step (stateAfter {} rest) '}' none).1⟩] := by
    rw [replaced, Lexer.lex_append (Element.apart_close _ _)]
    rfl
  have code : (Lexer.step (stateAfter {} rest) '}' none).1 = .code := by
    rw [closing, Lexeme.kinds_append, last] at same
    have kind := List.append_inj_right' same rfl
    rw [Lexeme.kinds_of_visible rfl, List.cons.injEq, Prod.mk.injEq] at kind
    exact Region.eq_code_of_kind kind.1.2
  have start : stateAfter {} rest = {} := Lexer.stateAfter_eq_start_of_code code (by decide)
  rw [replaced, Lexer.stateAfter_append {} (Element.apart_close _ _), start]
  rfl

theorem kinds_framedBody (keeps : keepsLiterals {} parts.content = true)
    (same : kinds (lex (parts.replacementBody c)) = kinds (parts.keptBody c)) :
    kinds (lex (framedBody parts c)) = kinds (parts.keptBody c) := by
  have literals := keepsLiterals_replacementBody taken c keeps same
  have ends := endsVisible_replacementBody taken c
  exact (Lexeme.kinds_of_visible_eq (lex_reindent literals ends 3).1).trans same

theorem decompose_framed (closed : parts.toHeader.IsClosed)
    (keeps : keepsLiterals {} parts.content = true)
    (same : kinds (lex (parts.replacementBody c)) = kinds (parts.keptBody c)) (doc : Document) :
    ∃ window, decompose (framedBefore doc parts c ++ (framedBody parts c ++ framedAfter doc)) =
      .ok window ∧ window.rootType = "Window".toList := by
  have shown : Nests 3 3 ((deviceShell doc).shown
      (parts.replacementHead c ++ '\n' :: parts.replacementBody c)) := by
    have literals := keepsLiterals_replacementBody taken c keeps same
    have body := (nests_replacementBody taken c same 2).reindent literals
      (endsVisible_replacementBody taken c) 3
    rw [shown_replacement taken c doc]
    exact (nests_shownHead taken c 3 3).append
      ((nests_of_inert Outline.inert_newline 4).append body (Lexer.apart_newline [] _))
      (Lexer.apart_before_newline _ _)
  rw [framed_eq taken c doc]
  exact ⟨_, decompose_printed (wellFormed_repeated taken) closed.closed_repeated
    ((sound_deviceShell doc).sound_element shown) windowType_ne_spelling, rfl⟩

/-- A kept body that is not lexed as it was is not shown so either. -/
theorem kinds_of_framedBody (keeps : keepsLiterals {} parts.content = true)
    (shown : kinds (lex (framedBody parts c)) = kinds (parts.keptBody c)) :
    kinds (lex (parts.replacementBody c)) = kinds (parts.keptBody c) := by
  rcases Lexer.keepsLiterals_or_break {} (parts.replacementBody c) with literals | ⟨front, back,
    body, literals, breaks⟩
  · have ends := endsVisible_replacementBody taken c
    rw [← shown]
    exact (Lexeme.kinds_of_visible_eq (lex_reindent literals ends 3).1).symm
  · -- Up to the newline that breaks a literal, indenting changes no region.
    obtain ⟨visible, _⟩ := Lexer.lexFrom_reindentFrom (blank_indentation 3) (newline_indentation 3)
      Lexer.valid_start rfl literals false
    refine absurd ?_ (not_prefix_of_breaksLiteral taken c keeps body breaks)
    rw [← shown, framedBody, body, Lexer.reindent_eq, Lexer.reindentFrom_append,
      Lexer.lex_append (Lexer.apart_before_newline _ _), Lexeme.kinds_append, lex, lex,
      Lexeme.kinds_of_visible_eq visible]
    exact List.prefix_append _ _

/-- Framed, the kept body is intact exactly if it keeps its regions when it is lexed alone. -/
theorem intact_iff (closed : parts.toHeader.IsClosed)
    (keeps : keepsLiterals {} parts.content = true) (doc : Document) :
    Intact (parts.keptBody c) (framedBefore doc parts c) (framedBody parts c) (framedAfter doc) ↔
      parts.KeepsRegions c := by
  rw [keepsRegions_iff taken c]
  constructor
  · intro intact
    have shown := intact.regions
    rw [within_framed taken c closed doc] at shown
    exact kinds_of_framedBody taken c keeps shown
  · intro same
    refine ⟨decompose_framed taken c closed keeps same doc, ?_⟩
    rw [within_framed taken c closed doc]
    exact kinds_framedBody taken c keeps same

omit taken in
theorem keepsRegions_of_returns
    (returns : Rehosting.returns c.loses {} {} {} parts.rootBody = true) :
    parts.KeepsRegions c := by
  have lexed := Rehosting.lexFrom_keptFrom returns
  have chars : Rehosting.strip parts.rootBody c.loses =
      (keptFrom c.loses {} (lexFrom {} parts.rootBody)).map (·.char) :=
    (Rehosting.map_char_keptFrom c.loses {} (lex parts.rootBody)).symm
  rw [Parts.KeepsRegions, chars, lex, lexed]
  rfl

end

/-- A re-hosted window root is intact in the phone exactly if its body keeps its regions, as it does if
every removal returns the lexer. -/
theorem rehosting_intact_iff {doc : Document} {parts : Parts} {c : Container}
    (taken : decompose doc.text = .ok parts) (closed : parts.toHeader.IsClosed)
    (keeps : keepsLiterals {} parts.content = true)
    (container : Container.ofKind? parts.rootKind = some c) :
    (∃ g, frameInPhone doc true = .ok g ∧
      g.text = framedBefore doc parts c ++ (framedBody parts c ++ framedAfter doc)) ∧
    (Intact (parts.keptBody c) (framedBefore doc parts c) (framedBody parts c) (framedAfter doc) ↔
      parts.KeepsRegions c) ∧
    (Rehosting.returns c.loses {} {} {} parts.rootBody = true → parts.KeepsRegions c) :=
  ⟨⟨_, frameInPhone_rehosted taken c rfl container, rfl⟩, intact_iff taken c closed keeps doc,
    keepsRegions_of_returns c⟩

/-- A comment at the end of a removed line goes with it. -/
theorem rehosting_intact_after_line :
    let doc : Document := ⟨"/a/Main.qml".toList,
      "import QtQuick\nWindow \x7b\n  x: 9 // px\n  Text \x7b text: \"\x7d\" \x7d\n\x7d\n".toList,
      Time.epoch⟩
    ∃ parts, decompose doc.text = .ok parts ∧ parts.toHeader.IsClosed ∧
      keepsLiterals {} parts.content = true ∧
      Container.ofKind? parts.rootKind = some .window ∧
      Intact (parts.keptBody .window) (framedBefore doc parts .window)
        (framedBody parts .window) (framedAfter doc) := by
  intro doc
  let parts : Parts :=
    { pragmas := [], imports := [.quick], contentStart := 15
      content := "Window \x7b\n  x: 9 // px\n  Text \x7b text: \"\x7d\" \x7d\n\x7d".toList
      rootType := "Window".toList, rootOpen := 7 }
  have taken : decompose doc.text = .ok parts := decompose_of_toOption (by decide +kernel)
  have closed : parts.toHeader.IsClosed :=
    ⟨nofun, List.forall_mem_singleton.mpr ⟨by decide, by decide⟩⟩
  have keeps : keepsLiterals {} parts.content = true := by decide +kernel
  have container : Container.ofKind? parts.rootKind = some .window := by decide +kernel
  have returns : Rehosting.returns Container.window.loses {} {} {} parts.rootBody = true := by
    decide +kernel
  obtain ⟨_, intact, keepsRegions⟩ := rehosting_intact_iff taken closed keeps container
  exact ⟨parts, taken, closed, keeps, container, intact.mpr (keepsRegions returns)⟩

/-- A line is removed that is told by its text alone and ends a block comment: what follows it becomes
a comment, and the framed document is no document. -/
theorem rehosting_opens_comment :
    let doc : Document := ⟨"/a/Main.qml".toList,
      "import QtQuick\nWindow \x7b\n/*\nwidth: 9 */\n\x7d\n".toList, Time.epoch⟩
    ∃ parts, decompose doc.text = .ok parts ∧ parts.toHeader.IsClosed ∧
      keepsLiterals {} parts.content = true ∧
      Container.ofKind? parts.rootKind = some .window ∧
      ∃ g, frameInPhone doc true = .ok g ∧ ∀ window, decompose g.text ≠ .ok window := by
  intro doc
  let parts : Parts :=
    { pragmas := [], imports := [.quick], contentStart := 15
      content := "Window \x7b\n/*\nwidth: 9 */\n\x7d".toList
      rootType := "Window".toList, rootOpen := 7 }
  have taken : decompose doc.text = .ok parts := decompose_of_toOption (by decide +kernel)
  have closed : parts.toHeader.IsClosed :=
    ⟨nofun, List.forall_mem_singleton.mpr ⟨by decide, by decide⟩⟩
  have keeps : keepsLiterals {} parts.content = true := by decide +kernel
  have container : Container.ofKind? parts.rootKind = some .window := by decide +kernel
  refine ⟨parts, taken, closed, keeps, container, _,
    frameInPhone_rehosted taken .window rfl container, fun window accepted => ?_⟩
  have refused : (decompose (framedBefore doc parts .window ++
      (framedBody parts .window ++ framedAfter doc))).toOption = none := by
    decide +kernel
  rw [accepted] at refused
  cases refused

end QmlPreview
