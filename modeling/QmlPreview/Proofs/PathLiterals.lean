import QmlPreview.Proofs.Presenting
import QmlPreview.Proofs.Tokenization

/-! Where the path of a source goes in a generated document. It is the value of one literal, and the
name of the file is the value of another; the text around the two is the same for every path. Both are
lexed as literals exactly where the lines printed for the header leave the lexer in code. -/

namespace QmlPreview

open Lexer (stateAfter Apart)
open Outline (renderFrom levels indentation sourceProperty)

/-- The character that an escape stands for, by what follows its backslash. -/
def escapeMeaning? (c : Char) : Option Char :=
  if c = '\\' then some '\\'
  else if c = '"' then some '"'
  else if c = 'n' then some '\n'
  else none

/-- Only an escape stands for the character. -/
def needsEscape (c : Char) : Bool := c == '\\' || c == '"' || c == '\n'

def unescape? : Text → Option Text
  | [] => some []
  | [c] => if needsEscape c then none else some [c]
  | c :: d :: t =>
    if c = '\\' then (escapeMeaning? d).bind fun e => (unescape? t).map (e :: ·)
    else if needsEscape c then none
    else (unescape? (d :: t)).map (c :: ·)

def unquote? : Text → Option Text
  | '"' :: t => if t.getLast? = some '"' then unescape? t.dropLast else none
  | _ => none

theorem escaped_of_not_needsEscape {c : Char} (h : needsEscape c = false) : escaped c = [c] := by
  simp only [needsEscape, Bool.or_eq_false_iff, beq_eq_false_iff_ne] at h
  rw [escaped, if_neg h.1.1, if_neg h.1.2, if_neg h.2]

theorem escapeMeaning?_eq_some_iff {d e : Char} :
    escapeMeaning? d = some e ↔ needsEscape e = true ∧ escaped e = ['\\', d] := by
  unfold escapeMeaning?
  constructor
  · intro h
    split at h
    · cases h
      subst d
      decide
    · split at h
      · cases h
        subst d
        decide
      · split at h
        · cases h
          subst d
          decide
        · cases h
  · rintro ⟨needed, literal⟩
    simp only [needsEscape, Bool.or_eq_true, beq_iff_eq] at needed
    rcases needed with (rfl | rfl) | rfl
    all_goals
      cases literal
      decide

theorem unescape?_escaped_append (c : Char) (t : Text) :
    unescape? (escaped c ++ t) = (unescape? t).map (c :: ·) := by
  cases needed : needsEscape c with
  | true =>
      simp only [needsEscape, Bool.or_eq_true, beq_iff_eq] at needed
      rcases needed with (rfl | rfl) | rfl
      all_goals rfl
  | false =>
      rw [escaped_of_not_needsEscape needed]
      have backslash : c ≠ '\\' := by
        rintro rfl
        cases needed
      cases t with
      | nil => simp only [List.append_nil, unescape?, needed, Bool.false_eq_true, if_false,
          Option.map_some]
      | cons d t => simp only [List.cons_append, List.nil_append, unescape?, backslash, needed,
          Bool.false_eq_true, if_false]

theorem unescape?_escaped (v : Text) : unescape? (v.flatMap escaped) = some v := by
  induction v with
  | nil => rfl
  | cons c v ih => rw [List.flatMap_cons, unescape?_escaped_append, ih, Option.map_some]

theorem eq_escaped_of_unescape? {t v : Text} (h : unescape? t = some v) :
    t = v.flatMap escaped := by
  induction t using unescape?.induct generalizing v with
  | case1 =>
      cases h
      rfl
  | case2 c needed => simp only [unescape?, needed, if_true, reduceCtorEq] at h
  | case3 c plain =>
      rw [Bool.not_eq_true] at plain
      simp only [unescape?, plain, Bool.false_eq_true, if_false, Option.some.injEq] at h
      subst h
      simp only [List.flatMap_cons, List.flatMap_nil, escaped_of_not_needsEscape plain,
        List.append_nil]
  | case4 d t ih =>
      simp only [unescape?, if_true, Option.bind_eq_some_iff, Option.map_eq_some_iff] at h
      obtain ⟨e, meaning, rest, undone, rfl⟩ := h
      rw [List.flatMap_cons, (escapeMeaning?_eq_some_iff.mp meaning).2, ih undone]
      rfl
  | case5 c d t backslash needed =>
      simp only [unescape?, backslash, needed, if_false, if_true, reduceCtorEq] at h
  | case6 c d t backslash plain ih =>
      rw [Bool.not_eq_true] at plain
      simp only [unescape?, backslash, plain, Bool.false_eq_true, if_false,
        Option.map_eq_some_iff] at h
      obtain ⟨rest, undone, rfl⟩ := h
      rw [List.flatMap_cons, escaped_of_not_needsEscape plain, ih undone]
      rfl

/-- The literals that have a value are the one that quoting it gives. -/
theorem unquote?_eq_some_iff {t v : Text} : unquote? t = some v ↔ t = quoted v := by
  constructor
  · intro h
    unfold unquote? at h
    split at h
    · split at h
      · rename_i body closed
        obtain ⟨inside, rfl⟩ := List.getLast?_eq_some_iff.mp closed
        rw [List.dropLast_concat] at h
        rw [eq_escaped_of_unescape? h, quoted, List.cons_append]
      · cases h
    · cases h
  · rintro rfl
    rw [quoted, List.cons_append, unquote?, if_pos List.getLast?_concat, List.dropLast_concat,
      unescape?_escaped]

theorem inside_escaped (v : Text) : Inside '"' (v.flatMap escaped) := by
  induction v with
  | nil => exact .nil
  | cons c v ih =>
      rw [List.flatMap_cons]
      cases needed : needsEscape c with
      | true =>
          simp only [needsEscape, Bool.or_eq_true, beq_iff_eq] at needed
          rcases needed with (rfl | rfl) | rfl
          all_goals exact .escaped _ ih
      | false =>
          rw [escaped_of_not_needsEscape needed]
          simp only [needsEscape, Bool.or_eq_false_iff, beq_eq_false_iff_ne] at needed
          exact .plain needed.1.1 needed.1.2 (fun newline => absurd newline needed.2) ih

/-- A quoted value is one token, whatever follows it. -/
theorem isToken_quoted (v rest : Text) : IsToken (quoted v) (.literal '"') rest :=
  .literal rest rfl (inside_escaped v)

def literalOf (value : Text) : List Lexeme := (Region.literal '"').mark (quoted value)

/-- The lines printed for the header leave the lexer in code. -/
def Parts.HeaderEndsInCode (parts : Parts) : Prop :=
  (stateAfter {} (printed parts.repeated [])).region = .code

instance (parts : Parts) : Decidable parts.HeaderEndsInCode := inferInstanceAs (Decidable (_ = _))

/-- A text with two places for the literals of a path and of a title. -/
structure Setting where
  front : Text
  middle : Text
  back : Text

namespace Setting

def fill (s : Setting) (path title : Text) : Text :=
  s.front ++ (quoted path ++ (s.middle ++ (quoted title ++ s.back)))

/-- The two literals are the values of `filename` and of `title`, each to the end of its line. -/
structure NamesValues (s : Setting) : Prop where
  filename : ∃ t, s.front = t ++ "\n    property string filename: ".toList
  filenameEnds : ∃ t, s.middle = '\n' :: t
  title : ∃ t, s.middle = t ++ "\n    title: ".toList
  titleEnds : ∃ t, s.back = '\n' :: t

/-- In the filled text the two literals lie in literals, and all else is what it is without them. -/
def KeepsLexing (s : Setting) (path title : Text) : Prop :=
  lex (s.fill path title) =
    lex s.front ++ (literalOf path ++ (lex s.middle ++ (literalOf title ++ lex s.back)))

theorem NamesValues.apart {s : Setting} (names : s.NamesValues) (t : Text) : Apart s.front t := by
  obtain ⟨u, line⟩ := names.filename
  rw [line]
  exact Apart.append_left (.inl (by decide)) (by decide) u

theorem keepsLexing_of_code {s : Setting} (names : s.NamesValues)
    (front : stateAfter {} s.front = {}) (middle : stateAfter {} s.middle = {})
    (path title : Text) : s.KeepsLexing path title := by
  have apartMiddle (t : Text) : Apart s.middle t := by
    obtain ⟨u, line⟩ := names.title
    rw [line]
    exact Apart.append_left (.inl (by decide)) (by decide) u
  have apartPath (t : Text) : Apart (quoted path) (s.middle ++ t) := by
    obtain ⟨u, newline⟩ := names.filenameEnds
    rw [newline]
    exact Lexer.apart_before_newline _ _
  have apartTitle : Apart (quoted title) s.back := by
    obtain ⟨u, newline⟩ := names.titleEnds
    rw [newline]
    exact Lexer.apart_before_newline _ _
  have restart (t : Text) : Lexer.lexFrom {} t = lex t := rfl
  rw [KeepsLexing, fill, Lexer.lex_append (names.apart _), front, restart,
    (Lexer.inert_quoted path).lex_append (apartPath _), Lexer.lex_append (apartMiddle _), middle,
    restart, (Lexer.inert_quoted title).lex_append apartTitle, Lexer.lex_quoted,
    Lexer.lex_quoted]
  rfl

/-- What the lexer is in at the end of a line goes on over the first of the two literals. -/
theorem not_keepsLexing_of_runsOver {s : Setting} (names : s.NamesValues)
    (running : Lexer.RunsOver (stateAfter {} s.front)) (path title : Text) :
    ¬ s.KeepsLexing path title := by
  intro keeps
  rw [KeepsLexing, fill, Lexer.lex_append (names.apart _)] at keeps
  have opening := (List.cons.inj (List.append_cancel_left keeps)).1
  exact running.step_quote_ne _ (congrArg Lexeme.region opening)

end Setting

/-- A window that names the path and the title of its source, without the two. -/
structure Facade where
  lead : Outline
  between : Outline
  rest : Outline
  after : Outline
  /-- The depth of what the window shows. -/
  depth : Nat

namespace Facade

def shell (f : Facade) (path title : Text) : Shell where
  before := f.lead ++ sourceProperty path ::
    (f.between ++ .property "title".toList (quoted title) :: f.rest)
  after := f.after
  depth := f.depth

/-- The text of the window around `shown` under the statements of a header. -/
def setting (f : Facade) (ss : List Statement) (shown : Text) : Setting where
  front := printed ss
    (windowFront ++ ('\n' :: renderFrom 1 f.lead ++ "    property string filename: ".toList))
  middle := '\n' :: renderFrom 1 f.between ++ "    title: ".toList
  back := '\n' :: renderFrom 1 f.rest ++
    (reindent shown (indentation f.depth) ++
      ('\n' :: renderFrom f.depth f.after ++ "\x7d\n".toList))

/-- The items before the title stay at the level of the window, and those before the path open and
close nothing. -/
structure IsFlat (f : Facade) : Prop where
  lead : levels 1 f.lead = some 1
  mute : ∀ c ∈ renderFrom 1 f.lead, Lexer.isMute c = true
  between : levels 1 f.between = some 1

theorem render_shell {f : Facade} (flat : f.IsFlat) {path title : Text}
    (sound : (f.shell path title).Sound) (ss : List Statement) (shown : Text) :
    printed ss ((f.shell path title).around shown).render =
      (f.setting ss shown).fill path title := by
  have source : Outline.Item.render 1 (sourceProperty path) =
      "    property string filename: ".toList ++ (quoted path ++ ['\n']) := by
    simp only [sourceProperty, Outline.Item.render, Outline.lineAt, indentation, List.append_assoc]
    rfl
  have named : Outline.Item.render 1 (.property "title".toList (quoted title)) =
      "    title: ".toList ++ (quoted title ++ ['\n']) := by
    simp only [Outline.Item.render, Outline.lineAt, indentation, List.append_assoc]
    rfl
  have before : renderFrom 1 (f.shell path title).before =
      renderFrom 1 f.lead ++ ("    property string filename: ".toList ++ (quoted path ++
        ('\n' :: renderFrom 1 f.between ++ ("    title: ".toList ++ (quoted title ++
          ('\n' :: renderFrom 1 f.rest)))))) := by
    rw [shell, Outline.renderFrom_append, Outline.foldl_depthAfter flat.lead,
      Outline.renderFrom_cons, source, sourceProperty, Outline.Item.depthAfter,
      Outline.renderFrom_append, Outline.foldl_depthAfter flat.between, Outline.renderFrom_cons,
      named, Outline.Item.depthAfter]
    simp only [List.append_assoc, List.cons_append, List.nil_append]
  have closing : "\x7d\n".toList = ['}', '\n'] := by decide
  rw [sound.render_around, Shell.text_element, Shell.head, before, Shell.shown, Shell.tail,
    Setting.fill, setting, windowFront, closing]
  simp only [printed, shell, List.append_assoc, List.cons_append, List.nil_append]

/-- An outline ends where a line ends. -/
theorem exists_lineEnd (d : Nat) (o : Outline) (t : Text) :
    ∃ u : Text, '\n' :: (renderFrom d o ++ t) = u ++ '\n' :: t := by
  rcases List.eq_nil_or_concat o with rfl | ⟨front, last, rfl⟩
  · exact ⟨[], rfl⟩
  · obtain ⟨u, line⟩ := Outline.exists_render (front.foldl Outline.Item.depthAfter d) last
    refine ⟨'\n' :: (renderFrom d front ++ u), ?_⟩
    rw [List.concat_eq_append, Outline.renderFrom_append, Outline.renderFrom_cons, line,
      Outline.renderFrom_nil, List.append_nil]
    simp only [List.cons_append, List.append_assoc, List.nil_append]

theorem namesValues_setting (f : Facade) (ss : List Statement) (shown : Text) :
    (f.setting ss shown).NamesValues where
  filename := by
    obtain ⟨u, line⟩ := exists_lineEnd 1 f.lead "    property string filename: ".toList
    refine ⟨printed ss (windowFront ++ u), ?_⟩
    simp only [setting, List.cons_append, line, printed, List.append_assoc]
    rfl
  filenameEnds := ⟨_, rfl⟩
  title := exists_lineEnd 1 f.between "    title: ".toList
  titleEnds := ⟨_, rfl⟩

/-- The two literals are lexed as such exactly if the printed statements leave the lexer in code. -/
theorem keepsLexing_setting_iff {f : Facade} (flat : f.IsFlat) {path title : Text}
    (sound : (f.shell path title).Sound) (ss : List Statement) (shown path' title' : Text) :
    (f.setting ss shown).KeepsLexing path' title' ↔
      (stateAfter {} (printed ss [])).region = .code := by
  have quiet := sound.quietBefore
  simp only [shell, List.forall_mem_append, List.forall_mem_cons] at quiet
  obtain ⟨quietLead, _, quietBetween, _⟩ := quiet
  have name : Lexer.Inert "    property string filename: ".toList :=
    Lexer.inert_of_idle (by decide)
  have title : Lexer.Inert "    title: ".toList := Lexer.inert_of_idle (by decide)
  have opened : Nests 0 1 windowFront := ⟨by decide, by decide⟩
  have lead : Nests 1 1 ('\n' :: renderFrom 1 f.lead) :=
    (nests_of_inert Outline.inert_newline 1).append
      (Outline.nests_renderFrom quietLead flat.lead) (.inl (by decide))
  have between : Nests 1 1 ('\n' :: renderFrom 1 f.between) :=
    (nests_of_inert Outline.inert_newline 1).append
      (Outline.nests_renderFrom quietBetween flat.between) (.inl (by decide))
  have start : stateAfter {} (f.setting ss shown).front =
      stateAfter (stateAfter {} (printed ss []))
        (windowFront ++ ('\n' :: renderFrom 1 f.lead ++ "    property string filename: ".toList)) := by
    rw [setting, printed_eq_append]
    exact Lexer.stateAfter_append {} (Lexer.apart_newline _ _)
  have names := f.namesValues_setting ss shown
  rcases start_or_runsOver_printed ss with code | running
  · rw [code] at start ⊢
    refine iff_of_true (Setting.keepsLexing_of_code names ?_ ?_ path' title') rfl
    · rw [start]
      exact (opened.append (lead.append (nests_of_inert name 1) (.inr (by decide)))
        (.inl (by decide))).ends
    · exact (between.append (nests_of_inert title 1) (.inr (by decide))).ends
  · -- Nothing up to the first literal ends what the header has opened.
    have mute : ∀ c ∈ windowFront ++
        ('\n' :: renderFrom 1 f.lead ++ "    property string filename: ".toList),
        Lexer.isMute c = true := by
      have front : ∀ c ∈ windowFront, Lexer.isMute c = true := by decide
      have back : ∀ c ∈ "    property string filename: ".toList, Lexer.isMute c = true := by decide
      refine List.forall_mem_append.mpr ⟨front, List.forall_mem_append.mpr ⟨?_, back⟩⟩
      exact List.forall_mem_cons.mpr ⟨by decide, flat.mute⟩
    rw [running.stateAfter_eq mute] at start
    rw [← start] at running
    refine iff_of_false (Setting.not_keepsLexing_of_runsOver names running path' title') fun code => ?_
    rw [← start] at code
    exact running.region_ne code

end Facade

def windowFacade (size : WindowSize) : Facade where
  lead := [.property "id".toList "qmlviewWindow".toList]
  between := [Outline.numberProperty "width".toList size.width,
    Outline.numberProperty "height".toList size.height,
    .property "visible".toList "true".toList]
  rest := .blank :: Outline.hostHead
  after := [.closing]
  depth := 2

/-- What follows the title in the window of the phone, up to its screen. -/
def deviceRest : Outline :=
  [Outline.color "#202124", .blank, .opening "Rectangle".toList,
    .property "id".toList "qmlviewBezel".toList,
    .property "anchors.fill".toList "parent".toList,
    Outline.numberProperty "radius".toList DeviceFrame.phone.cornerRadius,
    Outline.color "#111111", .blank] ++
    Outline.statusBar .phone ++
    [.opening "Item".toList, .property "id".toList "qmlviewScreen".toList] ++
    Outline.geometry DeviceFrame.phone.screen ++
    [.property "clip".toList "true".toList, .blank]

def deviceFacade (host after : Outline) (depth : Nat) : Facade where
  lead := [.property "id".toList "qmlviewDevice".toList]
  between := [Outline.numberProperty "width".toList DeviceFrame.phone.width,
    Outline.numberProperty "height".toList DeviceFrame.phone.height,
    Outline.numberProperty "minimumWidth".toList DeviceFrame.phone.width,
    Outline.numberProperty "minimumHeight".toList DeviceFrame.phone.height,
    Outline.numberProperty "maximumWidth".toList DeviceFrame.phone.width,
    Outline.numberProperty "maximumHeight".toList DeviceFrame.phone.height,
    .property "visible".toList "true".toList]
  rest := deviceRest ++ host
  after := after
  depth := depth

/-- The phone from the end of its screen on, up to the end of its window. -/
def deviceAfter : Outline := [.closing, .blank] ++ Outline.homeIndicator .phone ++ [.closing]

def rehostFacade : Facade := deviceFacade [] deviceAfter 3

def hostFacade : Facade := deviceFacade Outline.hostHead (.closing :: deviceAfter) 4

def Document.phoneTitle (doc : Document) : Text := doc.displayName ++ " - phone".toList

theorem windowShell_eq (doc : Document) (size : WindowSize) :
    windowShell doc size = (windowFacade size).shell doc.path doc.displayName := rfl

theorem deviceShell_eq (doc : Document) :
    deviceShell doc = rehostFacade.shell doc.path doc.phoneTitle := rfl

theorem deviceHostShell_eq (doc : Document) :
    deviceHostShell doc = hostFacade.shell doc.path doc.phoneTitle := rfl

/-- For every path and time of change of a source with the text `t`, a document is generated, and
all fill one setting with the path and the title. The two are lexed as literals exactly if `lexed`. -/
def FillsSetting (t : Text) (lexed : Prop) (title : Document → Text)
    (generate : Document → Except Error GeneratedDocument) : Prop :=
  ∃ s : Setting, s.NamesValues ∧ (∀ path title, s.KeepsLexing path title ↔ lexed) ∧
    ∀ doc : Document, doc.text = t →
      ∃ g, generate doc = .ok g ∧ g.text = s.fill doc.path (title doc)

theorem fillsSetting_of_shell {f : Facade} (flat : f.IsFlat) {parts : Parts} (shown : Text)
    {t : Text} {title : Document → Text} {generate : Document → Except Error GeneratedDocument}
    (sound : ∀ doc : Document, (f.shell doc.path (title doc)).Sound)
    (made : ∀ doc : Document, doc.text = t → ∃ g, generate doc = .ok g ∧
      g.text = printed parts.repeated ((f.shell doc.path (title doc)).around shown).render) :
    FillsSetting t parts.HeaderEndsInCode title generate := by
  refine ⟨f.setting parts.repeated shown, f.namesValues_setting _ _, fun path' title' => ?_, ?_⟩
  · exact Facade.keepsLexing_setting_iff flat (sound ⟨[], t, Time.epoch⟩) _ shown path' title'
  · intro doc same
    obtain ⟨g, ok, text⟩ := made doc same
    exact ⟨g, ok, text.trans (Facade.render_shell flat (sound doc) _ _)⟩

theorem Header.IsClosed.headerEndsInCode {parts : Parts} (closed : parts.toHeader.IsClosed) :
    parts.HeaderEndsInCode := by
  rw [Parts.HeaderEndsInCode, stateAfter_printed closed.closed_repeated]
  rfl

/-- The path of a source enters a generated document as the values of two literals and nowhere else,
and whether there is one does not depend on it. The two are lexed as literals, whatever the path is, if
the lines printed for the header leave the lexer in code; if they do not, they are so for no path. A
literal gives back its value. -/
theorem path_fills_literals_iff {t : Text} {parts : Parts} (taken : decompose t = .ok parts)
    (size : WindowSize) :
    FillsSetting t parts.HeaderEndsInCode Document.displayName (wrapInWindow · size) ∧
    (∀ alreadyHasRoot,
      FillsSetting t parts.HeaderEndsInCode Document.phoneTitle (frameInPhone · alreadyHasRoot) ∨
      ∀ doc : Document, doc.text = t → ∃ e, frameInPhone doc alreadyHasRoot = .error e) ∧
    (parts.toHeader.IsClosed → parts.HeaderEndsInCode) ∧
    ∀ value, lex (quoted value) = literalOf value ∧
      (∀ rest, IsToken (quoted value) (.literal '"') rest) ∧
      ∀ literal, unquote? literal = some value ↔ literal = quoted value := by
  refine ⟨?_, ?_, fun closed => closed.headerEndsInCode, fun value =>
    ⟨Lexer.lex_quoted value, isToken_quoted value, fun literal => unquote?_eq_some_iff⟩⟩
  · have mute : ∀ c ∈ renderFrom 1 (windowFacade {}).lead, Lexer.isMute c = true := by decide
    refine fillsSetting_of_shell (f := windowFacade size) ⟨rfl, mute, rfl⟩ parts.content
      (fun doc => sound_windowShell doc size) fun doc same => ?_
    subst same
    refine ⟨_, wrapInWindow_eq taken size, ?_⟩
    rw [← windowShell_eq]
  · intro alreadyHasRoot
    cases alreadyHasRoot with
    | false =>
        refine .inl (fillsSetting_of_shell (f := hostFacade) ⟨rfl, by decide, rfl⟩ parts.content
          sound_deviceHostShell fun doc same => ?_)
        subst same
        refine ⟨_, frameInPhone_host_eq taken, ?_⟩
        rw [← deviceHostShell_eq]
    | true =>
        cases rehosted : parts.rehosted? with
        | none =>
            refine .inr fun doc same => ?_
            subst same
            exact frameInPhone_rehost_error taken rehosted
        | some text =>
            refine .inl (fillsSetting_of_shell (f := rehostFacade) ⟨rfl, by decide, rfl⟩ text
              sound_deviceShell fun doc same => ?_)
            subst same
            refine ⟨_, frameInPhone_rehost_eq taken rehosted, ?_⟩
            rw [← deviceShell_eq]

/-- A page under a harmless path, and under one that holds a quote, a brace, the end of a comment, a
newline and a backslash. -/
theorem path_fills_literals_of_page :
    let t := "import QtQuick\nItem \x7b\x7d\n".toList
    let harmless : Document := ⟨"/a/Page.qml".toList, t, Time.epoch⟩
    let hostile : Document := ⟨"/a/\"\x7d*/\n\\".toList, t, Time.epoch⟩
    ∃ parts, decompose t = .ok parts ∧ ∃ (s : Setting) (g h : GeneratedDocument),
      s.KeepsLexing harmless.path harmless.displayName ∧
      s.KeepsLexing hostile.path hostile.displayName ∧
      wrapInWindow harmless {} = .ok g ∧ wrapInWindow hostile {} = .ok h ∧
      g.text = s.fill harmless.path harmless.displayName ∧
      h.text = s.fill hostile.path hostile.displayName := by
  intro t harmless hostile
  let parts : Parts :=
    { pragmas := [], imports := [.quick], contentStart := 15, content := "Item \x7b\x7d".toList
      rootType := "Item".toList, rootOpen := 5 }
  have taken : decompose t = .ok parts := decompose_of_toOption (by decide +kernel)
  have code : parts.HeaderEndsInCode := by decide
  obtain ⟨⟨s, _, lexed, fills⟩, _⟩ := path_fills_literals_iff taken {}
  obtain ⟨g, made, text⟩ := fills harmless rfl
  obtain ⟨h, made', text'⟩ := fills hostile rfl
  exact ⟨parts, taken, s, g, h, (lexed _ _).mpr code, (lexed _ _).mpr code, made, made', text, text'⟩

/-- A directory whose name holds a semicolon: the name is cut there, and what follows it opens a comment
in the header of the window. Under a harmless path no literal is left; a path that ends the comment
brings a window of its own. -/
theorem path_opens_window :
    let t := "import \"a; import b/*c\"\nItem \x7b\x7d\n".toList
    let harmless : Document := ⟨"/a/Page.qml".toList, t, Time.epoch⟩
    let hostile : Document := ⟨"/a/*/Window \x7b\x7d/*".toList, t, Time.epoch⟩
    ∃ g h, wrapInWindow harmless {} = .ok g ∧ wrapInWindow hostile {} = .ok h ∧
      (∀ x ∈ lex g.text, x.region.isLiteral = false) ∧
      harmless.present (scan t) .plain {} =
        .error (.wrapFailed harmless.path "generated document has no usable root".toList) ∧
      hostile.present (scan t) .plain {} = .ok (.generated h) := by
  intro t harmless hostile
  let parts : Parts :=
    { pragmas := []
      imports := [⟨"b/*c\"".toList, none, none, false, "import b/*c\"".toList⟩]
      contentStart := 24, content := "Item \x7b\x7d".toList
      rootType := "Item".toList, rootOpen := 5 }
  have taken : decompose t = .ok parts := decompose_of_toOption (by decide +kernel)
  have rootless : (scan t).hasUsableRoot = false := by decide +kernel
  have generated (doc : Document) (same : doc.text = t) : ¬ doc.IsShown .plain := by
    rintro ⟨_, usable⟩
    rw [same] at usable
    cases rootless.symm.trans usable
  have made := @wrapInWindow_eq harmless parts taken {}
  have made' := @wrapInWindow_eq hostile parts taken {}
  refine ⟨_, _, made, made', by decide +kernel, ?_, ?_⟩
  · have hidden : (scan (printed parts.repeated
        ((windowShell harmless {}).around parts.content).render)).hasUsableRoot = false := by
      decide +kernel
    refine (present_of_not_shown (generated harmless rfl) {}).trans ?_
    rw [Document.generate, made]
    simp only [bind, Except.bind, Loadable.ofGenerated, hidden, Bool.false_eq_true, if_false]
  · have brought : (scan (printed parts.repeated
        ((windowShell hostile {}).around parts.content).render)).hasUsableRoot = true := by
      decide +kernel
    refine (present_of_not_shown (generated hostile rfl) {}).trans ?_
    rw [Document.generate, made']
    simp only [bind, Except.bind, Loadable.ofGenerated, brought, if_true]

end QmlPreview
