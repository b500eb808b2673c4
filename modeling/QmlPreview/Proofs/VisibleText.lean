import QmlPreview.Proofs.Hosting
import QmlPreview.Proofs.PathLiterals

/-! What is left of a generated document without its blanks: the header, the window, and the content
once. Rendering an outline adds and drops blanks only. The lines of a block stay apart, and those that
begin inside a string literal stay as they are. -/

namespace QmlPreview

namespace Text

/-- The text without its blanks. -/
def visible (t : Text) : Text := t.filter fun c => !isBlank c

@[simp] theorem visible_nil : visible [] = [] := rfl

@[simp] theorem visible_append (s t : Text) : visible (s ++ t) = visible s ++ visible t :=
  List.filter_append s t

theorem visible_eq_nil {t : Text} (blank : ∀ c ∈ t, isBlank c = true) : visible t = [] := by
  apply List.filter_eq_nil_iff.mpr
  intro c hc
  rw [blank c hc]
  exact Bool.false_ne_true

theorem visible_eq_self {t : Text} (shown : ∀ c ∈ t, isBlank c = false) : visible t = t := by
  apply List.filter_eq_self.mpr
  intro c hc
  rw [shown c hc]
  rfl

theorem visible_trimEnd (t : Text) : visible (trimEnd t) = visible t := by
  obtain ⟨trail, blank, parts⟩ := exists_trimEnd t
  calc visible (trimEnd t) = visible (trimEnd t ++ trail) := by
        rw [visible_append, visible_eq_nil blank, List.append_nil]
    _ = visible t := by rw [← parts]

theorem visible_newline (s t : Text) : visible (s ++ '\n' :: t) = visible s ++ visible t :=
  visible_append s ('\n' :: t)

theorem lines_of_unbroken {line : Text} (unbroken : '\n' ∉ line) : lines line = [line] :=
  List.splitOn_eq_singleton unbroken

theorem flatMap_visible_lines (t : Text) : (lines t).flatMap visible = visible t := by
  induction t using lineRec with
  | last line unbroken =>
      rw [lines_of_unbroken unbroken, List.flatMap_singleton]
  | more line rest unbroken ih =>
      rw [Lexer.lines_append, lines_of_unbroken unbroken, List.flatMap_append, ih,
        List.flatMap_singleton, visible_newline]

/-- The text before a line, the first of which is number zero. -/
def beforeLine (t : Text) (i : Nat) : Text := ((lines t).take i).flatMap (· ++ ['\n'])

theorem visible_ofNat (n : Nat) : visible (ofNat n) = ofNat n := by
  apply visible_eq_self
  intro c hc
  exact ElementHead.isBlank_of_isDigit (isDigit_of_mem_ofNat hc)

end Text

open Text (visible lines beforeLine)
open Outline (indentation renderFrom)

/-! ### The lines of a block -/

namespace Lexer

/-- The lexer starts the text in state `s` and is inside a string literal where line `i` begins. -/
def beginsInLiteral (s : State) (t : Text) (i : Nat) : Bool :=
  (stateAfter s (beforeLine t i)).region.isLiteral

/-- A newline in a literal leaves the lexer in it, and any other one leaves it outside. -/
theorem isLiteral_endLine {s : State} (hs : s.Valid) :
    (endLine s).2.region.isLiteral = (endLine s).1.isLiteral := by
  obtain ⟨region, pending⟩ := s
  cases pending with
  | some r =>
      rcases hs.pending r rfl with ⟨rfl, _⟩ | ⟨rfl, code⟩
      · rfl
      · cases code
        rfl
  | none =>
      cases region with
      | code => rfl
      | lineComment => rfl
      | blockComment => rfl
      | literal q =>
          have quote := hs.isQuote q rfl
          have other : '\n' ≠ q := by
            rintro rfl
            cases quote
          simp only [endLine, step, Char.reduceEq, if_false, other]
          split <;> rfl

theorem visible_indentLine {indent : Text} (spaces : ∀ c ∈ indent, Text.isBlank c = true)
    (line : Text) (b : Bool) : visible (indentLine indent line b) = visible line := by
  unfold indentLine
  split
  · rfl
  · split
    · exact Text.visible_trimEnd line
    · rw [Text.visible_append, Text.visible_eq_nil spaces, List.nil_append, Text.visible_trimEnd]

theorem unbroken_indentLine {indent line : Text} (flat : '\n' ∉ indent) (unbroken : '\n' ∉ line)
    (b : Bool) : '\n' ∉ indentLine indent line b := by
  intro member
  unfold indentLine at member
  split at member
  · exact unbroken member
  · split at member
    · exact unbroken (Text.mem_of_mem_trimEnd member)
    · rcases List.mem_append.mp member with inIndent | inLine
      · exact flat inIndent
      · exact unbroken (Text.mem_of_mem_trimEnd inLine)

/-- The lines are those of the text, but for their blanks, and none is missing; those that begin
inside a literal stay as they are. -/
structure ShowsLines (s : State) (t : Text) (shown : List Text) : Prop where
  length : shown.length = (lines t).length
  visible : shown.map Text.visible = (lines t).map Text.visible
  inLiteral : ∀ i line, (lines t)[i]? = some line → beginsInLiteral s t i = true →
    shown[i]? = some line

theorem showsLines_line {indent : Text} (spaces : ∀ c ∈ indent, Text.isBlank c = true)
    (s : State) {line : Text} (unbroken : '\n' ∉ line) :
    ShowsLines s line [indentLine indent line s.region.isLiteral] := by
  constructor
  · rw [Text.lines_of_unbroken unbroken]
    rfl
  · rw [Text.lines_of_unbroken unbroken, List.map_singleton, List.map_singleton,
      visible_indentLine spaces]
  · intro i l first inside
    rw [Text.lines_of_unbroken unbroken] at first
    cases i with
    | succ i => cases first
    | zero =>
        cases first
        have start : s.region.isLiteral = true := inside
        rw [start]
        rfl

theorem ShowsLines.append {indent : Text} (spaces : ∀ c ∈ indent, Text.isBlank c = true)
    {s : State} {line rest : Text} {shown : List Text} (unbroken : '\n' ∉ line)
    (h : ShowsLines (endLine (stateAfter s line)).2 rest shown) :
    ShowsLines s (line ++ '\n' :: rest) (indentLine indent line s.region.isLiteral :: shown) := by
  have first := showsLines_line spaces s unbroken
  have all : lines (line ++ '\n' :: rest) = line :: lines rest := by
    rw [lines_append, Text.lines_of_unbroken unbroken]
    rfl
  constructor
  · rw [all, List.length_cons, List.length_cons, h.length]
  · rw [all, List.map_cons, List.map_cons, h.visible, visible_indentLine spaces]
  · intro i l found inside
    rw [all] at found
    cases i with
    | zero => exact first.inLiteral 0 l (by rwa [Text.lines_of_unbroken unbroken]) inside
    | succ i =>
        apply h.inLiteral i l found
        have before : beforeLine (line ++ '\n' :: rest) (i + 1) =
            line ++ '\n' :: beforeLine rest i := by
          rw [beforeLine, all, List.take_succ_cons, List.flatMap_cons, List.append_assoc]
          rfl
        rwa [beginsInLiteral, before, stateAfter_append s (apart_before_newline _ _),
          stateAfter_newline] at inside

theorem showsLines_reindentFrom {indent : Text} (spaces : ∀ c ∈ indent, Text.isBlank c = true)
    (flat : '\n' ∉ indent) {s : State} (hs : s.Valid) (t : Text) :
    ShowsLines s t (lines (reindentFrom s.region.isLiteral s t indent)) := by
  induction t using Text.lineRec generalizing s with
  | last line unbroken =>
      rw [reindentFrom_line _ s unbroken,
        Text.lines_of_unbroken (unbroken_indentLine flat unbroken _)]
      exact showsLines_line spaces s unbroken
  | more line rest unbroken ih =>
      have valid := valid_stateAfter hs line
      have later := ih (valid_endLine valid)
      rw [isLiteral_endLine valid] at later
      rw [reindentFrom_append, reindentFrom_line _ s unbroken, lines_append,
        Text.lines_of_unbroken (unbroken_indentLine flat unbroken _)]
      exact later.append spaces unbroken

theorem showsLines_reindent (t : Text) (depth : Nat) :
    ShowsLines {} t (lines (reindent t (indentation depth))) :=
  showsLines_reindentFrom (blank_indentation depth) (newline_indentation depth) valid_start t

end Lexer

open Lexer (ShowsLines)

/-- Without its blanks, the generated text is `before`, then the content and then `after`. The content is
shown line by line. -/
structure KeepsText (before content after generated : Text) : Prop where
  visible : generated.visible = before ++ (content.visible ++ after)
  lines : ∃ front shown back, lines generated = front ++ (shown ++ back) ∧
    front.flatMap Text.visible = before ∧ back.flatMap Text.visible = after ∧
    ShowsLines {} content shown

namespace Outline

theorem visible_lineAt (depth : Nat) (t : Text) : (lineAt depth t).visible = t.visible := by
  rw [lineAt, Text.visible_append, Text.visible_append,
    Text.visible_eq_nil (blank_indentation depth), List.nil_append]
  exact List.append_nil t.visible

def Item.visible : Item → Text
  | line text => text.visible
  | blank => []
  | property name value => name.visible ++ ':' :: value.visible
  | opening typeName => typeName.visible ++ ['\x7b']
  | closing => ['}']
  | block text => text.visible

theorem visible_reindent (t : Text) (depth : Nat) :
    (reindent t (indentation depth)).visible = t.visible := by
  have shown := (Lexer.showsLines_reindent t depth).visible
  rw [← Text.flatMap_visible_lines, ← Text.flatMap_visible_lines, List.flatMap_def, shown,
    ← List.flatMap_def]

theorem visible_render (depth : Nat) (item : Item) :
    (item.render depth).visible = item.visible := by
  cases item with
  | line text => exact visible_lineAt depth text
  | blank => rfl
  | property name value =>
      rw [Item.render, visible_lineAt, Text.visible_append, Text.visible_append, List.append_assoc]
      rfl
  | opening typeName =>
      rw [Item.render, visible_lineAt, Text.visible_append]
      rfl
  | closing => exact visible_lineAt (depth - 1) ['}']
  | block text =>
      rw [Item.render, Text.visible_append, visible_reindent]
      exact List.append_nil text.visible

/-- Rendering an outline adds blanks only. -/
theorem visible_renderFrom (depth : Nat) (o : Outline) :
    (renderFrom depth o).visible = o.flatMap Item.visible := by
  induction o generalizing depth with
  | nil => rfl
  | cons item o ih =>
      rw [renderFrom_cons, Text.visible_append, visible_render, ih, List.flatMap_cons]

theorem exists_renderFrom (depth : Nat) {o : Outline} (nonempty : o ≠ []) :
    ∃ t : Text, renderFrom depth o = t ++ ['\n'] := by
  obtain ⟨front, last, rfl⟩ := (List.eq_nil_or_concat o).resolve_left nonempty
  obtain ⟨t, line⟩ := exists_render (front.foldl Item.depthAfter depth) last
  refine ⟨renderFrom depth front ++ t, ?_⟩
  rw [List.concat_eq_append, renderFrom_append, renderFrom_cons, renderFrom_nil, List.append_nil,
    line, List.append_assoc]

theorem keepsText_render {before : Outline} (nonempty : before ≠ []) (content : Text)
    (after : Outline) : KeepsText (before.flatMap Item.visible) content (after.flatMap Item.visible)
      (before ++ .block content :: after).render := by
  constructor
  · rw [render, visible_renderFrom, List.flatMap_append, List.flatMap_cons]
    rfl
  · obtain ⟨front, line⟩ := exists_renderFrom 0 nonempty
    have shown := visible_renderFrom 0 before
    rw [line, Text.visible_newline, Text.visible_nil, List.append_nil] at shown
    let depth := before.foldl Item.depthAfter 0
    let later := (Item.block content).depthAfter depth
    refine ⟨lines front, _, lines (renderFrom later after), ?_, ?_, ?_,
      Lexer.showsLines_reindent content depth⟩
    · rw [render, renderFrom_append, renderFrom_cons, line, Item.render, List.append_assoc,
        List.append_assoc, List.singleton_append, List.singleton_append, Lexer.lines_append,
        Lexer.lines_append]
    · rw [Text.flatMap_visible_lines, shown]
    · rw [Text.flatMap_visible_lines, visible_renderFrom]

end Outline

/-! ### The windows -/

/-- The header that a generated document repeats and the import that it adds, without blanks. -/
def Parts.headerText (parts : Parts) : Text :=
  parts.pragmas.flatMap visible ++ (parts.imports.flatMap (·.raw.visible) ++
    if parts.importsUnqualified "QtQuick".toList then [] else "importQtQuick".toList)

/-- The title of a window: the file name of its source, or the whole path where that names no file. -/
def Path.title (path : Path) : Text := (Path.fileName? path).getD path

def preamble (front between back : Text) (path : Path) (title : Text) : Text :=
  "Window\x7b".toList ++ (front ++ ("propertystringfilename:".toList ++ (quoted path).visible ++
    (between ++ ("title:".toList ++ (quoted title).visible ++ back))))

def hostText : Text := "Item\x7bid:qmlviewHostanchors.fill:parent".toList

def windowPreamble (path : Path) (size : WindowSize) : Text :=
  preamble "id:qmlviewWindow".toList
    ("width:".toList ++ (Text.ofNat size.width.toNat ++ ("height:".toList ++
      (Text.ofNat size.height.toNat ++ "visible:true".toList))))
    hostText path path.title

def windowEnd : Text := "\x7d\x7d".toList

def phonePreamble (path : Path) : Text :=
  preamble "id:qmlviewDevice".toList
    ("width:380height:780minimumWidth:380minimumHeight:780".toList ++
      "maximumWidth:380maximumHeight:780visible:true".toList)
    ("color:\"#202124\"Rectangle\x7bid:qmlviewBezelanchors.fill:parentradius:44".toList ++
      ("color:\"#111111\"Rectangle\x7bid:qmlviewStatusBarx:16y:16width:348height:28".toList ++
      ("color:\"#000000\"Text\x7banchors.centerIn:parent".toList ++
      ("text:Qt.formatTime(newDate(),\"hh:mm\")color:\"#ffffff\"font.pixelSize:12\x7d\x7d".toList ++
      ("Item\x7bid:qmlviewScreenx:16y:44width:348height:692clip:true".toList ++ hostText)))))
    path (path.title ++ " - phone".toList)

def phoneEnd : Text :=
  "\x7d\x7dRectangle\x7bid:qmlviewHomeIndicatorx:130y:747width:120height:5radius:2.5".toList ++
    "color:\"#dddddd\"\x7d\x7d\x7d".toList

namespace Outline

theorem visible_ofHeader (parts : Parts) :
    (ofHeader parts requiredModules).flatMap Item.visible = parts.headerText := by
  have added : ((requiredModules.filter (fun m => !parts.importsUnqualified m)).map
      (fun m => Item.line ("import ".toList ++ m))).flatMap Item.visible =
        if parts.importsUnqualified "QtQuick".toList then [] else "importQtQuick".toList := by
    cases unqualified : parts.importsUnqualified "QtQuick".toList with
    | true =>
        simp only [requiredModules, List.filter_cons, unqualified, Bool.not_true,
          Bool.false_eq_true, if_false, List.filter_nil, List.map_nil, List.flatMap_nil, if_true]
    | false =>
        simp only [requiredModules, List.filter_cons, unqualified, Bool.not_false, if_true,
          List.filter_nil, List.map_cons, List.map_nil, Bool.false_eq_true, if_false]
        decide
  simp only [ofHeader, Parts.headerText, List.flatMap_append, List.flatMap_map, List.append_assoc,
    added]
  simp only [Item.visible, List.flatMap_cons, List.flatMap_nil, List.append_nil]

theorem visible_sourceProperty (path : Path) :
    (sourceProperty path).visible = "propertystringfilename:".toList ++ (quoted path).visible := by
  have name : visible "property string filename: ".toList = "propertystringfilename:".toList := by
    decide
  rw [sourceProperty, Item.visible, Text.visible_append, name]

theorem visible_title (title : Text) : (Item.property "title".toList (quoted title)).visible =
    "title:".toList ++ (quoted title).visible := by
  have name : visible "title".toList ++ [':'] = "title:".toList := by decide
  rw [Item.visible, ← name, List.append_assoc, List.singleton_append]

theorem visible_facade (f : Facade) (path title : Text) :
    (.opening windowType :: (f.shell path title).before).flatMap Item.visible =
      preamble (f.lead.flatMap Item.visible) (f.between.flatMap Item.visible)
        (f.rest.flatMap Item.visible) path title := by
  have window : (Item.opening windowType).visible = "Window\x7b".toList := by decide
  unfold preamble
  rw [Facade.shell, List.flatMap_cons, List.flatMap_append, List.flatMap_cons, List.flatMap_append,
    List.flatMap_cons, window, visible_sourceProperty, visible_title]

end Outline

theorem keepsText_shell (f : Facade) (path title : Text) (parts : Parts) (content : Text) :
    KeepsText (parts.headerText ++ preamble (f.lead.flatMap Outline.Item.visible)
        (f.between.flatMap Outline.Item.visible) (f.rest.flatMap Outline.Item.visible) path title)
      content ((f.after ++ [Outline.Item.closing]).flatMap Outline.Item.visible)
      (Outline.ofHeader parts requiredModules ++ (f.shell path title).around content).render := by
  have whole : Outline.ofHeader parts requiredModules ++ (f.shell path title).around content =
      (Outline.ofHeader parts requiredModules ++
        .opening windowType :: (f.shell path title).before) ++
          .block content :: (f.after ++ [.closing]) := by
    rw [Shell.around, List.append_assoc]
    rfl
  have nonempty : Outline.ofHeader parts requiredModules ++
      .opening windowType :: (f.shell path title).before ≠ [] :=
    List.append_ne_nil_of_right_ne_nil _ (List.cons_ne_nil _ _)
  have kept := Outline.keepsText_render nonempty content (f.after ++ [.closing])
  rwa [← whole, List.flatMap_append, Outline.visible_ofHeader, Outline.visible_facade] at kept

theorem preamble_windowFacade (path : Path) (size : WindowSize) :
    preamble ((windowFacade size).lead.flatMap Outline.Item.visible)
      ((windowFacade size).between.flatMap Outline.Item.visible)
      ((windowFacade size).rest.flatMap Outline.Item.visible) path path.title =
      windowPreamble path size := by
  have number (name : Text) (n : UInt32) : (Outline.numberProperty name n).visible =
      name.visible ++ ':' :: Text.ofNat n.toNat := by
    rw [Outline.numberProperty, Outline.Item.visible, Text.visible_ofNat]
  have between : (windowFacade size).between.flatMap Outline.Item.visible =
      "width:".toList ++ (Text.ofNat size.width.toNat ++ ("height:".toList ++
        (Text.ofNat size.height.toNat ++ "visible:true".toList))) := by
    simp only [windowFacade, List.flatMap_cons, List.flatMap_nil, number, List.append_assoc]
    rfl
  have rest : (Outline.Item.blank :: Outline.hostHead).flatMap Outline.Item.visible = hostText := by
    decide +kernel
  have lead : [Outline.Item.property "id".toList "qmlviewWindow".toList].flatMap
      Outline.Item.visible = "id:qmlviewWindow".toList := by decide
  rw [between, windowFacade, rest, lead, windowPreamble]

theorem preamble_hostFacade (path : Path) :
    preamble (hostFacade.lead.flatMap Outline.Item.visible)
      (hostFacade.between.flatMap Outline.Item.visible)
      (hostFacade.rest.flatMap Outline.Item.visible) path (path.title ++ " - phone".toList) =
      phonePreamble path := by
  have lead : hostFacade.lead.flatMap Outline.Item.visible = "id:qmlviewDevice".toList := by
    decide +kernel
  have between : hostFacade.between.flatMap Outline.Item.visible =
      "width:380height:780minimumWidth:380minimumHeight:780".toList ++
        "maximumWidth:380maximumHeight:780visible:true".toList := by decide +kernel
  have rest : hostFacade.rest.flatMap Outline.Item.visible =
      "color:\"#202124\"Rectangle\x7bid:qmlviewBezelanchors.fill:parentradius:44".toList ++
      ("color:\"#111111\"Rectangle\x7bid:qmlviewStatusBarx:16y:16width:348height:28".toList ++
      ("color:\"#000000\"Text\x7banchors.centerIn:parent".toList ++
      ("text:Qt.formatTime(newDate(),\"hh:mm\")color:\"#ffffff\"font.pixelSize:12\x7d\x7d".toList ++
      ("Item\x7bid:qmlviewScreenx:16y:44width:348height:692clip:true".toList ++ hostText)))) := by
    decide +kernel
  rw [lead, between, rest, phonePreamble]

/-- Wrapping a document changes blanks only. Without them the generated text is the header of the
source, a window that depends on the path and the size alone, the content and the end of the window;
and the content is shown line by line. -/
theorem wrapping_keeps_text {doc : Document} {parts : Parts}
    (taken : decompose doc.text = .ok parts) (size : WindowSize) :
    (∃ g, wrapInWindow doc size = .ok g ∧
      KeepsText (parts.headerText ++ windowPreamble doc.path size) parts.content windowEnd g.text) ∧
    ∃ g, frameInPhone doc false = .ok g ∧
      KeepsText (parts.headerText ++ phonePreamble doc.path) parts.content phoneEnd g.text := by
  refine ⟨⟨_, wrapInWindow_eq taken size, ?_⟩, _, frameInPhone_host_eq taken, ?_⟩
  · rw [← Outline.render_ofHeader, windowShell_eq, ← preamble_windowFacade]
    exact keepsText_shell (windowFacade size) doc.path doc.displayName parts parts.content
  · have ends : (hostFacade.after ++ [Outline.Item.closing]).flatMap Outline.Item.visible =
        phoneEnd := by decide +kernel
    rw [← Outline.render_ofHeader, deviceHostShell_eq, ← preamble_hostFacade, ← ends]
    exact keepsText_shell hostFacade doc.path doc.phoneTitle parts parts.content

/-- The second line of a template literal begins and ends with blanks. -/
theorem wrapping_keeps_template_lines :
    let doc : Document := ⟨"/a/Note.qml".toList,
      "pragma Singleton\n\nText \x7b\n\ttext: `a\n\t b \t\n` // \u00a0\n\x7d\n".toList, Time.epoch⟩
    ∃ parts, decompose doc.text = .ok parts ∧
      (∃ g, wrapInWindow doc {} = .ok g ∧
        KeepsText (parts.headerText ++ windowPreamble doc.path {}) parts.content windowEnd g.text) ∧
      ∃ g, frameInPhone doc false = .ok g ∧
        KeepsText (parts.headerText ++ phonePreamble doc.path) parts.content phoneEnd g.text := by
  intro doc
  let parts : Parts :=
    { pragmas := ["pragma Singleton".toList], imports := [], contentStart := 18
      content := "Text \x7b\n\ttext: `a\n\t b \t\n` // \u00a0\n\x7d".toList
      rootType := "Text".toList, rootOpen := 5 }
  have taken : decompose doc.text = .ok parts := decompose_of_toOption (by decide +kernel)
  exact ⟨parts, taken, wrapping_keeps_text taken {}⟩

end QmlPreview
