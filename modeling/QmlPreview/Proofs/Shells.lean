import QmlPreview.Proofs.Elements
import QmlPreview.Proofs.Outlines
import QmlPreview.Proofs.Reindenting
import QmlPreview.Wrap.Frame

/-! The windows that generated documents put around a block: quiet items before it and after it, which
leave its lines at a fixed brace depth. -/

namespace QmlPreview

open Lexer (stateAfter Apart Inert isIdle)
open Outline (levels renderFrom indentation)

/-- A window around a block, without its first and its last line. -/
structure Shell where
  before : Outline
  after : Outline
  /-- The depth of the block. -/
  depth : Nat

def windowType : Text := "Window".toList

theorem windowType_eq : windowType = "Window".toList := rfl

namespace Shell

def around (s : Shell) (text : Text) : Outline :=
  .opening windowType :: (s.before ++ .block text :: (s.after ++ [.closing]))

/-- The items are quiet, and lead to the block and from it back to the window. -/
structure Sound (s : Shell) : Prop where
  quietBefore : ∀ item ∈ s.before, item.IsQuiet
  quietAfter : ∀ item ∈ s.after, item.IsQuiet
  opens : levels 1 s.before = some s.depth
  closes : levels s.depth s.after = some 1

def head (s : Shell) : Text :=
  windowType ++ (' ' :: '\x7b' :: '\n' :: renderFrom 1 s.before)

def shown (s : Shell) (text : Text) : Text := reindent text (indentation s.depth)

def tail (s : Shell) : Text := '\n' :: renderFrom s.depth s.after ++ ['}']

def element (s : Shell) (text : Text) : Element where
  typeName := windowType
  gap := [' ']
  body := '\n' :: renderFrom 1 s.before ++ (s.shown text ++ '\n' :: renderFrom s.depth s.after)

theorem text_element (s : Shell) (text : Text) :
    (s.element text).text = s.head ++ (s.shown text ++ s.tail) := by
  simp only [Element.text, element, head, tail, List.append_assoc, List.cons_append,
    List.nil_append]

theorem apart_head (s : Shell) (t : Text) : Apart s.head t :=
  ((Outline.apart_renderFrom 1 s.before t).append_left (List.cons_ne_nil _ _)
    [' ', '\x7b']).append_left (List.cons_ne_nil _ _) windowType

section
variable {s : Shell} (h : s.Sound)
include h

theorem Sound.render_around (text : Text) :
    (s.around text).render = (s.element text).text ++ ['\n'] := by
  have opening : Outline.Item.render 0 (.opening windowType) =
      windowType ++ [' ', '\x7b', '\n'] := by decide
  have block : Outline.Item.render s.depth (.block text) = s.shown text ++ ['\n'] := rfl
  have closing : renderFrom 1 [.closing] = ['}', '\n'] := rfl
  rw [Outline.render, around, Outline.renderFrom_cons, opening, Outline.Item.depthAfter,
    Outline.renderFrom_append, Outline.foldl_depthAfter h.opens, Outline.renderFrom_cons, block,
    Outline.Item.depthAfter, Outline.renderFrom_append, Outline.foldl_depthAfter h.closes, closing,
    text_element, head, tail]
  simp only [List.append_assoc, List.cons_append, List.nil_append]

theorem Sound.nests_before : Nests 1 s.depth ('\n' :: renderFrom 1 s.before) :=
  (nests_of_inert Outline.inert_newline 1).append
    (Outline.nests_renderFrom h.quietBefore h.opens) (.inl (by decide))

theorem Sound.nests_after : Nests s.depth 1 ('\n' :: renderFrom s.depth s.after) :=
  (nests_of_inert Outline.inert_newline s.depth).append
    (Outline.nests_renderFrom h.quietAfter h.closes) (.inl (by decide))

theorem Sound.nests_head : Nests 0 s.depth s.head := by
  have name : Nests 0 0 windowType := nests_of_inert (Lexer.inert_of_idle (by decide)) 0
  have opened : Nests 0 1 [' ', '\x7b'] := ⟨rfl, rfl⟩
  exact name.append (opened.append h.nests_before (.inl (by decide))) (.inl (by decide))

variable {text : Text} (nests : Nests s.depth s.depth (s.shown text))
include nests

/-- A shown text that keeps the depth of its lines makes the window a sound element. -/
theorem Sound.sound_element : (s.element text).Sound := by
  have inside : Nests 1 1 (s.element text).body :=
    h.nests_before.append (nests.append h.nests_after (Lexer.apart_before_newline _ _))
      (Outline.apart_renderFrom 1 s.before _)
  have isTypeName : ElementHead.isTypeName windowType = true := by decide
  have nameChars : ∀ c ∈ windowType, ElementHead.isNameChar c = true := by decide
  have gapBlank : ∀ c ∈ maskComments [' '], Text.isBlank c = true := by decide
  exact ⟨isTypeName, nameChars, gapBlank, rfl, inside.depth, inside.ends⟩

theorem Sound.lex_element :
    lex (s.element text).text = lex s.head ++ (lex (s.shown text) ++ lex s.tail) := by
  have apart : Apart (s.shown text) s.tail := Lexer.apart_before_newline _ _
  rw [text_element, h.nests_head.lex_append (s.apart_head _), nests.lex_append apart]

end

end Shell

namespace Outline

def hostHead : Outline :=
  [.opening "Item".toList, .property "id".toList "qmlviewHost".toList,
    .property "anchors.fill".toList "parent".toList, .blank]

theorem host_eq (content : Text) : host content = hostHead ++ [.block content, .closing] := rfl

def windowHead (doc : Document) (size : WindowSize) : Outline :=
  [.property "id".toList "qmlviewWindow".toList, sourceProperty doc.path,
    numberProperty "width".toList size.width, numberProperty "height".toList size.height,
    .property "visible".toList "true".toList, .property "title".toList (quoted doc.displayName),
    .blank]

end Outline

def windowShell (doc : Document) (size : WindowSize) : Shell where
  before := Outline.windowHead doc size ++ Outline.hostHead
  after := [.closing]
  depth := 2

def deviceShell (doc : Document) : Shell where
  before := (Outline.deviceHead doc .phone).tail
  after := [.closing, .blank] ++ Outline.homeIndicator .phone ++ [.closing]
  depth := 3

def deviceHostShell (doc : Document) : Shell where
  before := (deviceShell doc).before ++ Outline.hostHead
  after := .closing :: (deviceShell doc).after
  depth := 4

namespace Outline

theorem window_eq (doc : Document) (size : WindowSize) (parts : Parts) :
    window doc size parts =
      ofHeader parts requiredModules ++ (windowShell doc size).around parts.content := by
  simp only [window, windowShell, Shell.around, windowType_eq, windowHead, host_eq, List.append_assoc,
    List.cons_append, List.nil_append]

theorem deviceHead_append (doc : Document) (o : Outline) : deviceHead doc .phone ++ o =
    .opening windowType :: ((deviceHead doc .phone).tail ++ o) := rfl

theorem device_block_eq (doc : Document) (parts : Parts) (text : Text) :
    device doc .phone parts [.block text] =
      ofHeader parts requiredModules ++ (deviceShell doc).around text := by
  simp only [device, deviceTail, deviceShell, Shell.around, deviceHead_append, List.append_assoc,
    List.cons_append, List.nil_append]

theorem device_host_eq (doc : Document) (parts : Parts) :
    device doc .phone parts (host parts.content) =
      ofHeader parts requiredModules ++ (deviceHostShell doc).around parts.content := by
  simp only [device, deviceTail, host_eq, deviceHostShell, deviceShell, Shell.around,
    deviceHead_append, List.append_assoc, List.cons_append, List.nil_append]

theorem quiet_constant {name value : Text} (idle : ∀ c ∈ name, isIdle c = true)
    (idle' : ∀ c ∈ value, isIdle c = true) : (Item.property name value).IsQuiet :=
  quiet_property idle (Lexer.inert_of_idle idle')

theorem quiet_hostHead : ∀ item ∈ hostHead, item.IsQuiet := by
  simp only [hostHead, List.forall_mem_cons]
  exact ⟨quiet_opening (by decide), quiet_constant (by decide) (by decide),
    quiet_constant (by decide) (by decide), trivial, nofun⟩

theorem quiet_windowHead (doc : Document) (size : WindowSize) :
    ∀ item ∈ windowHead doc size, item.IsQuiet := by
  simp only [windowHead, List.forall_mem_cons]
  exact ⟨quiet_constant (by decide) (by decide), quiet_source _, quiet_number (by decide) _,
    quiet_number (by decide) _, quiet_constant (by decide) (by decide),
    quiet_quoted (by decide) _, trivial, nofun⟩

theorem quiet_geometry (r : Rectangle) : ∀ item ∈ geometry r, item.IsQuiet := by
  simp only [geometry, List.forall_mem_cons]
  exact ⟨quiet_number (by decide) _, quiet_number (by decide) _, quiet_number (by decide) _,
    quiet_number (by decide) _, nofun⟩

theorem quiet_color (value : String) : (color value).IsQuiet := quiet_quoted (by decide) _

theorem quiet_statusBar (d : DeviceFrame) : ∀ item ∈ statusBar d, item.IsQuiet := by
  have clock : Inert "Qt.formatTime(new Date(), \"hh:mm\")".toList :=
    ⟨⟨by decide, by decide⟩, by decide⟩
  refine List.forall_mem_append.mpr ⟨List.forall_mem_append.mpr ⟨?_, quiet_geometry _⟩, ?_⟩
  · simp only [List.forall_mem_cons]
    exact ⟨quiet_opening (by decide), quiet_constant (by decide) (by decide), nofun⟩
  · simp only [List.forall_mem_cons]
    exact ⟨quiet_color _, quiet_opening (by decide), quiet_constant (by decide) (by decide),
      quiet_property (by decide) clock, quiet_color _, quiet_constant (by decide) (by decide),
      trivial, trivial, trivial, nofun⟩

theorem inert_half (n : UInt32) : Inert (half n) := by
  refine Lexer.inert_of_idle ?_
  refine List.forall_mem_append.mpr ⟨fun _ hc => isIdle_of_mem_ofNat hc, ?_⟩
  split
  · decide
  · exact nofun

theorem quiet_homeIndicator (d : DeviceFrame) : ∀ item ∈ homeIndicator d, item.IsQuiet := by
  refine List.forall_mem_append.mpr ⟨List.forall_mem_append.mpr ⟨?_, quiet_geometry _⟩, ?_⟩
  · simp only [List.forall_mem_cons]
    exact ⟨quiet_opening (by decide), quiet_constant (by decide) (by decide), nofun⟩
  · simp only [List.forall_mem_cons]
    exact ⟨quiet_property (by decide) (inert_half _), quiet_color _, trivial, nofun⟩

theorem quiet_deviceHead (doc : Document) (d : DeviceFrame) :
    ∀ item ∈ deviceHead doc d, item.IsQuiet := by
  simp only [deviceHead, List.forall_mem_append]
  refine ⟨⟨⟨⟨?_, quiet_statusBar d⟩, ?_⟩, quiet_geometry _⟩, ?_⟩
  · simp only [List.forall_mem_cons]
    exact ⟨quiet_opening (by decide), quiet_constant (by decide) (by decide), quiet_source _,
      quiet_number (by decide) _, quiet_number (by decide) _, quiet_number (by decide) _,
      quiet_number (by decide) _, quiet_number (by decide) _, quiet_number (by decide) _,
      quiet_constant (by decide) (by decide), quiet_quoted (by decide) _, quiet_color _, trivial,
      quiet_opening (by decide), quiet_constant (by decide) (by decide),
      quiet_constant (by decide) (by decide), quiet_number (by decide) _, quiet_color _, trivial,
      nofun⟩
  · simp only [List.forall_mem_cons]
    exact ⟨quiet_opening (by decide), quiet_constant (by decide) (by decide), nofun⟩
  · simp only [List.forall_mem_cons]
    exact ⟨quiet_constant (by decide) (by decide), trivial, nofun⟩

end Outline

theorem sound_windowShell (doc : Document) (size : WindowSize) : (windowShell doc size).Sound where
  quietBefore := List.forall_mem_append.mpr
    ⟨Outline.quiet_windowHead doc size, Outline.quiet_hostHead⟩
  quietAfter := by simp only [windowShell, List.forall_mem_singleton, Outline.Item.IsQuiet]
  opens := rfl
  closes := rfl

theorem sound_deviceShell (doc : Document) : (deviceShell doc).Sound where
  quietBefore := fun item hi => Outline.quiet_deviceHead doc .phone item (List.mem_of_mem_tail hi)
  quietAfter := by
    simp only [deviceShell, List.forall_mem_append, List.forall_mem_cons]
    exact ⟨⟨⟨trivial, trivial, nofun⟩, Outline.quiet_homeIndicator _⟩, trivial, nofun⟩
  opens := rfl
  closes := rfl

theorem sound_deviceHostShell (doc : Document) : (deviceHostShell doc).Sound where
  quietBefore := List.forall_mem_append.mpr
    ⟨(sound_deviceShell doc).quietBefore, Outline.quiet_hostHead⟩
  quietAfter := List.forall_mem_cons.mpr ⟨trivial, (sound_deviceShell doc).quietAfter⟩
  opens := rfl
  closes := rfl

end QmlPreview
