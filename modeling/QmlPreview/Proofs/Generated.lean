import QmlPreview.Proofs.Printing
import QmlPreview.Proofs.Shells

/-! Generated documents: the statements that repeat the header of the source, an empty line, and the
window. -/

namespace QmlPreview

open Lexer (Closed)

def Import.quick : Import where
  target := "QtQuick".toList
  version := none
  qualifier := none
  isPath := false
  raw := "import QtQuick".toList

theorem windowType_ne_spelling (k : Keyword) : windowType ≠ k.spelling := by
  cases k <;> decide

def windowFront : Text := windowType ++ [' ', '\x7b']

theorem parse?_windowFront : ElementHead.parse? windowFront = some ⟨windowType, 7⟩ := by decide

theorem Shell.Sound.exists_render {s : Shell} (h : s.Sound) (text : Text) :
    ∃ rest, (s.around text).render = windowFront ++ rest := by
  refine ⟨'\n' :: Outline.renderFrom 1 s.before ++ (s.shown text ++ (s.tail ++ ['\n'])), ?_⟩
  rw [h.render_around, Shell.text_element, Shell.head, windowFront]
  simp only [List.append_assoc, List.cons_append, List.nil_append]

/-- Every statement that a header retains is lexically closed. -/
structure Header.IsClosed (h : Header) : Prop where
  pragmas : ∀ t ∈ h.pragmas, Closed t
  imports : ∀ i ∈ h.imports, Closed i.raw

namespace Parts

def addedImports (parts : Parts) : List Import :=
  if parts.importsUnqualified "QtQuick".toList then [] else [.quick]

/-- The statements that a generated document starts with. -/
def repeated (parts : Parts) : List Statement :=
  parts.toHeader.statements ++ parts.addedImports.map (fun i => ⟨.«import», i.raw⟩)

theorem addedImports_quick {parts : Parts} {i : Import} (h : i ∈ parts.addedImports) :
    i = .quick := by
  unfold addedImports at h
  split at h
  · cases h
  · exact List.mem_singleton.mp h

end Parts

theorem Import.parse?_quick : Import.parse? Import.quick.raw = some .quick := by decide

theorem Statement.wellFormed_quick : Statement.WellFormed ⟨.«import», Import.quick.raw⟩ where
  spelled := ⟨" QtQuick".toList, by decide, by decide⟩
  noEnd := by decide
  endsVisible := by
    intro c hc
    have last : Import.quick.raw.getLast? = some 'k' := by decide
    cases last.symm.trans hc
    rfl

namespace Outline

theorem renderFrom_lines (texts : List Text) (o : Outline) :
    renderFrom 0 (texts.map .line ++ o) = texts.flatMap (· ++ ['\n']) ++ renderFrom 0 o := by
  induction texts with
  | nil => rfl
  | cons t texts ih =>
      have line : Item.render 0 (.line t) = t ++ ['\n'] := rfl
      rw [List.map_cons, List.cons_append, renderFrom_cons, line, Item.depthAfter, ih,
        List.flatMap_cons, List.append_assoc, List.append_assoc, List.append_assoc]

theorem ofHeader_eq (parts : Parts) : ofHeader parts requiredModules =
    (parts.repeated.map (·.text)).map .line ++ [.blank] := by
  have added : (requiredModules.filter (fun m => !parts.importsUnqualified m)).map
      (fun m => Item.line ("import ".toList ++ m)) =
        parts.addedImports.map (fun i => Item.line i.raw) := by
    unfold Parts.addedImports
    cases unqualified : parts.importsUnqualified "QtQuick".toList with
    | true => simp only [requiredModules, List.filter_cons, unqualified, Bool.not_true,
        Bool.false_eq_true, if_false, List.filter_nil, List.map_nil, if_true]
    | false =>
        have raw : "import ".toList ++ "QtQuick".toList = Import.quick.raw := by decide
        simp only [requiredModules, List.filter_cons, unqualified, Bool.not_false, if_true,
          List.filter_nil, List.map_cons, List.map_nil, Bool.false_eq_true, if_false, raw]
  rw [ofHeader, added]
  simp only [Parts.repeated, Header.statements, List.map_append, List.map_map, List.append_assoc]
  rfl

/-- An outline under a repeated header is a printed document. -/
theorem render_ofHeader (parts : Parts) (o : Outline) :
    (ofHeader parts requiredModules ++ o).render = printed parts.repeated o.render := by
  have blank : renderFrom 0 ([.blank] ++ o) = '\n' :: renderFrom 0 o := rfl
  rw [render, ofHeader_eq, List.append_assoc, renderFrom_lines, blank, List.flatMap_map]
  rfl

end Outline

theorem Statement.closed_lines {ss : List Statement} (h : ∀ s ∈ ss, Closed s.text) :
    Closed (Statement.lines ss) := by
  induction ss with
  | nil => exact Lexer.inert_nil.toClosed
  | cons s ss ih =>
      rw [List.forall_mem_cons] at h
      have line : Closed (s.text ++ ['\n']) :=
        h.1.append (Lexer.closed_of_plain (by decide)) (.inr (by decide))
      exact line.append (ih h.2) (Lexer.apart_newline _ _)

section
variable {t : Text} {parts : Parts} (taken : decompose t = .ok parts)
include taken

theorem toHeader_of_decompose : parts.toHeader = Header.ofMasked (maskComments t) := by
  obtain ⟨_, _, _, rfl⟩ := decompose_eq_ok_iff.mp taken
  rfl

theorem exists_statements : ∃ ss n, (∀ s ∈ ss, Statement.WellFormed s) ∧
    parts.toHeader = Header.ofStatements ss n :=
  ⟨_, _, fun _ hs => Statement.wellFormed_of_mem_readAll hs, toHeader_of_decompose taken⟩

theorem wellFormed_repeated : ∀ s ∈ parts.repeated, s.WellFormed := by
  obtain ⟨ss, n, wellFormed, header⟩ := exists_statements taken
  refine List.forall_mem_append.mpr ⟨?_, ?_⟩
  · rw [header]
    exact Header.wellFormed_statements wellFormed n
  · intro s hs
    obtain ⟨i, hi, rfl⟩ := List.mem_map.mp hs
    rw [Parts.addedImports_quick hi]
    exact Statement.wellFormed_quick

/-- What is read from the repeated statements: the header of the source, and the added imports. -/
theorem ofStatements_repeated (n : Nat) : Header.ofStatements parts.repeated n =
    ⟨parts.pragmas, parts.imports ++ parts.addedImports, n⟩ := by
  obtain ⟨ss, m, wellFormed, header⟩ := exists_statements taken
  have added : ∀ i ∈ parts.addedImports, Import.parse? i.raw = some i := by
    intro i hi
    rw [Parts.addedImports_quick hi]
    exact Import.parse?_quick
  rw [Parts.repeated, header]
  exact Header.ofStatements_statements wellFormed m parts.addedImports n added

end

theorem Header.IsClosed.closed_repeated {parts : Parts} (h : parts.toHeader.IsClosed) :
    Closed (Statement.lines parts.repeated) := by
  refine Statement.closed_lines (List.forall_mem_append.mpr ⟨List.forall_mem_append.mpr ⟨?_, ?_⟩, ?_⟩)
  · intro s hs
    obtain ⟨t, ht, rfl⟩ := List.mem_map.mp hs
    exact h.pragmas t ht
  · intro s hs
    obtain ⟨i, hi, rfl⟩ := List.mem_map.mp hs
    exact h.imports i hi
  · intro s hs
    obtain ⟨i, hi, rfl⟩ := List.mem_map.mp hs
    rw [Parts.addedImports_quick hi]
    exact Lexer.closed_of_plain (by decide)

section
variable {doc : Document} {parts : Parts} (taken : decompose doc.text = .ok parts)
include taken

theorem decompose_document : doc.decompose = .ok parts := by
  rw [Document.decompose, taken]
  rfl

theorem wrapInWindow_eq (size : WindowSize) : wrapInWindow doc size = .ok
    { text := printed parts.repeated ((windowShell doc size).around parts.content).render
      locator := .directory doc.directory, kind := .window, source := doc.path } := by
  rw [← Outline.render_ofHeader, ← Outline.window_eq, wrapInWindow, decompose_document taken]
  rfl

theorem frameInPhone_host_eq : frameInPhone doc false = .ok
    { text := printed parts.repeated ((deviceHostShell doc).around parts.content).render
      locator := .directory doc.directory, kind := .frame, source := doc.path } := by
  rw [← Outline.render_ofHeader, ← Outline.device_host_eq, frameInPhone,
    decompose_document taken]
  rfl

theorem frameInPhone_rehost_eq {text : Text} (rehosted : parts.rehosted? = some text) :
    frameInPhone doc true = .ok
      { text := printed parts.repeated ((deviceShell doc).around text).render
        locator := .directory doc.directory, kind := .frame, source := doc.path } := by
  have shown : shownContent doc true parts = .ok [.block text] := by
    rw [shownContent, rehosted]
    rfl
  rw [← Outline.render_ofHeader, ← Outline.device_block_eq, frameInPhone,
    decompose_document taken]
  simp only [bind, Except.bind, shown]
  rfl

theorem frameInPhone_rehost_error (none : parts.rehosted? = none) :
    ∃ e, frameInPhone doc true = .error e := by
  rw [frameInPhone, decompose_document taken]
  simp only [bind, Except.bind, shownContent, none, if_true]
  exact ⟨_, rfl⟩

end

end QmlPreview
