import QmlPreview.Proofs.Generated

/-! The header of a generated document. The statements of the source are cut from a masked text, where
semicolons separate them as well as newlines; they are printed one a line, pragmas first, and scanned
in the generated text. Closed statements survive that, whatever stands around them. -/

namespace QmlPreview

/-- Scanned again, a generated text has a window as its root and the facts and the header of its
source, with the import that every generated text needs. -/
structure RepeatsHeader (source : Text) (parts : Parts) (generated : Text) : Prop where
  rootType : (scan generated).rootType = some "Window".toList
  hasUsableRoot : (scan generated).hasUsableRoot = true
  style : (scan generated).style = (scan source).style
  usesCharts : (scan generated).usesCharts = (scan source).usesCharts
  pragmas : (Header.ofMasked (maskComments generated)).pragmas = parts.pragmas
  imports : (Header.ofMasked (maskComments generated)).imports =
    parts.imports ++ if parts.importsUnqualified "QtQuick".toList then [] else [.quick]

namespace Facts

theorem styleOf_addedImports (parts : Parts) (is : List Import) :
    styleOf (is ++ parts.addedImports) = styleOf is := by
  have none : styleOf parts.addedImports = none := by
    unfold Parts.addedImports
    split
    · rfl
    · decide
  unfold styleOf at none ⊢
  rw [List.filter_append, List.findSome?_append, none, Option.or_none]

theorem importsCharts_addedImports (parts : Parts) (is : List Import) :
    importsCharts (is ++ parts.addedImports) = importsCharts is := by
  have none : importsCharts parts.addedImports = false := by
    unfold Parts.addedImports
    split
    · rfl
    · decide
  unfold importsCharts at none ⊢
  rw [List.any_append, none, Bool.or_false]

end Facts

theorem Shell.Sound.parse?_around {s : Shell} (h : s.Sound) (text : Text) :
    ElementHead.parse? (maskComments (s.around text).render) = some ⟨windowType, 7⟩ := by
  have plain : Lexer.Closed windowFront := Lexer.closed_of_plain (by decide)
  obtain ⟨rest, render⟩ := h.exists_render text
  rw [render, plain.maskComments_append (.inl (by decide))]
  exact ElementHead.parse?_append parse?_windowFront _

section
variable {t : Text} {parts : Parts} (taken : decompose t = .ok parts)
  (closed : parts.toHeader.IsClosed)
include taken closed

theorem repeatsHeader_around {s : Shell} (h : s.Sound) (text : Text) :
    RepeatsHeader t parts (printed parts.repeated (s.around text).render) := by
  obtain ⟨header, facts⟩ := scan_printed (wellFormed_repeated taken) closed.closed_repeated
    (h.parse?_around text) windowType_ne_spelling
  have source : scan t = Facts.ofParts parts.imports (scan t).rootType := by
    rw [scan, ← toHeader_of_decompose taken]
    rfl
  have usable : isContainer (ElementHead.unqualified windowType) = true := by decide
  rw [ofStatements_repeated taken] at header facts
  refine ⟨?_, ?_, ?_, ?_, ?_, ?_⟩
  · rw [facts]
    rfl
  · rw [facts]
    exact usable
  · rw [facts, source]
    exact Facts.styleOf_addedImports parts parts.imports
  · rw [facts, source]
    exact Facts.importsCharts_addedImports parts parts.imports
  · rw [header]
  · rw [header]
    rfl

end

/-- Wrapping a document preserves its header: in a window, in the phone as hosted content, and in the
phone as a re-hosted root. -/
theorem wrapping_preserves_header {doc : Document} {parts : Parts}
    (taken : decompose doc.text = .ok parts) (closed : parts.toHeader.IsClosed)
    (size : WindowSize) :
    (∃ g, wrapInWindow doc size = .ok g ∧ RepeatsHeader doc.text parts g.text) ∧
      (∃ g, frameInPhone doc false = .ok g ∧ RepeatsHeader doc.text parts g.text) ∧
      ∀ g, frameInPhone doc true = .ok g → RepeatsHeader doc.text parts g.text := by
  refine ⟨⟨_, wrapInWindow_eq taken size, ?_⟩, ⟨_, frameInPhone_host_eq taken, ?_⟩, ?_⟩
  · exact repeatsHeader_around taken closed (sound_windowShell doc size) parts.content
  · exact repeatsHeader_around taken closed (sound_deviceHostShell doc) parts.content
  · intro g framed
    cases rehosted : parts.rehosted? with
    | none =>
        rw [frameInPhone, decompose_document taken] at framed
        simp only [bind, Except.bind, shownContent, rehosted, if_true] at framed
        cases framed
    | some text =>
        rw [frameInPhone_rehost_eq taken rehosted] at framed
        cases framed
        exact repeatsHeader_around taken closed (sound_deviceShell doc) text

/-- A pragma and an import that selects a style, on one line. -/
theorem wrapping_preserves_styled_header :
    let doc : Document := ⟨"/a/Page.qml".toList,
      "pragma Singleton; import QtQuick.Controls.Material 2.15\nItem {}\n".toList, Time.epoch⟩
    ∃ parts, decompose doc.text = .ok parts ∧ parts.toHeader.IsClosed ∧
      (∃ g, wrapInWindow doc {} = .ok g ∧ RepeatsHeader doc.text parts g.text) ∧
      (∃ g, frameInPhone doc false = .ok g ∧ RepeatsHeader doc.text parts g.text) ∧
      ∀ g, frameInPhone doc true = .ok g → RepeatsHeader doc.text parts g.text := by
  intro doc
  let parts : Parts :=
    { pragmas := ["pragma Singleton".toList]
      imports := [⟨"QtQuick.Controls.Material".toList, some "2.15".toList, none, false,
        "import QtQuick.Controls.Material 2.15".toList⟩]
      contentStart := 56, content := "Item {}".toList, rootType := "Item".toList, rootOpen := 5 }
  have taken : decompose doc.text = .ok parts := decompose_of_toOption (by decide +kernel)
  have closed : parts.toHeader.IsClosed :=
    ⟨List.forall_mem_singleton.mpr ⟨by decide, by decide⟩,
      List.forall_mem_singleton.mpr ⟨by decide, by decide⟩⟩
  exact ⟨parts, taken, closed, wrapping_preserves_header taken closed {}⟩

end QmlPreview
