import QmlPreview.Proofs.Presenting
import QmlPreview.Proofs.SingleElements

/-! Scanning a document and taking it apart agree: they read one header and one head, so the scanned
flag tells a root that can be re-hosted from one that has to be hosted. -/

namespace QmlPreview

theorem scan_of_decompose {t : Text} {parts : Parts} (taken : decompose t = .ok parts) :
    scan t = Facts.ofParts parts.imports (some parts.rootType) := by
  rw [← rootType_of_decompose taken]
  obtain ⟨h, _, _, rfl⟩ := decompose_eq_ok_iff.mp taken
  rfl

theorem braceFault_cases (content : Text) : braceFault content = none ∨
    braceFault content = some .unbalancedBraces ∨ braceFault content = some .textAfterRoot := by
  unfold braceFault
  split
  · split
    · exact .inr (.inr rfl)
    · exact .inl rfl
  · exact .inr (.inl rfl)

/-- No root is found by scanning exactly if taking the text apart finds no head. -/
theorem rootType_eq_none_iff {t : Text} : (scan t).rootType = none ↔
    decompose t = .error .noContent ∨ decompose t = .error .notAnElement := by
  rw [rootType_scan, firstHead_maskComments, Option.map_eq_none_iff]
  cases parsed : ElementHead.parse? (maskedContent t) with
  | none =>
      rw [decompose_of_no_head parsed]
      refine ⟨fun _ => ?_, fun _ => rfl⟩
      split
      · exact .inl rfl
      · exact .inr rfl
  | some h =>
      rw [decompose_eq_error_iff_of_head parsed, decompose_eq_error_iff_of_head parsed]
      constructor
      · exact nofun
      · rcases braceFault_cases (rawContent t) with fault | fault | fault
        all_goals
          rw [fault]
          rintro (refused | refused)
          all_goals cases refused

theorem frameInPhone_eq_error_iff {doc : Document} {e : Error} :
    frameInPhone doc (scan doc.text).hasUsableRoot = .error e ↔ doc.decompose = .error e := by
  have generated : doc.generate .phone {} = frameInPhone doc (scan doc.text).hasUsableRoot := rfl
  rw [← generated]
  cases found : decompose doc.text with
  | error m =>
      rw [generate_of_error found, Document.decompose_eq_error_iff.mpr ⟨m, found, rfl⟩,
        Except.error.injEq, Except.error.injEq]
  | ok parts =>
      obtain ⟨g, _, made, _⟩ := exists_generate found .phone {}
      rw [made, Document.decompose_eq_ok_iff.mpr found]
      exact ⟨nofun, nofun⟩

/-- What is scanned of a document is what it is taken apart into, and framing it by the scanned flag
fails only where it cannot be taken apart. -/
theorem scanning_agrees (doc : Document) :
    (∀ parts, doc.decompose = .ok parts →
      (scan doc.text).rootType = some parts.rootType ∧
      ((scan doc.text).hasUsableRoot = true ↔ isContainer parts.rootKind = true) ∧
      (scan doc.text).style = Facts.styleOf parts.imports ∧
      (scan doc.text).usesCharts = Facts.importsCharts parts.imports) ∧
    ((scan doc.text).rootType = none ↔
      decompose doc.text = .error .noContent ∨ decompose doc.text = .error .notAnElement) ∧
    (∀ e, frameInPhone doc (scan doc.text).hasUsableRoot = .error e ↔ doc.decompose = .error e) ∧
    ∀ path reason,
      frameInPhone doc (scan doc.text).hasUsableRoot ≠ .error (.wrapFailed path reason) := by
  refine ⟨?_, rootType_eq_none_iff, fun e => frameInPhone_eq_error_iff, ?_⟩
  · intro parts taken
    rw [scan_of_decompose (Document.decompose_eq_ok_iff.mp taken)]
    exact ⟨rfl, Iff.rfl, rfl, rfl⟩
  · intro path reason failed
    obtain ⟨m, _, malformed⟩ :=
      Document.decompose_eq_error_iff.mp (frameInPhone_eq_error_iff.mp failed)
    cases malformed

/-- A qualified root that opens a window of its own, under an import that selects a style. -/
theorem scanning_agrees_on_qualified_root :
    let doc : Document := ⟨"/a/Main.qml".toList,
      "import QtQuick.Controls.Fusion as C\nC.ApplicationWindow \x7b\x7d // done\n".toList, Time.epoch⟩
    ∃ parts, doc.decompose = .ok parts ∧
      (scan doc.text).rootType = some parts.rootType ∧
      ((scan doc.text).hasUsableRoot = true ↔ isContainer parts.rootKind = true) ∧
      (scan doc.text).style = Facts.styleOf parts.imports ∧
      (scan doc.text).usesCharts = Facts.importsCharts parts.imports := by
  intro doc
  obtain ⟨facts, _⟩ := scanning_agrees doc
  let parts : Parts :=
    { pragmas := []
      imports := [⟨"QtQuick.Controls.Fusion".toList, none, some "C".toList, false,
        "import QtQuick.Controls.Fusion as C".toList⟩]
      contentStart := 36, content := "C.ApplicationWindow \x7b\x7d".toList
      rootType := "C.ApplicationWindow".toList, rootOpen := 20 }
  have taken : doc.decompose = .ok parts :=
    Document.decompose_eq_ok_iff.mpr (decompose_of_toOption (by decide +kernel))
  exact ⟨parts, taken, facts parts taken⟩

end QmlPreview
