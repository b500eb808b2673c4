import QmlPreview.Proofs.Generated
import QmlPreview.Proofs.Rereading
import QmlPreview.Wrap.Presentation

/-! Presenting a document with its own facts: it is shown as it is, it is malformed, or a window is
generated from it. The window has a usable root unless a comment of the header that is printed before
it runs over the end of a line. -/

namespace QmlPreview

/-- The document is shown without a window generated from it. -/
def Document.IsShown (doc : Document) (layout : Layout) : Prop :=
  layout = .plain ∧ (scan doc.text).hasUsableRoot = true

def Document.generate (doc : Document) (layout : Layout) (size : WindowSize) :
    Except Error GeneratedDocument :=
  match layout with
  | .plain => wrapInWindow doc size
  | .phone => frameInPhone doc (scan doc.text).hasUsableRoot

theorem present_of_shown {doc : Document} {layout : Layout} (shown : doc.IsShown layout)
    (size : WindowSize) : doc.present (scan doc.text) layout size = .ok (.source doc) := by
  obtain ⟨rfl, usable⟩ := shown
  simp only [Document.present, usable, if_true]

theorem present_of_not_shown {doc : Document} {layout : Layout} (generated : ¬ doc.IsShown layout)
    (size : WindowSize) : doc.present (scan doc.text) layout size =
      doc.generate layout size >>= Loadable.ofGenerated doc := by
  cases layout with
  | phone => rfl
  | plain =>
      cases usable : (scan doc.text).hasUsableRoot with
      | true => exact absurd ⟨rfl, usable⟩ generated
      | false =>
          simp only [Document.present, usable, Bool.false_eq_true, if_false]
          rfl

/-- The text that a document is loaded with: its own, or that of a document generated from it. -/
inductive Document.PresentedAs (doc : Document) (layout : Layout) (size : WindowSize) : Text → Prop
  | own : doc.present (scan doc.text) layout size = .ok (.source doc) →
      PresentedAs doc layout size doc.text
  | generated {g : GeneratedDocument} :
      doc.present (scan doc.text) layout size = .ok (.generated g) →
      PresentedAs doc layout size g.text

theorem Document.presentedAs_of_present {doc : Document} {layout : Layout} {size : WindowSize}
    {loadable : Loadable} (presented : doc.present (scan doc.text) layout size = .ok loadable) :
    doc.PresentedAs layout size loadable.text := by
  cases loadable with
  | generated g => exact .generated presented
  | source own =>
      by_cases shown : doc.IsShown layout
      · cases presented.symm.trans (present_of_shown shown size)
        exact .own presented
      · rw [present_of_not_shown shown] at presented
        cases made : doc.generate layout size with
        | error e =>
            rw [made] at presented
            cases presented
        | ok g =>
            -- What is generated is loaded as such, or not at all.
            rw [made] at presented
            change Loadable.ofGenerated doc g = _ at presented
            rw [Loadable.ofGenerated] at presented
            split at presented <;> cases presented

theorem generate_of_error {doc : Document} {m : Malformation}
    (refused : decompose doc.text = .error m) (layout : Layout) (size : WindowSize) :
    doc.generate layout size = .error (.malformed doc.path m) := by
  have parts : doc.decompose = .error (.malformed doc.path m) := by
    rw [Document.decompose, refused]
    rfl
  cases layout with
  | plain =>
      rw [Document.generate, wrapInWindow, parts]
      rfl
  | phone =>
      rw [Document.generate, frameInPhone, parts]
      rfl

/-- Scanning and taking apart agree on the root. -/
theorem rootType_of_decompose {t : Text} {parts : Parts} (taken : decompose t = .ok parts) :
    (scan t).rootType = some parts.rootType := by
  obtain ⟨h, parsed, _, rfl⟩ := decompose_eq_ok_iff.mp taken
  rw [rootType_scan, firstHead_maskComments, parsed]
  rfl

theorem exists_rehosted {t : Text} {parts : Parts} (taken : decompose t = .ok parts)
    (usable : (scan t).hasUsableRoot = true) : ∃ text, parts.rehosted? = some text := by
  have root : (scan t).hasUsableRoot =
      (scan t).rootType.any (fun name => isContainer (ElementHead.unqualified name)) := rfl
  rw [root, rootType_of_decompose taken, Option.any_some] at usable
  obtain ⟨c, container⟩ := Option.isSome_iff_exists.mp usable
  rw [Parts.rehosted?, Parts.rootKind, container]
  exact ⟨_, rfl⟩

/-- What is generated is a window under the statements that repeat the header. -/
theorem exists_generate {doc : Document} {parts : Parts} (taken : decompose doc.text = .ok parts)
    (layout : Layout) (size : WindowSize) : ∃ g rest, doc.generate layout size = .ok g ∧
      g.text = printed parts.repeated (windowFront ++ rest) := by
  cases layout with
  | plain =>
      obtain ⟨rest, render⟩ := (sound_windowShell doc size).exists_render parts.content
      exact ⟨_, rest, wrapInWindow_eq taken size, congrArg (printed parts.repeated) render⟩
  | phone =>
      cases usable : (scan doc.text).hasUsableRoot with
      | false =>
          obtain ⟨rest, render⟩ := (sound_deviceHostShell doc).exists_render parts.content
          have made := frameInPhone_host_eq taken
          rw [← usable] at made
          exact ⟨_, rest, made, congrArg (printed parts.repeated) render⟩
      | true =>
          obtain ⟨text, rehosted⟩ := exists_rehosted taken usable
          obtain ⟨rest, render⟩ := (sound_deviceShell doc).exists_render text
          have made := frameInPhone_rehost_eq taken rehosted
          rw [← usable] at made
          exact ⟨_, rest, made, congrArg (printed parts.repeated) render⟩

/-- Whether a generated text has a usable root depends on the comments of its header only. -/
theorem hasUsableRoot_generated {t : Text} {parts : Parts} (taken : decompose t = .ok parts)
    (rest : Text) : (scan (printed parts.repeated (windowFront ++ rest))).hasUsableRoot = false ↔
      LosesRoot parts.repeated (windowFront ++ rest) := by
  have steady : ∀ c ∈ windowFront, Lexer.isSteady c = true := by decide
  have container : isContainer (ElementHead.unqualified windowType) = true := by decide
  exact hasUsableRoot_printed_iff (wellFormed_repeated taken) steady parse?_windowFront
    windowType_ne_spelling container rest

theorem Header.IsClosed.not_losesRoot {parts : Parts} (closed : parts.toHeader.IsClosed) (t : Text) :
    ¬ LosesRoot parts.repeated t := by
  rintro ⟨back, cut, _⟩
  have uncut := Lexer.cutFrom_of_no_comment closed.closed_repeated.noComment
  cases uncut.symm.trans cut

/-- A document that is not shown as it is, is malformed exactly if it cannot be taken apart. Otherwise
what is generated from it is shown as it is, unless a comment of the printed header hides its root. -/
theorem presenting_outcome (doc : Document) (layout : Layout) (size : WindowSize) :
    (doc.IsShown layout → doc.present (scan doc.text) layout size = .ok (.source doc)) ∧
    (¬ doc.IsShown layout → ∀ m, decompose doc.text = .error m →
      doc.present (scan doc.text) layout size = .error (.malformed doc.path m)) ∧
    (¬ doc.IsShown layout → ∀ parts, decompose doc.text = .ok parts →
      ∃ g window, doc.generate layout size = .ok g ∧ g.text = printed parts.repeated window ∧
        (parts.toHeader.IsClosed → ¬ LosesRoot parts.repeated window) ∧
        (LosesRoot parts.repeated window →
          doc.present (scan doc.text) layout size =
            .error (.wrapFailed doc.path "generated document has no usable root".toList)) ∧
        (¬ LosesRoot parts.repeated window →
          doc.present (scan doc.text) layout size = .ok (.generated g) ∧
          ∀ (again : Document) (size' : WindowSize), again.text = g.text →
            again.present (scan again.text) .plain size' = .ok (.source again))) := by
  refine ⟨fun shown => present_of_shown shown size, fun generated m refused => ?_,
    fun generated parts taken => ?_⟩
  · rw [present_of_not_shown generated, generate_of_error refused]
    rfl
  · obtain ⟨g, rest, made, text⟩ := exists_generate taken layout size
    have present : doc.present (scan doc.text) layout size = Loadable.ofGenerated doc g := by
      rw [present_of_not_shown generated, made]
      rfl
    have hidden := hasUsableRoot_generated taken rest
    rw [← text] at hidden
    refine ⟨g, windowFront ++ rest, made, text, fun closed => closed.not_losesRoot _, fun lost => ?_,
      fun kept => ?_⟩
    · rw [present, Loadable.ofGenerated, hidden.mpr lost]
      rfl
    · have usable : (scan g.text).hasUsableRoot = true := by
        cases root : (scan g.text).hasUsableRoot with
        | true => rfl
        | false => exact absurd (hidden.mp root) kept
      refine ⟨?_, fun again size' same => present_of_shown ⟨rfl, ?_⟩ size'⟩
      · rw [present, Loadable.ofGenerated, usable]
        rfl
      · rw [same, usable]

/-- A page is put into a window, which is then shown as it is. -/
theorem presenting_page :
    let doc : Document := ⟨"/a/Page.qml".toList, "import QtQuick\nItem \x7b\x7d\n".toList, Time.epoch⟩
    ∃ g, doc.present (scan doc.text) .plain {} = .ok (.generated g) ∧
      ∀ (again : Document) (size : WindowSize), again.text = g.text →
        again.present (scan again.text) .plain size = .ok (.source again) := by
  intro doc
  let parts : Parts :=
    { pragmas := [], imports := [.quick], contentStart := 15, content := "Item \x7b\x7d".toList
      rootType := "Item".toList, rootOpen := 5 }
  have taken : decompose doc.text = .ok parts := decompose_of_toOption (by decide +kernel)
  have closed : parts.toHeader.IsClosed :=
    ⟨nofun, List.forall_mem_singleton.mpr ⟨by decide, by decide⟩⟩
  have rootless : (scan doc.text).hasUsableRoot = false := by decide +kernel
  have generated : ¬ doc.IsShown .plain := by
    rintro ⟨_, usable⟩
    cases rootless.symm.trans usable
  obtain ⟨_, _, outcome⟩ := presenting_outcome doc .plain {}
  obtain ⟨g, window, _, _, kept, _, shown⟩ := outcome generated parts taken
  exact ⟨g, shown (kept closed)⟩

/-- A directory whose name holds a semicolon: the name is cut there, and what follows it opens a comment
in the header of the window. -/
theorem presenting_cut_import :
    let doc : Document := ⟨"/a/Page.qml".toList,
      "import \"a; import b/*c\"\nItem \x7b\x7d\n".toList, Time.epoch⟩
    doc.present (scan doc.text) .plain {} =
      .error (.wrapFailed doc.path "generated document has no usable root".toList) := by
  intro doc
  let parts : Parts :=
    { pragmas := []
      imports := [⟨"b/*c\"".toList, none, none, false, "import b/*c\"".toList⟩]
      contentStart := 24, content := "Item \x7b\x7d".toList
      rootType := "Item".toList, rootOpen := 5 }
  have taken : decompose doc.text = .ok parts := decompose_of_toOption (by decide +kernel)
  have rootless : (scan doc.text).hasUsableRoot = false := by decide +kernel
  have generated : ¬ doc.IsShown .plain := by
    rintro ⟨_, usable⟩
    cases rootless.symm.trans usable
  have hidden : (scan (printed parts.repeated
      ((windowShell doc {}).around parts.content).render)).hasUsableRoot = false := by
    decide +kernel
  have made := wrapInWindow_eq taken {}
  rw [present_of_not_shown generated, Document.generate, made]
  simp only [bind, Except.bind, Loadable.ofGenerated, hidden, Bool.false_eq_true, if_false]

end QmlPreview
