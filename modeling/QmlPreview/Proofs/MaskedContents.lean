import QmlPreview.Proofs.Rereading
import QmlPreview.Proofs.SingleElements
import QmlPreview.Proofs.Uncommented

/-! Comments and the structure of a document. Header, facts and head are read from the masked text, so
comments cannot change them. Braces are counted in the content itself, lexed on its own: its comments
are those of the document unless the header ends inside a literal. -/

namespace QmlPreview

open Lexer (State lexFrom step)
open Lexeme (maskedText bytes)

theorem braceFault_maskComments (t : Text) : braceFault (maskComments t) = braceFault t := by
  unfold braceFault
  rw [bracesBalanced_maskComments, rootClose_maskComments, Lexer.byteLength_maskComments]

namespace Lexer

/-- A first part whose last character lies in no comment is lexed alike on its own. -/
theorem lexFrom_of_shown {s : State} {a b : Text} {xs ys : List Lexeme}
    (h : lexFrom s (a ++ b) = xs ++ ys) (length : xs.length = a.length)
    (shown : ∀ x ∈ xs.getLast?, x.region.isComment = false) : lexFrom s a = xs := by
  induction a generalizing s xs with
  | nil =>
      rw [List.length_nil, List.length_eq_zero_iff] at length
      rw [length]
      rfl
  | cons c a ih =>
      cases xs with
      | nil => cases length
      | cons x xs =>
          simp only [List.cons_append, lexFrom, List.cons.injEq] at h
          obtain ⟨first, later⟩ := h
          have shorter : xs.length = a.length := Nat.succ.inj length
          cases a with
          | nil =>
              obtain rfl := List.length_eq_zero_iff.mp shorter
              have alone := shown x rfl
              rw [← first] at alone
              rw [lexFrom, List.head?_nil, ← step_of_shown alone, lexFrom]
              exact congrArg (· :: []) first
          | cons d a =>
              cases xs with
              | nil => cases shorter
              | cons y xs =>
                  rw [List.getLast?_cons_cons] at shown
                  rw [lexFrom, List.head?_cons]
                  rw [List.cons_append, List.head?_cons] at first later
                  rw [ih later shorter shown, first]

end Lexer

/-- The content of the text starts outside of literals: the header leaves none open. -/
def StartsOutside (t : Text) : Prop :=
  ∀ header x rest, lex t = header ++ x :: rest →
    bytes header = (Header.ofMasked (maskComments t)).contentStart → x.region.isLiteral = false

theorem startsOutside_iff_of_lex {t : Text} {header rest : List Lexeme} {x : Lexeme}
    (lexed : lex t = header ++ x :: rest)
    (start : bytes header = (Header.ofMasked (maskComments t)).contentStart) :
    StartsOutside t ↔ x.region.isLiteral = false := by
  constructor
  · intro outside
    exact outside header x rest lexed start
  · intro outside header' y rest' lexed' start'
    obtain ⟨_, same⟩ :=
      Lexeme.append_inj_of_bytes (lexed.symm.trans lexed') (start.trans start'.symm)
    cases same
    exact outside

section
variable {t : Text} {header content tail : List Lexeme} (cut : Sections t header content tail)
include cut

theorem Sections.shown_last : ∀ x ∈ content.getLast?, x.region.isComment = false := by
  intro x hx
  obtain ⟨front, rfl⟩ := List.getLast?_eq_some_iff.mp hx
  obtain ⟨shown, c, masked⟩ := List.eq_nil_or_concat x.masked |>.resolve_left x.masked_ne_nil
  have ends : Text.EndsVisible (maskedText (front ++ [x])) := by
    rw [cut.masked]
    exact Text.endsVisible_trimEnd _
  have last : c ∈ (maskedText (front ++ [x])).getLast? := by
    rw [Lexeme.maskedText_append, Lexeme.maskedText_cons, Lexeme.maskedText_nil, List.append_nil,
      masked, List.concat_eq_append, ← List.append_assoc, List.getLast?_append]
    rfl
  have member : c ∈ x.masked := by
    rw [masked, List.concat_eq_append]
    exact List.mem_append_right _ List.mem_cons_self
  exact (Lexeme.eq_of_mem_masked member (ends c last)).2

/-- A content that is met in code is lexed on its own as it is in the document. -/
theorem Sections.lex_of_start (lexed : content ++ tail = lex ((content ++ tail).map (·.char))) :
    lex (rawContent t) = content := by
  rw [List.map_append, cut.raw] at lexed
  apply Lexer.lexFrom_of_shown lexed.symm
  · rw [← cut.raw, List.length_map]
  · exact cut.shown_last

variable {h : ElementHead} (parsed : ElementHead.parse? (maskedText content) = some h)
include parsed

/-- Lexed on its own, a content that starts outside of literals is what it is in the document. -/
theorem Sections.lex_rawContent (outside : StartsOutside t) : lex (rawContent t) = content := by
  obtain ⟨s, valid, shadows, lexed⟩ := cut.exists_state parsed
  obtain ⟨x, rest, rfl, _, nameChar⟩ := cut.exists_first parsed
  have start : s = {} := by
    rcases shadows with ⟨same, _⟩ | ⟨q, quote, rfl, _⟩
    · exact same
    · -- Inside a literal the first character of the name would lie in it.
      have apart := outside header x (rest ++ tail) cut.lexed cut.start
      have steady := Lexer.isSteady_of_isNameChar nameChar
      simp only [List.cons_append, List.map_cons, lexFrom, List.cons.injEq,
        Lexer.step_steady valid rfl rfl steady] at lexed
      rw [lexed.1] at apart
      cases apart
  subst start
  exact cut.lex_of_start lexed

end

theorem byteLength_rawContent (t : Text) :
    Text.byteLength (rawContent t) = Text.byteLength (maskedContent t) := by
  obtain ⟨header, content, tail, cut⟩ := exists_sections t
  rw [← cut.raw, ← cut.masked, Lexeme.byteLength_maskedText]

theorem maskedContent_congr {t u : Text} (masks : maskComments u = maskComments t) :
    maskedContent u = maskedContent t := by
  rw [maskedContent, maskedContent, masks]

theorem scan_congr {t u : Text} (masks : maskComments u = maskComments t) : scan u = scan t := by
  rw [scan, scan, masks]

theorem rawContent_maskComments (t : Text) : rawContent (maskComments t) = maskedContent t := by
  have masks := Lexer.maskComments_maskComments t
  obtain ⟨trail, _, trimmed⟩ := Text.exists_trimEnd
    (Text.dropBytes (Header.ofMasked (maskComments t)).contentStart (maskComments t))
  rw [rawContent, maskedContent_congr masks, masks, Text.slice, Nat.add_sub_cancel_left, trimmed]
  exact Text.takeBytes_append _ _

section
variable {t : Text} {h : ElementHead} (parsed : ElementHead.parse? (maskedContent t) = some h)
include parsed

theorem maskComments_rawContent (outside : StartsOutside t) :
    maskComments (rawContent t) = maskedContent t := by
  obtain ⟨header, content, tail, cut⟩ := exists_sections t
  rw [← cut.masked] at parsed
  rw [Lexer.maskComments_eq, cut.lex_rawContent parsed outside, cut.masked]

theorem braceFault_rawContent (outside : StartsOutside t) :
    braceFault (rawContent t) = braceFault (maskedContent t) := by
  rw [← maskComments_rawContent parsed outside, braceFault_maskComments]

theorem startsOutside_maskComments : StartsOutside (maskComments t) ↔ StartsOutside t := by
  obtain ⟨header, content, tail, cut⟩ := exists_sections t
  rw [← cut.masked] at parsed
  obtain ⟨x, rest, rfl, shown, _⟩ := cut.exists_first parsed
  have masked : lex (maskComments t) = header.flatMap Lexeme.uncommented ++
      x :: (rest ++ tail).flatMap Lexeme.uncommented := by
    rw [Lexer.lex_maskComments, cut.lexed, List.flatMap_append, List.cons_append, List.flatMap_cons,
      Lexeme.uncommented_of_shown shown, List.singleton_append]
  have start : bytes (header.flatMap Lexeme.uncommented) =
      (Header.ofMasked (maskComments (maskComments t))).contentStart := by
    rw [Lexeme.bytes_flatMap_uncommented, Lexer.maskComments_maskComments, cut.start]
  rw [startsOutside_iff_of_lex masked start, startsOutside_iff_of_lex cut.lexed cut.start]

theorem StartsOutside.of_masks {u : Text} (outside : StartsOutside t)
    (masks : maskComments u = maskComments t) : StartsOutside u := by
  have parsed' : ElementHead.parse? (maskedContent u) = some h := by
    rwa [maskedContent_congr masks]
  rw [← startsOutside_maskComments parsed', masks, startsOutside_maskComments parsed]
  exact outside

end

theorem Malformation.message_injective : Function.Injective Malformation.message := by
  intro m m' same
  cases m <;> cases m' <;> first | rfl | exact absurd same (by decide)

/-- Two documents are taken apart alike: both are refused for one reason, or both have one header and
one root, and their contents lie in one range of bytes. -/
inductive Alike (doc other : Document) : Prop where
  | refused {e : Error} (first : doc.decompose = .error e) (second : other.decompose = .error e)
  | taken {parts others : Parts} (first : doc.decompose = .ok parts)
      (second : other.decompose = .ok others) (header : others.toHeader = parts.toHeader)
      (rootType : others.rootType = parts.rootType) (rootOpen : others.rootOpen = parts.rootOpen)
      (range : parts.content = Text.slice parts.contentStart
        (parts.contentStart + Text.byteLength parts.content) doc.text)
      (same : others.content = Text.slice parts.contentStart
        (parts.contentStart + Text.byteLength parts.content) other.text)

section
variable {doc other : Document} (path : other.path = doc.path)
  (masks : maskComments other.text = maskComments doc.text)
include path masks

omit masks in
theorem Alike.of_error {m : Malformation} (first : decompose doc.text = .error m)
    (second : decompose other.text = .error m) : Alike doc other := by
  apply Alike.refused
  · exact Document.decompose_eq_error_iff.mpr ⟨m, first, rfl⟩
  · exact Document.decompose_eq_error_iff.mpr ⟨m, second, by rw [path]⟩

theorem Alike.of_masks_of_no_head (none : ElementHead.parse? (maskedContent doc.text) = none) :
    Alike doc other := by
  have same := maskedContent_congr masks
  have none' : ElementHead.parse? (maskedContent other.text) = Option.none := by rwa [same]
  have second := decompose_of_no_head none'
  rw [same] at second
  exact .of_error path (decompose_of_no_head none) second

theorem Alike.iff_of_head {h : ElementHead}
    (parsed : ElementHead.parse? (maskedContent doc.text) = some h) :
    Alike doc other ↔ braceFault (rawContent doc.text) = braceFault (rawContent other.text) := by
  have same := maskedContent_congr masks
  have parsed' : ElementHead.parse? (maskedContent other.text) = some h := by rwa [same]
  constructor
  · rintro (⟨refused, refused'⟩ | ⟨taken, taken', _, _, _, _⟩)
    · obtain ⟨m, first, rfl⟩ := Document.decompose_eq_error_iff.mp refused
      obtain ⟨m', second, reason⟩ := Document.decompose_eq_error_iff.mp refused'
      obtain rfl := Malformation.message_injective (Error.malformedSource.inj reason).2
      rw [(decompose_eq_error_iff_of_head parsed).mp first,
        (decompose_eq_error_iff_of_head parsed').mp second]
    · obtain ⟨_, _, sound, _⟩ := decompose_eq_ok_iff.mp (Document.decompose_eq_ok_iff.mp taken)
      obtain ⟨_, _, sound', _⟩ := decompose_eq_ok_iff.mp (Document.decompose_eq_ok_iff.mp taken')
      rw [sound, sound']
  · intro agree
    cases fault : braceFault (rawContent doc.text) with
    | some m =>
        apply Alike.of_error path
        · exact (decompose_eq_error_iff_of_head parsed).mpr fault
        · exact (decompose_eq_error_iff_of_head parsed').mpr (agree.symm.trans fault)
    | none =>
        have first := decompose_eq_ok_iff.mpr ⟨h, parsed, fault, rfl⟩
        have second := decompose_eq_ok_iff.mpr ⟨h, parsed', agree.symm.trans fault, rfl⟩
        have header : (partsWith other.text h).toHeader = (partsWith doc.text h).toHeader := by
          rw [partsWith, partsWith, masks]
        refine .taken (Document.decompose_eq_ok_iff.mpr first)
          (Document.decompose_eq_ok_iff.mpr second) header rfl rfl ?_ ?_
        · rw [partsWith, byteLength_rawContent, rawContent]
        · rw [partsWith, partsWith, byteLength_rawContent, rawContent, same, masks]

/-- Documents with one mask are taken apart alike exactly if the brace checks say one thing of both
contents. -/
theorem Alike.iff_of_masks : Alike doc other ↔
    ∀ h, ElementHead.parse? (maskedContent doc.text) = some h →
      braceFault (rawContent doc.text) = braceFault (rawContent other.text) := by
  constructor
  · intro alike h parsed
    exact (Alike.iff_of_head path masks parsed).mp alike
  · intro agree
    cases parsed : ElementHead.parse? (maskedContent doc.text) with
    | none => exact Alike.of_masks_of_no_head path masks parsed
    | some h => exact (Alike.iff_of_head path masks parsed).mpr (agree h parsed)

/-- Contents that start outside of literals hide nothing but what the mask hides. -/
theorem Alike.of_startsOutside (outside : StartsOutside doc.text) : Alike doc other := by
  refine (Alike.iff_of_masks path masks).mpr ?_
  intro h parsed
  have parsed' : ElementHead.parse? (maskedContent other.text) = some h := by
    rwa [maskedContent_congr masks]
  rw [braceFault_rawContent parsed outside,
    braceFault_rawContent parsed' (outside.of_masks parsed masks), maskedContent_congr masks]

end

/-- Masking the comments of a document keeps its facts. The document and its mask are taken apart alike
exactly if the brace checks say one thing of both contents. If the content starts outside of literals,
all documents with that mask are taken apart alike. -/
theorem masking_keeps_structure (doc : Document) :
    let masked : Document := { doc with text := maskComments doc.text }
    scan masked.text = scan doc.text ∧
    maskComments masked.text = maskComments doc.text ∧
    (Alike doc masked ↔ ∀ h, ElementHead.parse? (maskedContent doc.text) = some h →
      braceFault (rawContent doc.text) = braceFault (maskedContent doc.text)) ∧
    (StartsOutside doc.text → ∀ other : Document, other.path = doc.path →
      maskComments other.text = maskComments doc.text → Alike doc other) := by
  intro masked
  have path : masked.path = doc.path := rfl
  have masks : maskComments masked.text = maskComments doc.text :=
    Lexer.maskComments_maskComments doc.text
  have content : rawContent masked.text = maskedContent doc.text := rawContent_maskComments doc.text
  refine ⟨scan_congr masks, masks, ?_, ?_⟩
  · rw [Alike.iff_of_masks path masks, content]
  · intro outside other path same
    exact Alike.of_startsOutside path same outside

/-- Two pages that differ in their comments alone, where a header holds a string and the comments hold
braces. -/
theorem masking_keeps_pages :
    let doc : Document := ⟨"/a/Page.qml".toList,
      "import \"ui\"\nItem /* \x7b */ \x7b text: \"//\" // \x7d\n\x7d".toList, Time.epoch⟩
    let other : Document := ⟨"/a/Page.qml".toList,
      "import \"ui\"\nItem /* ' */ \x7b text: \"//\" ////\n\x7d".toList, Time.epoch⟩
    StartsOutside doc.text ∧ doc.text ≠ other.text ∧ Alike doc other ∧
      Alike doc { doc with text := maskComments doc.text } := by
  intro doc other
  obtain ⟨_, masks, _, alike⟩ := masking_keeps_structure doc
  have lexed : lex doc.text = (lex doc.text).take 12 ++ ⟨'I', .code⟩ :: (lex doc.text).drop 13 := by
    decide +kernel
  have outside : StartsOutside doc.text :=
    (startsOutside_iff_of_lex lexed (by decide +kernel)).mpr rfl
  exact ⟨outside, by decide +kernel, alike outside other rfl (by decide +kernel),
    alike outside _ rfl masks⟩

/-- The header statement ends at the semicolon inside its string, so the content starts inside a
literal. The lexer of the document finds a comment after the next quote; the lexer of the content takes
that quote to open a literal, which ends at the quote in the comment. -/
theorem masking_moves_braces :
    let doc : Document := ⟨"/a/Page.qml".toList,
      "import \"a;Item \x7b\"/*\"*/ \x7d".toList, Time.epoch⟩
    let masked : Document := { doc with text := maskComments doc.text }
    (∃ parts, doc.decompose = .ok parts) ∧
      masked.decompose = .error (.malformed doc.path .unbalancedBraces) ∧ ¬ Alike doc masked := by
  intro doc masked
  let parts : Parts :=
    { pragmas := [], imports := [], contentStart := 10, content := "Item \x7b\"/*\"*/ \x7d".toList
      rootType := "Item".toList, rootOpen := 5 }
  have taken : doc.decompose = .ok parts :=
    Document.decompose_eq_ok_iff.mpr (decompose_of_toOption (by decide +kernel))
  have parsed : ElementHead.parse? (maskedContent masked.text) = some ⟨"Item".toList, 5⟩ := by
    decide +kernel
  have fault : braceFault (rawContent masked.text) = some .unbalancedBraces := by decide +kernel
  have refused : masked.decompose = .error (.malformed doc.path .unbalancedBraces) :=
    Document.decompose_eq_error_iff.mpr ⟨_, (decompose_eq_error_iff_of_head parsed).mpr fault, rfl⟩
  refine ⟨⟨parts, taken⟩, refused, ?_⟩
  rintro (⟨first, _⟩ | ⟨_, second, _, _, _, _⟩)
  · cases taken.symm.trans first
  · cases refused.symm.trans second

end QmlPreview
