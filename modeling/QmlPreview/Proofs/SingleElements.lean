import QmlPreview.Error
import QmlPreview.Proofs.Decomposition
import QmlPreview.Wrap.Window

/-! A text can be taken apart exactly if its content is a single element: it starts with the head of
one, and the brace which that opens is closed by the last character of the content. The header, the
content and the comments after it then make up the text. -/

namespace QmlPreview

namespace ElementHead

theorem mem_of_splitOnP {p q : Char → Bool} {t : Text}
    (h : ∀ piece ∈ t.splitOnP p, ∀ c ∈ piece, q c = true) : ∀ c ∈ t, q c = true ∨ p c = true := by
  induction t with
  | nil => exact nofun
  | cons d t ih =>
      rw [List.splitOnP_cons_eq_if_modifyHead] at h
      cases splits : p d with
      | true =>
          simp only [splits, if_true, List.forall_mem_cons] at h
          exact List.forall_mem_cons.mpr ⟨.inr splits, ih h.2⟩
      | false =>
          obtain ⟨first, later, pieces⟩ := List.exists_cons_of_ne_nil (List.splitOnP_ne_nil p t)
          simp only [splits, Bool.false_eq_true, if_false, pieces, List.modifyHead_cons,
            List.forall_mem_cons] at h
          refine List.forall_mem_cons.mpr ⟨.inl h.1.1, ih ?_⟩
          rw [pieces]
          exact List.forall_mem_cons.mpr ⟨h.1.2, h.2⟩

theorem continuesIdentifier_of_isIdentifier {t : Text} (h : isIdentifier t = true) :
    ∀ c ∈ t, continuesIdentifier c = true := by
  cases t with
  | nil => exact nofun
  | cons d t =>
      simp only [isIdentifier, startsIdentifier, Bool.and_eq_true, Bool.or_eq_true,
        List.all_eq_true] at h
      refine List.forall_mem_cons.mpr ⟨?_, h.2⟩
      simp only [continuesIdentifier, Char.isAlphanum, Bool.or_eq_true]
      exact h.1.imp_left .inl

theorem isNameChar_of_isTypeName {t : Text} (h : isTypeName t = true) :
    ∀ c ∈ t, isNameChar c = true := by
  intro c hc
  have pieces : ∀ piece ∈ t.splitOnP (· == '.'), ∀ c ∈ piece, continuesIdentifier c = true :=
    fun piece member => continuesIdentifier_of_isIdentifier (List.all_eq_true.mp h piece member)
  rw [isNameChar, Bool.or_eq_true]
  exact mem_of_splitOnP pieces c hc

end ElementHead

namespace Lexeme

def depth (xs : List Lexeme) : Int := xs.foldl depthAfter 0

theorem forall_prefix_cons {p : List Lexeme → Prop} {x : Lexeme} {xs : List Lexeme} :
    (∀ front, front <+: x :: xs → p front) ↔ p [] ∧ ∀ front, front <+: xs → p (x :: front) := by
  constructor
  · intro h
    refine ⟨h [] List.nil_prefix, ?_⟩
    intro front begins
    exact h (x :: front) (List.prefix_cons_iff.mpr (.inr ⟨front, rfl, begins⟩))
  · rintro ⟨none, some⟩ front begins
    rcases List.prefix_cons_iff.mp begins with rfl | ⟨rest, rfl, later⟩
    · exact none
    · exact some rest later

/-- The depth stays above zero if every first part of the lexemes leaves it there. -/
theorem staysOpen_eq_some_iff {d e : Nat} (hd : 1 ≤ d) {xs : List Lexeme} :
    staysOpen d xs = some e ↔ (∀ front, front <+: xs → 1 ≤ front.foldl depthAfter (d : Int)) ∧
      xs.foldl depthAfter (d : Int) = e := by
  induction xs generalizing d with
  | nil =>
      simp only [staysOpen_nil, Option.some.injEq, List.prefix_nil, forall_eq, List.foldl_nil]
      omega
  | cons x xs ih =>
      have start : (1 : Int) ≤ d := by omega
      rw [forall_prefix_cons]
      simp only [List.foldl_nil, List.foldl_cons, start, true_and]
      rcases brace_cases x with rfl | rfl | other
      · have next : ((d + 1 : Nat) : Int) = (d : Int) + 1 := by omega
        rw [staysOpen_open, depthAfter_open, ih (Nat.le_succ_of_le hd), next]
      · rw [staysOpen_close, depthAfter_close]
        by_cases last : d ≤ 1
        · -- The brace closes the last open one, so the depth is zero right after it.
          rw [if_pos last]
          constructor
          · exact nofun
          · rintro ⟨open_, _⟩
            have := open_ [] List.nil_prefix
            simp only [List.foldl_nil] at this
            omega
        · have next : ((d - 1 : Nat) : Int) = (d : Int) - 1 := by omega
          rw [if_neg last, ih (by omega), next]
      · rw [staysOpen_other d other, depthAfter_other _ other, ih hd]

theorem depth_append_of_no_brace {lead : List Lexeme} (h : ∀ x ∈ lead, x.isBrace = false)
    (xs : List Lexeme) : depth (lead ++ xs) = depth xs := by
  have start : lead.foldl depthAfter 0 = 0 := foldl_depthAfter (staysOpen_of_no_brace 0 h)
  rw [depth, List.foldl_append, start, depth]

/-- Two first parts of one sequence that have as many bytes are the same. -/
theorem append_inj_of_bytes {as bs xs ys : List Lexeme} (h : as ++ xs = bs ++ ys)
    (same : bytes as = bytes bs) : as = bs ∧ xs = ys := by
  have empty (cs : List Lexeme) (none : bytes cs = 0) : cs = [] := by
    cases cs with
    | nil => rfl
    | cons x cs =>
        have := x.char.utf8Size_pos
        rw [bytes_cons] at none
        omega
  rcases List.append_eq_append_iff.mp h with ⟨cs, rfl, rfl⟩ | ⟨cs, rfl, rfl⟩
  · rw [bytes_append] at same
    obtain rfl := empty cs (by omega)
    exact ⟨(List.append_nil as).symm, rfl⟩
  · rw [bytes_append] at same
    obtain rfl := empty cs (by omega)
    exact ⟨List.append_nil bs, rfl⟩

end Lexeme

open Lexeme (bytes depth)

/-- The brace at byte offset `brace` opens an element that the last character of the content closes: up
to there the depth is one at least. -/
def SpansRoot (content : Text) (brace : Nat) : Prop :=
  ∃ lead inner : List Lexeme, lex content = lead ++ ⟨'{', .code⟩ :: (inner ++ [⟨'}', .code⟩]) ∧
    bytes lead = brace ∧
    (∀ front, front <+: inner → 1 ≤ depth (lead ++ ⟨'{', .code⟩ :: front)) ∧
    depth (lex content) = 0

/-- After the header stands one element: in the masked text it starts with a type name, blanks and a
brace, and the same bytes of the text span the element which that brace opens. -/
def IsSingleElement (t : Text) : Prop :=
  ∃ name gap more : Text, maskedContent t = name ++ (gap ++ '{' :: more) ∧
    ElementHead.isTypeName name = true ∧ (∀ c ∈ gap, Text.isBlank c = true) ∧
    SpansRoot (rawContent t) (Text.byteLength (name ++ gap))

/-- The text is its header, its content and a tail of comments and blanks. -/
structure IsSplit (t : Text) (parts : Parts) : Prop where
  header : parts.toHeader = Header.ofMasked (maskComments t)
  text : ∃ header tail : Text, t = header ++ (parts.content ++ tail) ∧
    Text.byteLength header = parts.contentStart ∧
    ∀ x ∈ (lex t).drop (header ++ parts.content).length,
      x.region.isComment = true ∨ Text.isBlank x.char = true
  named : parts.rootType <+: parts.content
  spans : SpansRoot parts.content parts.rootOpen

theorem Opening.spansRoot_iff {content gap body : Text} {h : ElementHead}
    (opening : Opening content h gap body) :
    SpansRoot content h.brace ↔ braceFault content = none := by
  have lexed := opening.lex_content
  rw [opening.braceFault_eq_none_iff]
  constructor
  · rintro ⟨lead, inner, spanned, place, stays, closes⟩
    rw [lexed] at spanned
    obtain ⟨rfl, rest⟩ :=
      Lexeme.append_inj_of_bytes spanned (by rw [opening.bytes_lead, place])
    have body := (List.cons.inj rest).2
    refine ⟨inner, body, ?_⟩
    rw [lexed, Lexeme.depth_append_of_no_brace opening.noBrace, body] at closes
    refine (Lexeme.staysOpen_eq_some_iff (Nat.le_refl 1)).mpr ⟨?_, ?_⟩
    · intro front begins
      have open_ := stays front begins
      rwa [Lexeme.depth_append_of_no_brace opening.noBrace] at open_
    · simp only [depth, List.foldl_cons, List.foldl_append, Lexeme.depthAfter_open,
        List.foldl_nil, Lexeme.depthAfter_close] at closes
      change inner.foldl Lexeme.depthAfter (0 + 1) = 1
      omega
  · rintro ⟨inner, body, stays⟩
    obtain ⟨open_, closes⟩ := (Lexeme.staysOpen_eq_some_iff (Nat.le_refl 1)).mp stays
    refine ⟨_, inner, by rw [lexed, body], opening.bytes_lead, ?_, ?_⟩
    · intro front begins
      rw [Lexeme.depth_append_of_no_brace opening.noBrace]
      exact open_ front begins
    · rw [lexed, Lexeme.depth_append_of_no_brace opening.noBrace, body]
      simp only [depth, List.foldl_cons, List.foldl_append, Lexeme.depthAfter_open,
        List.foldl_nil, Lexeme.depthAfter_close]
      change inner.foldl Lexeme.depthAfter (0 + 1) = 1 at closes
      omega

theorem exists_decompose_iff {t : Text} :
    (∃ parts, decompose t = .ok parts) ↔ IsSingleElement t := by
  constructor
  · rintro ⟨parts, taken⟩
    obtain ⟨h, parsed, accepted, _⟩ := decompose_eq_ok_iff.mp taken
    obtain ⟨_, _, opening⟩ := exists_opening parsed
    obtain ⟨gap, more, masked, named, _, blank, place⟩ := ElementHead.parse?_eq_some_iff.mp parsed
    refine ⟨h.typeName, gap, more, masked, named, blank, ?_⟩
    rw [← place]
    exact opening.spansRoot_iff.mpr accepted
  · rintro ⟨name, gap, more, masked, named, blank, spans⟩
    have parsed : ElementHead.parse? (maskedContent t) =
        some ⟨name, Text.byteLength (name ++ gap)⟩ :=
      ElementHead.parse?_eq_some_iff.mpr
        ⟨gap, more, masked, named, ElementHead.isNameChar_of_isTypeName named, blank, rfl⟩
    obtain ⟨_, _, opening⟩ := exists_opening parsed
    exact ⟨_, decompose_eq_ok_iff.mpr ⟨_, parsed, opening.spansRoot_iff.mp spans, rfl⟩⟩

theorem isSplit_of_decompose {t : Text} {parts : Parts} (taken : decompose t = .ok parts) :
    IsSplit t parts := by
  obtain ⟨h, parsed, accepted, rfl⟩ := decompose_eq_ok_iff.mp taken
  obtain ⟨gap, body, opening⟩ := exists_opening parsed
  obtain ⟨header, content, tail, sections⟩ := exists_sections t
  refine ⟨rfl, ⟨header.map (·.char), tail.map (·.char), ?_, ?_, ?_⟩, ?_,
    opening.spansRoot_iff.mpr accepted⟩
  · have chars := congrArg (List.map (·.char)) sections.lexed
    rwa [Lexer.map_char_lex, List.map_append, List.map_append, sections.raw] at chars
  · exact sections.start
  · intro x hx
    have length : (header.map (·.char) ++ (partsWith t h).content).length =
        (header ++ content).length := by
      rw [partsWith, ← sections.raw]
      simp only [List.length_append, List.length_map]
    rw [length, sections.lexed, ← List.append_assoc, List.drop_left] at hx
    apply Lexeme.comment_or_blank
    intro c hc
    exact sections.blankTail c (List.mem_flatMap.mpr ⟨x, hx, hc⟩)
  · exact ⟨_, opening.text.symm⟩

theorem Document.decompose_eq_ok_iff {doc : Document} {parts : Parts} :
    doc.decompose = .ok parts ↔ QmlPreview.decompose doc.text = .ok parts := by
  rw [Document.decompose]
  cases QmlPreview.decompose doc.text with
  | error m => exact ⟨nofun, nofun⟩
  | ok found =>
      constructor
      all_goals
        intro taken
        cases taken
        rfl

theorem Document.decompose_eq_error_iff {doc : Document} {e : Error} : doc.decompose = .error e ↔
    ∃ m, QmlPreview.decompose doc.text = .error m ∧ e = .malformed doc.path m := by
  rw [Document.decompose]
  cases QmlPreview.decompose doc.text with
  | ok found =>
      constructor
      · exact nofun
      · rintro ⟨_, refused, _⟩
        cases refused
  | error m =>
      constructor
      · intro refused
        cases refused
        exact ⟨m, rfl, rfl⟩
      · rintro ⟨_, same, rfl⟩
        cases same
        rfl

/-- Taking a document apart succeeds on single elements, cuts them out with their root, and refuses all
else as malformed. -/
theorem decomposing_single_elements (doc : Document) :
    ((∃ parts, doc.decompose = .ok parts) ↔ IsSingleElement doc.text) ∧
      (∀ parts, doc.decompose = .ok parts → IsSplit doc.text parts) ∧
      ∀ e, doc.decompose = .error e → ∃ reason, e = .malformedSource doc.path reason := by
  simp only [Document.decompose_eq_ok_iff]
  refine ⟨exists_decompose_iff, fun parts => isSplit_of_decompose, ?_⟩
  intro e refused
  obtain ⟨m, _, rfl⟩ := Document.decompose_eq_error_iff.mp refused
  exact ⟨m.message, rfl⟩

/-- An element with braces in a string and in the comment after it, and two elements, which are one too
many. -/
theorem decomposing_braces_apart :
    let doc : Document := ⟨"/a/Page.qml".toList,
      "import QtQuick\nText \x7b text: \"\x7d\" \x7d\n/* \x7b */\n".toList, Time.epoch⟩
    let pair : Document := ⟨"/a/Pair.qml".toList, "Item \x7b\x7d\nItem \x7b\x7d\n".toList, Time.epoch⟩
    (∃ parts, doc.decompose = .ok parts ∧ IsSplit doc.text parts ∧ IsSingleElement doc.text) ∧
      ∃ e, pair.decompose = .error e ∧ ∃ reason, e = .malformedSource pair.path reason := by
  intro doc pair
  obtain ⟨single, split, _⟩ := decomposing_single_elements doc
  obtain ⟨_, _, malformed⟩ := decomposing_single_elements pair
  let parts : Parts :=
    { pragmas := []
      imports := [⟨"QtQuick".toList, none, none, false, "import QtQuick".toList⟩]
      contentStart := 15, content := "Text \x7b text: \"\x7d\" \x7d".toList
      rootType := "Text".toList, rootOpen := 5 }
  have taken : doc.decompose = .ok parts :=
    Document.decompose_eq_ok_iff.mpr (decompose_of_toOption (by decide +kernel))
  refine ⟨⟨parts, taken, split parts taken, single.mp ⟨parts, taken⟩⟩, ?_⟩
  cases refused : pair.decompose with
  | ok parts =>
      have none : (decompose pair.text).toOption = none := by decide +kernel
      rw [Document.decompose_eq_ok_iff.mp refused] at none
      cases none
  | error e => exact ⟨e, rfl, malformed e refused⟩

end QmlPreview
