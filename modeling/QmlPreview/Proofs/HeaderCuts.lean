import QmlPreview.Document.Facts
import QmlPreview.Proofs.HeaderStatements

/-! Cutting a document where its content starts. The lexer looks one character beyond the cut and the
header is read from the whole masked text; still, what follows the cut decides nothing about what stands
before it. -/

namespace QmlPreview

open Lexeme (maskedText)

namespace Lexer

/-- A step before a character that is no comment would be the same before any other character. -/
theorem step_before_shown {s : State} {c d : Char} {next : Option Char}
    (shown : (step (step s c (some d)).2 d next).1.isComment = false)
    (last : (step s c (some d)).1.isComment = false → isDelimiter c = false)
    (d' : Char) : step s c (some d') = step s c (some d) := by
  obtain ⟨region, pending⟩ := s
  cases pending with
  | some r => rfl
  | none =>
      cases region with
      | lineComment => rfl
      | literal q => rfl
      | blockComment =>
          -- The comment stays open or closes with the next character, which both lie in it.
          by_cases closes : c = '*' ∧ d = '/'
          · obtain ⟨rfl, rfl⟩ := closes
            cases shown
          · have first : step ⟨.blockComment, none⟩ c (some d) =
                (.blockComment, ⟨.blockComment, none⟩) := by
              simp only [step, Option.some.injEq, closes, if_false]
            rw [first] at shown
            simp only [step] at shown
            split at shown <;> cases shown
      | code =>
          by_cases line : c = '/' ∧ d = '/'
          · obtain ⟨rfl, rfl⟩ := line
            cases shown
          · by_cases block : c = '/' ∧ d = '*'
            · obtain ⟨rfl, rfl⟩ := block
              cases shown
            · have visible : (step ⟨.code, none⟩ c (some d)).1.isComment = false := by
                simp only [step, Option.some.injEq, line, block, if_false]
                split <;> rfl
              have code := last visible
              rw [step_of_not_delimiter _ code, step_of_not_delimiter _ code (some d)]

/-- A lexing is cut before a lexeme that is no comment. What stands before the cut is lexed as it was,
whatever comes after it. -/
theorem exists_cut {s : State} (hs : s.Valid) {t : Text} {xs ys : List Lexeme} {y : Lexeme}
    (h : lexFrom s t = xs ++ y :: ys) (shown : y.region.isComment = false)
    (last : ∀ x ∈ xs.getLast?, x.region.isComment = false → isDelimiter x.char = false) :
    ∃ s' : State, s'.Valid ∧ (∃ next, (step s' y.char next).1 = y.region) ∧ (xs = [] → s' = s) ∧
      (∀ x ∈ xs.getLast?, ∃ s₀ next, step s₀ x.char next = (x.region, s')) ∧
      ∀ d t', lexFrom s (xs.map (·.char) ++ d :: t') = xs ++ lexFrom s' (d :: t') := by
  induction xs generalizing s t with
  | nil =>
      cases t with
      | nil => cases h
      | cons c t =>
          simp only [List.nil_append, lexFrom, List.cons.injEq] at h
          obtain ⟨rfl, -⟩ := h
          exact ⟨s, hs, ⟨t.head?, rfl⟩, fun _ => rfl, (fun x hx => by cases hx), fun _ _ => rfl⟩
  | cons x xs ih =>
      cases t with
      | nil => cases h
      | cons c t =>
          simp only [lexFrom, List.cons_append, List.cons.injEq] at h
          obtain ⟨rfl, rest⟩ := h
          have later : ∀ z ∈ xs.getLast?, z.region.isComment = false → isDelimiter z.char = false := by
            intro z hz
            refine last z ?_
            rw [List.getLast?_cons, Option.mem_def.mp hz]
            rfl
          obtain ⟨s', valid, first, same, moved, swap⟩ := ih (valid_step hs c t.head?) rest later
          refine ⟨s', valid, first, fun none => absurd none (List.cons_ne_nil _ xs), ?_, ?_⟩
          · cases xs with
            | nil =>
                intro z hz
                cases hz
                exact ⟨s, t.head?, congrArg (Prod.mk _) (same rfl).symm⟩
            | cons z xs => simpa only [List.getLast?_cons_cons] using moved
          · intro d t'
            have text : t = (xs ++ y :: ys).map (·.char) := by rw [← rest, map_char_lexFrom]
            have head : step s c (xs.map (·.char) ++ d :: t').head? = step s c t.head? := by
              cases xs with
              | cons z xs =>
                  rw [text]
                  rfl
              | nil =>
                  obtain ⟨next, region⟩ := first
                  have char : t.head? = some y.char := by
                    rw [text]
                    rfl
                  have visible : (step (step s c (some y.char)).2 y.char next).1.isComment =
                      false := by
                    rw [← char, ← same rfl, region, shown]
                  rw [char]
                  refine step_before_shown visible ?_ d
                  rw [← char]
                  exact last ⟨c, (step s c t.head?).1⟩ rfl
            rw [List.map_cons, List.cons_append, lexFrom, head, swap d t', List.cons_append]

/-- In code or in a literal, a visible character that is no slash is no comment. -/
theorem step_shown {s : State} (h : s = {} ∨ ∃ q, s = ⟨.literal q, none⟩) {c : Char}
    (slash : c ≠ '/') (next : Option Char) : (step s c next).1.isComment = false := by
  rcases h with rfl | ⟨q, rfl⟩
  · simp only [step, slash, false_and, if_false]
    split <;> rfl
  · simp only [step]
    split
    · rfl
    · split
      · rfl
      · split <;> rfl

end Lexer

namespace Statement

/-- What is left after a header may be any text that is no header itself. -/
theorem HeaderOf.exists_header {t rest : Text} {ss : List Statement} (h : HeaderOf t ss rest)
    (nonempty : rest ≠ []) : ∃ header : Text, t = header ++ rest ∧
      ∀ rest' : Text, Text.StartsVisible rest' → (∀ k, Keyword.startsText k rest' = false) →
        HeaderOf (header ++ rest') ss rest' := by
  induction h with
  | @done lead rest blank visible noKeyword =>
      exact ⟨lead, rfl, fun rest' visible' noKeyword' => .done blank visible' noKeyword'⟩
  | @statement lead tail later rest k stop ss blank separated runs stops last more ih =>
      obtain ⟨header, rfl, swap⟩ := ih nonempty
      have stopped : stop ≠ none := by
        intro none
        exact nonempty (List.append_eq_nil_iff.mp (last none)).2
      refine ⟨lead ++ (k.spelling ++ tail ++ (stop.toList ++ header)), ?_, ?_⟩
      · simp only [List.append_assoc]
      · intro rest' visible noKeyword
        have whole := HeaderOf.statement (k := k) blank separated runs stops
          (fun none => absurd none stopped) (swap rest' visible noKeyword)
        simpa only [List.append_assoc] using whole

end Statement

/-- A masked text starts with a keyword only if the text itself does. -/
theorem startsText_maskedText {k : Keyword} {xs : List Lexeme}
    (h : Keyword.startsText k (maskedText xs) = true) : k.spelling <+: xs.map (·.char) := by
  obtain ⟨tail, masked, _⟩ := Keyword.startsText_iff.mp h
  obtain ⟨ys, zs, rfl, spelled, _⟩ :=
    Lexeme.exists_of_maskedText_eq_append masked (.inl k.endsVisible_spelling)
  have visible : ∀ c ∈ maskedText ys, Text.isBlank c = false := by
    rw [spelled]
    cases k <;> decide
  refine ⟨zs.map (·.char), ?_⟩
  rw [List.map_append, Lexeme.map_char_of_visible visible, spelled]

/-- The lexemes of a document, cut where its content starts, and the statements before the cut. -/
structure HeaderCut (t : Text) (header : List Lexeme) (first : Lexeme) (rest : List Lexeme)
    (ss : List Statement) : Prop where
  lexed : lex t = header ++ first :: rest
  shown : first.region.isComment = false
  visible : Text.isBlank first.char = false
  ends : ∀ c ∈ (maskedText header).getLast?, Statement.isEnd c = true ∨ Text.isBlank c = true
  read : Header.ofMasked (maskComments t) = Header.ofStatements ss (Lexeme.bytes header)
  swaps : ∀ rest' : Text, Text.StartsVisible rest' → (∀ k, Keyword.startsText k rest' = false) →
    Statement.HeaderOf (maskedText header ++ rest') ss rest'

theorem ofMasked_of_headerOf {header : List Lexeme} {ss : List Statement} {rest : Text}
    (h : Statement.HeaderOf (maskedText header ++ rest) ss rest) :
    Header.ofMasked (maskedText header ++ rest) = Header.ofStatements ss (Lexeme.bytes header) := by
  rw [Header.ofMasked, h.readAll_eq]
  simp only [Text.byteLength_append, Nat.add_sub_cancel, Lexeme.byteLength_maskedText, Lexeme.bytes]

theorem exists_headerCut {t : Text}
    (start : (Header.ofMasked (maskComments t)).contentStart < Text.byteLength t) :
    ∃ header first rest ss, HeaderCut t header first rest ss := by
  obtain ⟨front, split, visible, _, ends⟩ := Statement.exists_readAll (maskComments t)
  have nonempty : (Statement.readAll (maskComments t)).2 ≠ [] := by
    intro none
    rw [Header.contentStart_ofMasked split, ← Lexer.byteLength_maskComments t, split, none,
      List.append_nil] at start
    exact Nat.lt_irrefl _ start
  have masked : maskedText (lex t) = front ++ (Statement.readAll (maskComments t)).2 := split
  obtain ⟨header, content, lexed, rfl, shown⟩ :=
    Lexeme.exists_of_maskedText_eq_append masked (.inr visible)
  obtain ⟨c, more, text⟩ := List.exists_cons_of_ne_nil nonempty
  have blank : Text.isBlank c = false := visible c (by rw [text]; rfl)
  obtain ⟨first, rest, rfl, rfl, comment⟩ :=
    Lexeme.exists_cons_of_maskedText (shown.trans text) blank
  have whole := Statement.headerOf_readAll (maskComments t)
  obtain ⟨front', again, swaps⟩ := whole.exists_header nonempty
  obtain rfl := List.append_cancel_right (split.symm.trans again)
  refine ⟨header, first, rest, _, lexed, comment, blank, ends nonempty, ?_, swaps⟩
  rw [split]
  refine ofMasked_of_headerOf ?_
  rwa [← split]

namespace HeaderCut

variable {t : Text} {header rest : List Lexeme} {first : Lexeme} {ss : List Statement}
  (cut : HeaderCut t header first rest ss)
include cut

theorem takeBytes_contentStart :
    Text.takeBytes (Header.ofMasked (maskComments t)).contentStart t = header.map (·.char) := by
  have text : t = header.map (·.char) ++ (first :: rest).map (·.char) := by
    rw [← Lexer.map_char_lex t, cut.lexed, List.map_append]
  rw [cut.read]
  exact (congrArg _ text).trans (Text.takeBytes_append _ _)

/-- The lexer meets what follows the header in code or inside a literal, whatever it is. -/
theorem exists_state : ∃ s : Lexer.State, (s = {} ∨ ∃ q, s = ⟨.literal q, none⟩) ∧
    ∀ d t', lex (header.map (·.char) ++ d :: t') = header ++ Lexer.lexFrom s (d :: t') := by
  have undelimited : ∀ x ∈ header.getLast?, x.region.isComment = false →
      Lexer.isDelimiter x.char = false := by
    intro x last shown
    rcases cut.ends x.char (Lexeme.getLast?_maskedText last shown) with ends | blank
    · simp only [Statement.isEnd, Bool.or_eq_true, beq_iff_eq] at ends
      rcases ends with newline | semicolon
      · rw [newline]
        rfl
      · rw [semicolon]
        rfl
    · exact Lexer.isDelimiter_of_isBlank blank
  obtain ⟨s, valid, ⟨next, met⟩, same, moved, swap⟩ :=
    Lexer.exists_cut Lexer.valid_start cut.lexed cut.shown undelimited
  refine ⟨s, ?_, swap⟩
  have shown : (Lexer.step s first.char next).1.isComment = false := by rw [met, cut.shown]
  have none : s.pending = none := by
    cases pending : s.pending with
    | none => rfl
    | some r =>
        have comment := isComment_of_pending cut.ends same moved pending
        simp only [Lexer.step, pending, comment] at shown
        cases shown
  rcases Lexer.region_of_visible valid none cut.visible shown with code | ⟨q, _, inside⟩
  · exact .inl code
  · exact .inr ⟨q, inside⟩

theorem ofMasked_replaced {d : Char} {content : Text} (visible : Text.isBlank d = false)
    (slash : d ≠ '/') (noKeyword : ∀ k : Keyword, ¬ k.spelling <+: d :: content) :
    Header.ofMasked (maskComments (header.map (·.char) ++ d :: content)) =
      Header.ofMasked (maskComments t) := by
  obtain ⟨s, outside, lexed⟩ := cut.exists_state
  have masked : maskComments (header.map (·.char) ++ d :: content) =
      maskedText header ++ maskedText (Lexer.lexFrom s (d :: content)) := by
    rw [Lexer.maskComments_eq, lexed d content, Lexeme.maskedText_append]
  have starts : Text.StartsVisible (maskedText (Lexer.lexFrom s (d :: content))) := by
    intro c hc
    have shown : (⟨d, (Lexer.step s d content.head?).1⟩ : Lexeme).masked = [d] :=
      Lexeme.masked_of_not_comment (Lexer.step_shown outside slash content.head?)
    rw [Lexer.lexFrom, Lexeme.maskedText_cons, shown] at hc
    cases hc
    exact visible
  rw [masked, cut.read]
  refine ofMasked_of_headerOf (cut.swaps _ starts fun k => ?_)
  cases found : Keyword.startsText k (maskedText (Lexer.lexFrom s (d :: content))) with
  | false => rfl
  | true =>
      have spelled := startsText_maskedText found
      rw [Lexer.map_char_lexFrom] at spelled
      exact absurd spelled (noKeyword k)

end HeaderCut

/-- Whatever content replaces that of a document, the header stays what it was, and so do the facts
that depend on it. -/
theorem header_ignores_content {t : Text}
    (start : (Header.ofMasked (maskComments t)).contentStart < Text.byteLength t)
    (d : Char) (content : Text) (visible : Text.isBlank d = false) (slash : d ≠ '/')
    (noKeyword : ∀ k : Keyword, ¬ k.spelling <+: d :: content) :
    let replaced := Text.takeBytes (Header.ofMasked (maskComments t)).contentStart t ++ d :: content
    Header.ofMasked (maskComments replaced) = Header.ofMasked (maskComments t) ∧
      (scan replaced).style = (scan t).style ∧
      (scan replaced).usesCharts = (scan t).usesCharts := by
  intro replaced
  obtain ⟨header, first, rest, ss, cut⟩ := exists_headerCut start
  have same : Header.ofMasked (maskComments replaced) = Header.ofMasked (maskComments t) := by
    rw [← cut.ofMasked_replaced visible slash noKeyword, ← cut.takeBytes_contentStart]
  refine ⟨same, ?_, ?_⟩
  · simp only [scan, Facts.ofParts, same]
  · simp only [scan, Facts.ofParts, same]

/-- The header opens a literal that the content continues; the content looks like an import. -/
theorem header_ignores_imports_in_content :
    let t := "import QtQuick.Controls.Material; import `a /* b */;Item \x7b\x7d`".toList
    let replaced := "import QtQuick.Controls.Material; import `a /* b */;".toList ++
      "x`; import QtCharts // y".toList
    (Header.ofMasked (maskComments t)).contentStart = 52 ∧
      Header.ofMasked (maskComments replaced) = Header.ofMasked (maskComments t) ∧
      (scan replaced).style = (scan t).style ∧
      (scan replaced).usesCharts = (scan t).usesCharts := by
  intro t replaced
  have start : (Header.ofMasked (maskComments t)).contentStart = 52 := by decide +kernel
  have nonempty : (Header.ofMasked (maskComments t)).contentStart < Text.byteLength t := by
    rw [start]
    decide +kernel
  have facts := header_ignores_content nonempty 'x' "`; import QtCharts // y".toList (by decide)
    (by decide) (fun k => by cases k <;> decide)
  have same : Text.takeBytes (Header.ofMasked (maskComments t)).contentStart t ++
      'x' :: "`; import QtCharts // y".toList = replaced := by
    rw [start]
    decide +kernel
  rw [same] at facts
  exact ⟨start, facts⟩

end QmlPreview
