import QmlPreview.Proofs.Printing
import QmlPreview.Proofs.Reindenting

/-! Reading a printed header again, whatever its statements hold. Each line is read as a statement up to
the first one that ends inside a block comment; from there on nothing is read up to the end of that
comment, and what follows it is read as if it stood alone. -/

namespace QmlPreview

open Lexer (State lexFrom stateAfter step endLine Apart)
open Lexeme (maskedText)

namespace Lexer

/-- What follows the first newline that lies in a block comment. -/
def cutFrom : State → Text → Option Text
  | _, [] => none
  | s, c :: t =>
    if c == '\n' && (step s c t.head?).1 == .blockComment then some t
    else cutFrom (step s c t.head?).2 t

def afterComment : Text → Option Text
  | [] => none
  | c :: t => if c = '*' ∧ t.head? = some '/' then some t.tail else afterComment t

def inComment : State := ⟨.blockComment, none⟩

theorem cutFrom_of_no_comment {s : State} {t : Text}
    (h : ∀ x ∈ lexFrom s t, x.region.isComment = false) : cutFrom s t = none := by
  induction t generalizing s with
  | nil => rfl
  | cons c t ih =>
      rw [lexFrom, List.forall_mem_cons] at h
      have outside : ((step s c t.head?).1 == .blockComment) = false := by
        cases region : (step s c t.head?).1 with
        | blockComment =>
            rw [region] at h
            cases h.1
        | code => rfl
        | lineComment => rfl
        | literal q => rfl
      rw [cutFrom, outside, Bool.and_false]
      exact ih h.2

theorem cutFrom_line {s : State} {line : Text} (unbroken : '\n' ∉ line) (rest : Text) :
    cutFrom s (line ++ '\n' :: rest) =
      if (endLine (stateAfter s line)).1 = .blockComment then some rest
      else cutFrom (endLine (stateAfter s line)).2 rest := by
  induction line generalizing s with
  | nil =>
      rw [List.nil_append, cutFrom, step_of_not_delimiter s (by decide)]
      simp only [beq_self_eq_true, Bool.true_and, beq_iff_eq]
      rfl
  | cons c line ih =>
      rw [List.mem_cons, not_or] at unbroken
      have other : (c == '\n') = false := beq_eq_false_iff_ne.mpr (Ne.symm unbroken.1)
      rw [List.cons_append, cutFrom, step_before_newline, other, Bool.false_and, stateAfter]
      exact ih unbroken.2

theorem endLine_outside {s : State} (none : s.pending = none) (outside : s.region ≠ .blockComment) :
    (endLine s).1 ≠ .blockComment ∧ (endLine s).2.region.isComment = false := by
  obtain ⟨region, pending⟩ := s
  cases none
  cases region with
  | code => exact ⟨by decide, rfl⟩
  | lineComment => exact ⟨by decide, rfl⟩
  | blockComment => exact absurd rfl outside
  | literal q =>
      simp only [endLine, step, Char.reduceEq, if_false]
      have inside : Region.literal q ≠ .blockComment := by
        intro same
        cases same
      split
      · exact ⟨inside, rfl⟩
      · split
        · exact ⟨by decide, rfl⟩
        · exact ⟨inside, rfl⟩

/-- A line ends inside a block comment, or the next one starts outside of comments. -/
theorem endLine_cases {s : State} (none : s.pending = none) (line : Text) :
    endLine (stateAfter s line) = (.blockComment, inComment) ∨
      (endLine (stateAfter s line)).1 ≠ .blockComment ∧
        (endLine (stateAfter s line)).2.region.isComment = false := by
  rcases pending_stateAfter none line with settled | ⟨q, escape⟩
  · by_cases inside : (stateAfter s line).region = .blockComment
    · have same : stateAfter s line = inComment := by
        cases after : stateAfter s line
        rw [after] at settled inside
        cases settled
        cases inside
        rfl
      exact .inl (by rw [same]; rfl)
    · exact .inr (endLine_outside settled inside)
  · rw [escape]
    refine .inr ⟨?_, rfl⟩
    intro same
    cases same

/-- The lexer is in a block comment or in a template literal, and no end of a line ends these. -/
def RunsOver (s : State) : Prop := s = inComment ∨ s = ⟨.literal '`', none⟩

theorem start_or_runsOver_endLine {s : State} (none : s.pending = none) :
    (endLine s).2 = {} ∨ RunsOver (endLine s).2 := by
  obtain ⟨region, pending⟩ := s
  cases none
  cases region with
  | code | lineComment => exact .inl rfl
  | blockComment => exact .inr (.inl rfl)
  | literal q =>
      simp only [endLine, step, Char.reduceEq, if_false]
      by_cases newline : '\n' = q
      · exact .inl (by rw [if_pos newline])
      · by_cases backtick : q = '`'
        · subst backtick
          exact .inr (.inr rfl)
        · exact .inl (by rw [if_neg newline, if_pos ⟨trivial, backtick⟩])

theorem RunsOver.step_mute {s : State} (running : RunsOver s) {c : Char} (mute : isMute c = true)
    {next : Option Char} (later : ∀ d ∈ next, isMute d = true) : (step s c next).2 = s := by
  rcases running with rfl | rfl
  · have slash : next ≠ some '/' := by
      rintro rfl
      exact absurd (later '/' rfl) (by decide)
    simp only [step, inComment, slash, and_false, if_false]
  · have escape : c ≠ '\\' := by
      rintro rfl
      exact absurd mute (by decide)
    have backtick : c ≠ '`' := by
      rintro rfl
      exact absurd mute (by decide)
    simp only [step, escape, backtick, ne_eq, not_true_eq_false, and_false, if_false]

theorem RunsOver.stateAfter_eq {s : State} (running : RunsOver s) {t : Text}
    (mute : ∀ c ∈ t, isMute c = true) : stateAfter s t = s := by
  induction t with
  | nil => rfl
  | cons c t ih =>
      obtain ⟨first, rest⟩ := List.forall_mem_cons.mp mute
      have stays := running.step_mute first fun d hd => rest d (List.mem_of_mem_head? hd)
      rw [stateAfter, stays, ih rest]

theorem RunsOver.region_ne {s : State} (running : RunsOver s) : s.region ≠ .code := by
  rcases running with rfl | rfl
  · exact nofun
  · exact nofun

/-- A double quote opens no literal there. -/
theorem RunsOver.step_quote_ne {s : State} (running : RunsOver s) (next : Option Char) :
    (step s '"' next).1 ≠ .literal '"' := by
  rcases running with rfl | rfl
  · simp only [step, inComment, Char.reduceEq, false_and, if_false, ne_eq, reduceCtorEq,
      not_false_eq_true]
  · simp [step]

theorem stateAfter_line (s : State) (line : Text) :
    stateAfter s (line ++ ['\n']) = (endLine (stateAfter s line)).2 := by
  rw [stateAfter_append s (apart_before_newline line []), stateAfter_newline]
  rfl

/-- Outside of comments the character changes nothing. -/
def isSteady (c : Char) : Bool := isMute c && c != '\n'

theorem isSteady_of_isNameChar {c : Char} (h : ElementHead.isNameChar c = true) :
    isSteady c = true := by
  simp only [isSteady, isMute_of_isNameChar h, Bool.true_and, bne_iff_ne]
  rintro rfl
  exact absurd h (by decide)

section
variable {s : State} (hs : s.Valid) (none : s.pending = none)
  (outside : s.region.isComment = false)
include hs none outside

theorem step_steady {c : Char} (steady : isSteady c = true) (next : Option Char) :
    step s c next = (s.region, s) := by
  simp only [isSteady, isMute, Bool.and_eq_true, bne_iff_ne] at steady
  obtain ⟨⟨plain, escape⟩, newline⟩ := steady
  obtain ⟨region, pending⟩ := s
  cases none
  cases region with
  | code => exact step_plain plain next
  | lineComment => cases outside
  | blockComment => cases outside
  | literal q =>
      have quote : c ≠ q := by
        rintro rfl
        rw [isPlain, hs.isQuote c rfl, Bool.not_true, Bool.and_false] at plain
        cases plain
      simp only [step, escape, quote, newline, false_and, if_false]

theorem maskedText_steady {a : Text} (steady : ∀ c ∈ a, isSteady c = true) (t : Text) :
    maskedText (lexFrom s (a ++ t)) = a ++ maskedText (lexFrom s t) := by
  induction a with
  | nil => rfl
  | cons c a ih =>
      rw [List.forall_mem_cons] at steady
      have shown : Lexeme.masked ⟨c, s.region⟩ = [c] := Lexeme.masked_of_not_comment outside
      rw [List.cons_append, lexFrom, step_steady hs none outside steady.1, Lexeme.maskedText_cons,
        shown, ih steady.2]
      rfl

end

theorem exists_maskedText_comment (t : Text) : ∃ blanks : Text,
    (∀ c ∈ blanks, Text.isBlank c = true) ∧ maskedText (lexFrom inComment t) =
      blanks ++ (afterComment t).elim [] maskComments := by
  have hidden (c d : Char) (hd : d ∈ Lexeme.masked ⟨c, .blockComment⟩) : Text.isBlank d = true :=
    Lexeme.blank_masked (.inl rfl) d hd
  induction t with
  | nil => exact ⟨[], nofun, rfl⟩
  | cons c t ih =>
      by_cases ends : c = '*' ∧ t.head? = some '/'
      · obtain ⟨rfl, next⟩ := ends
        obtain ⟨post, rfl⟩ := List.head?_eq_some_iff.mp next
        refine ⟨Lexeme.masked ⟨'*', .blockComment⟩ ++ Lexeme.masked ⟨'/', .blockComment⟩,
          List.forall_mem_append.mpr ⟨hidden '*', hidden '/'⟩, ?_⟩
        have after : afterComment ('*' :: '/' :: post) = some post := by
          rw [afterComment, if_pos ⟨rfl, rfl⟩, List.tail_cons]
        rw [after, Option.elim_some, List.append_assoc]
        rfl
      · obtain ⟨blanks, blank, rest⟩ := ih
        have stays : step inComment c t.head? = (.blockComment, inComment) := by
          simp only [step, inComment, if_neg ends]
        refine ⟨Lexeme.masked ⟨c, .blockComment⟩ ++ blanks,
          List.forall_mem_append.mpr ⟨hidden c, blank⟩, ?_⟩
        rw [lexFrom, stays, Lexeme.maskedText_cons, rest, afterComment, if_neg ends,
          List.append_assoc]

end Lexer

namespace Statement

theorem readAll_blank_append {lead : Text} (blank : ∀ c ∈ lead, Text.isBlank c = true) (t : Text) :
    readAll (lead ++ t) = readAll t := by
  have trimmed := Text.trimStart_append blank t
  cases found : Keyword.ofText? (Text.trimStart t) with
  | none => rw [readAll_of_none found, readAll_of_none (by rwa [trimmed]), trimmed]
  | some k => rw [readAll_of_some found, readAll_of_some (by rwa [trimmed]), trimmed]

/-- Lexed outside of comments, a statement stays one up to the end of its line. -/
theorem readAll_masked_line {s : State} (hs : s.Valid) (none : s.pending = none)
    (outside : s.region.isComment = false) {st : Statement} (wellFormed : st.WellFormed)
    (rest : Text) :
    (readAll (maskedText (lexFrom s (st.text ++ '\n' :: rest)))).2 =
      (readAll (maskedText (lexFrom (endLine (stateAfter s st.text)).2 rest))).2 := by
  obtain ⟨tail, spelled, blank⟩ := wellFormed.spelled
  have first : ∀ c ∈ (maskedText (lexFrom s tail)).head?, Text.isBlank c = true := by
    cases tail with
    | nil => exact nofun
    | cons c tail =>
        intro d hd
        obtain ⟨e, more, shown⟩ := List.exists_cons_of_ne_nil
          (Lexeme.masked_ne_nil ⟨c, (step s c tail.head?).1⟩)
        rw [lexFrom, Lexeme.maskedText_cons, shown] at hd
        cases hd
        have blanks := Lexeme.blank_masked (x := ⟨c, (step s c tail.head?).1⟩) (.inr (blank c rfl))
        exact blanks d (by rw [shown]; exact List.mem_cons_self)
  have noEnd : ∀ c ∈ maskedText (lexFrom s tail), isEnd c = false := by
    intro c hc
    obtain ⟨x, hx, inside⟩ := List.mem_flatMap.mp hc
    rcases Lexeme.mem_masked inside with rfl | rfl
    · rfl
    · refine wellFormed.noEnd _ ?_
      have member : x.char ∈ (lexFrom s tail).map (·.char) := List.mem_map_of_mem hx
      rw [Lexer.map_char_lexFrom] at member
      rw [spelled]
      exact List.mem_append_right _ member
  rw [Lexer.lexFrom_append_newline, Lexeme.maskedText_append, Lexeme.maskedText_newline, spelled,
    Lexer.maskedText_steady hs none outside fun c hc =>
      Lexer.isSteady_of_isNameChar (ElementHead.isNameChar_spelling _ c hc),
    readAll_spelled first noEnd]

/-- The lines of a header are read up to the first one that ends inside a comment. -/
theorem readAll_masked_lines {ss : List Statement} (wellFormed : ∀ st ∈ ss, st.WellFormed)
    {s : State} (hs : s.Valid) (none : s.pending = none) (outside : s.region.isComment = false)
    (t : Text) :
    (∃ back, Lexer.cutFrom s (lines ss) = some back ∧
      (readAll (maskedText (lexFrom s (lines ss ++ t)))).2 =
        (readAll (maskedText (lexFrom Lexer.inComment (back ++ t)))).2) ∨
    Lexer.cutFrom s (lines ss) = Option.none ∧ ∃ s' : State, s'.Valid ∧ s'.pending = Option.none ∧
      s'.region.isComment = false ∧
      (readAll (maskedText (lexFrom s (lines ss ++ t)))).2 =
        (readAll (maskedText (lexFrom s' t))).2 := by
  induction ss generalizing s with
  | nil => exact .inr ⟨rfl, s, hs, none, outside, rfl⟩
  | cons st ss ih =>
      rw [List.forall_mem_cons] at wellFormed
      have split (t : Text) : lines (st :: ss) ++ t = st.text ++ '\n' :: (lines ss ++ t) := by
        simp only [lines, List.flatMap_cons, List.append_assoc, List.cons_append, List.nil_append]
      have whole : lines (st :: ss) = st.text ++ '\n' :: lines ss := by
        simpa only [List.append_nil] using split []
      have unbroken : '\n' ∉ st.text := by
        intro member
        cases wellFormed.1.noEnd _ member
      have line := readAll_masked_line hs none outside wellFormed.1 (lines ss ++ t)
      rw [split t, line, whole, Lexer.cutFrom_line unbroken]
      rcases Lexer.endLine_cases none st.text with cut | ⟨goesOn, outside'⟩
      · exact .inl ⟨lines ss, by rw [cut, if_pos rfl], by rw [cut]⟩
      · rw [if_neg goesOn]
        exact ih wellFormed.2 (Lexer.valid_endLine (Lexer.valid_stateAfter hs _))
          (Lexer.pending_endLine _) outside'

end Statement

/-- A printed header leaves the lexer in code, or in what runs over the ends of its lines. -/
theorem start_or_runsOver_printed (ss : List Statement) :
    stateAfter {} (printed ss []) = {} ∨ Lexer.RunsOver (stateAfter {} (printed ss [])) := by
  have settled : (stateAfter {} (Statement.lines ss)).pending = none := by
    rcases List.eq_nil_or_concat ss with rfl | ⟨front, last, rfl⟩
    · rfl
    · have line : Statement.lines (front.concat last) =
          (Statement.lines front ++ last.text) ++ ['\n'] := by
        simp only [Statement.lines, List.concat_eq_append, List.flatMap_append, List.flatMap_cons,
          List.flatMap_nil, List.append_nil, List.append_assoc]
      rw [line, Lexer.stateAfter_line]
      exact Lexer.pending_endLine _
  rw [printed, Lexer.stateAfter_line]
  exact Lexer.start_or_runsOver_endLine settled

/-- The head of the element that is read after the header of a masked text. -/
def firstHead (masked : Text) : Option ElementHead := ElementHead.parse? (Statement.readAll masked).2

theorem rootType_scan (t : Text) :
    (scan t).rootType = (firstHead (maskComments t)).map (·.typeName) := by
  rw [scan]
  simp only [dropBytes_contentStart, Facts.ofParts, firstHead]

/-- Scanning and taking apart read the same head. -/
theorem firstHead_maskComments (t : Text) :
    firstHead (maskComments t) = ElementHead.parse? (maskedContent t) := by
  rw [firstHead, maskedContent, ElementHead.parse?_trimEnd, dropBytes_contentStart]

theorem hasUsableRoot_eq (t : Text) : (scan t).hasUsableRoot =
    (firstHead (maskComments t)).any (fun h => isContainer (ElementHead.unqualified h.typeName)) := by
  have root : (scan t).hasUsableRoot =
      (scan t).rootType.any (fun name => isContainer (ElementHead.unqualified name)) := rfl
  rw [root, rootType_scan, Option.any_map]

section
variable {ss : List Statement} (wellFormed : ∀ st ∈ ss, st.WellFormed)
include wellFormed

/-- Where a comment runs over the end of a line, what follows the comment decides. -/
theorem hasUsableRoot_of_cut {back : Text}
    (cut : Lexer.cutFrom {} (Statement.lines ss) = some back) (t : Text) :
    (scan (printed ss t)).hasUsableRoot =
      (Lexer.afterComment (back ++ '\n' :: t)).any (fun post => (scan post).hasUsableRoot) := by
  rw [hasUsableRoot_eq, firstHead, Lexer.maskComments_eq, lex, printed]
  rcases Statement.readAll_masked_lines wellFormed Lexer.valid_start rfl rfl ('\n' :: t) with
    ⟨back', cut', read⟩ | ⟨uncut, _⟩
  · cases cut.symm.trans cut'
    obtain ⟨blanks, blank, shown⟩ := Lexer.exists_maskedText_comment (back ++ '\n' :: t)
    rw [read, shown, Statement.readAll_blank_append blank]
    cases Lexer.afterComment (back ++ '\n' :: t) with
    | none =>
        rw [Option.elim_none, Statement.readAll_nil]
        rfl
    | some post => rw [Option.elim_some, Option.any_some, hasUsableRoot_eq, firstHead]
  · cases uncut.symm.trans cut

/-- Where no comment does, the element after the statements is found. -/
theorem hasUsableRoot_of_uncut (uncut : Lexer.cutFrom {} (Statement.lines ss) = none)
    {front : Text} (steady : ∀ c ∈ front, Lexer.isSteady c = true) {h : ElementHead}
    (parsed : ElementHead.parse? front = some h) (other : ∀ k : Keyword, h.typeName ≠ k.spelling)
    (container : isContainer (ElementHead.unqualified h.typeName) = true) (t : Text) :
    (scan (printed ss (front ++ t))).hasUsableRoot = true := by
  rw [hasUsableRoot_eq, firstHead, Lexer.maskComments_eq, lex, printed]
  rcases Statement.readAll_masked_lines wellFormed Lexer.valid_start rfl rfl ('\n' :: (front ++ t))
    with ⟨back, cut, _⟩ | ⟨_, s, valid, none, outside, read⟩
  · cases uncut.symm.trans cut
  · have code : s.region ≠ .blockComment := by
      intro comment
      rw [comment] at outside
      cases outside
    have after := (Lexer.endLine_outside none code).2
    have head := ElementHead.parse?_append parsed (maskedText (lexFrom (endLine s).2 t))
    have alone := Statement.readAll_of_none (t := front ++ maskedText (lexFrom (endLine s).2 t)) (by
      rw [Text.trimStart_eq_self (ElementHead.startsVisible_of_parse? head)]
      exact ElementHead.ofText?_of_parse? head other)
    rw [Text.trimStart_eq_self (ElementHead.startsVisible_of_parse? head)] at alone
    have blank : ∀ c ∈ ['\n'], Text.isBlank c = true := by decide
    rw [read, Lexer.lexFrom_newline, Lexeme.maskedText_newline,
      Lexer.maskedText_steady (Lexer.valid_endLine valid) (Lexer.pending_endLine s) after steady,
      ← List.singleton_append, Statement.readAll_blank_append blank, alone, head, Option.any_some,
      container]

end

/-- A comment of the printed statements runs over the end of a line, and what follows the comment has
no usable root. -/
def LosesRoot (ss : List Statement) (t : Text) : Prop :=
  ∃ back, Lexer.cutFrom {} (Statement.lines ss) = some back ∧
    ∀ post, Lexer.afterComment (back ++ '\n' :: t) = some post → (scan post).hasUsableRoot = false

theorem hasUsableRoot_printed_iff {ss : List Statement} (wellFormed : ∀ st ∈ ss, st.WellFormed)
    {front : Text} (steady : ∀ c ∈ front, Lexer.isSteady c = true) {h : ElementHead}
    (parsed : ElementHead.parse? front = some h) (other : ∀ k : Keyword, h.typeName ≠ k.spelling)
    (container : isContainer (ElementHead.unqualified h.typeName) = true) (t : Text) :
    (scan (printed ss (front ++ t))).hasUsableRoot = false ↔ LosesRoot ss (front ++ t) := by
  cases cut : Lexer.cutFrom {} (Statement.lines ss) with
  | none =>
      rw [hasUsableRoot_of_uncut wellFormed cut steady parsed other container t]
      constructor
      · exact nofun
      · rintro ⟨back, cut', _⟩
        cases cut.symm.trans cut'
  | some back =>
      rw [hasUsableRoot_of_cut wellFormed cut, Option.any_eq_false]
      constructor
      · exact fun lost => ⟨back, cut, fun post after => by simpa using lost post after⟩
      · rintro ⟨back', cut', lost⟩
        cases cut.symm.trans cut'
        exact fun post after => by simpa using lost post after

end QmlPreview
