import QmlPreview.Indentation
import QmlPreview.Proofs.Blanks
import QmlPreview.Proofs.Nesting

/-! Indenting a text changes no visible character, and no region that one lies in. The lines are told
apart by one lexing of the text, then lexed again with other blanks around them; at every newline the
two lexers are in the same state, unless the first one has just given up on a literal. -/

namespace QmlPreview.Lexer

open Lexeme (visible)

/-- The character is a newline at which the lexer gives up on a literal. -/
def breaksLiteral (s : State) (c : Char) : Bool :=
  match s with
  | ⟨.literal quote, none⟩ => c == '\n' && quote != '`'
  | _ => false

theorem newline_of_breaksLiteral {s : State} {c : Char} (h : breaksLiteral s c = true) :
    c = '\n' := by
  unfold breaksLiteral at h
  split at h
  · simp only [Bool.and_eq_true, beq_iff_eq] at h
    exact h.1
  · cases h

/-- The lexer gives up on no literal. -/
def keepsLiterals : State → Text → Bool
  | _, [] => true
  | s, c :: t => !breaksLiteral s c && keepsLiterals (step s c t.head?).2 t

theorem keepsLiterals_append {s : State} {a b : Text} (h : Apart a b) :
    keepsLiterals s (a ++ b) = (keepsLiterals s a && keepsLiterals (stateAfter s a) b) := by
  induction a generalizing s with
  | nil => rfl
  | cons c a ih =>
      cases a with
      | nil => simp only [List.cons_append, List.nil_append, keepsLiterals, stateAfter,
          List.head?_nil, step_of_apart s h, Bool.and_true]
      | cons d a =>
          have rest := ih (s := (step s c (some d)).2) h.cons
          simp only [List.cons_append] at rest
          rw [List.cons_append, List.cons_append, keepsLiterals, keepsLiterals.eq_2 s c (d :: a),
            stateAfter, List.head?_cons, List.head?_cons, rest, Bool.and_assoc]

theorem keepsLiterals_plain {t : Text} (h : ∀ c ∈ t, isPlain c = true) :
    keepsLiterals {} t = true := by
  induction t with
  | nil => rfl
  | cons c t ih =>
      rw [List.forall_mem_cons] at h
      rw [keepsLiterals, step_plain h.1, ih h.2]
      rfl

theorem step_before_newline (s : State) (c : Char) (front back : Text) :
    step s c (front ++ '\n' :: back).head? = step s c front.head? := by
  cases front with
  | nil => exact step_before_not_delimiter s c fun d hd => by cases hd; rfl
  | cons d front => rfl

/-- A text either keeps its literals or does so up to a newline. -/
theorem keepsLiterals_or_break (s : State) (t : Text) : keepsLiterals s t = true ∨
    ∃ front back, t = front ++ '\n' :: back ∧ keepsLiterals s front = true ∧
      breaksLiteral (stateAfter s front) '\n' = true := by
  induction t generalizing s with
  | nil => exact .inl rfl
  | cons c t ih =>
      cases broken : breaksLiteral s c with
      | true =>
          obtain rfl : c = '\n' := newline_of_breaksLiteral broken
          exact .inr ⟨[], t, rfl, rfl, broken⟩
      | false =>
          simp only [keepsLiterals, broken, Bool.not_false, Bool.true_and]
          refine (ih (step s c t.head?).2).imp_right ?_
          rintro ⟨front, back, rfl, keeps, later⟩
          rw [step_before_newline] at keeps later
          exact ⟨c :: front, back, rfl, by simp only [keepsLiterals, broken, keeps, Bool.not_false,
            Bool.and_self], later⟩

/-- For each line of a lexed text, whether it begins inside a literal, where the first one does if `b`
says so. -/
def lineFlags (b : Bool) (xs : List Lexeme) : List Bool :=
  b :: (xs.filter (·.char == '\n')).map (·.region.isLiteral)

def reindentFrom (b : Bool) (s : State) (t indent : Text) : Text :=
  ['\n'].intercalate
    (List.zipWith (indentLine indent) (Text.lines t) (lineFlags b (lexFrom s t)))

theorem reindent_eq (t indent : Text) : reindent t indent = reindentFrom false {} t indent := rfl

theorem length_lines (b : Bool) (xs : List Lexeme) :
    (Text.lines (xs.map (·.char))).length = (lineFlags b xs).length := by
  induction xs with
  | nil => rfl
  | cons x xs ih =>
      simp only [Text.lines, lineFlags, List.length_cons, List.length_map, List.map_cons,
        List.splitOn_cons_eq_if_modifyHead] at ih ⊢
      by_cases newline : (x.char == '\n') = true
      · simp only [newline, if_true, List.length_cons, ih, List.filter_cons]
      · simp only [newline, if_false, List.length_modifyHead, ih, List.filter_cons,
          Bool.false_eq_true]

theorem intercalate_append {sep : Text} {xs ys : List Text} (hx : xs ≠ []) (hy : ys ≠ []) :
    sep.intercalate (xs ++ ys) = sep.intercalate xs ++ sep ++ sep.intercalate ys := by
  induction xs with
  | nil => exact absurd rfl hx
  | cons x xs ih =>
      cases xs with
      | nil =>
          rw [List.cons_append, List.nil_append, List.intercalate_cons_of_ne_nil hy,
            List.intercalate_singleton]
      | cons x' xs =>
          have rest := ih (List.cons_ne_nil x' xs)
          rw [List.cons_append] at rest
          simp only [List.cons_append, List.intercalate_cons_cons, rest, List.append_assoc]

/-- The region of a newline that is met in state `s`, and the state after it. -/
def endLine (s : State) : Region × State := step s '\n' none

theorem lexFrom_newline (s : State) (t : Text) :
    lexFrom s ('\n' :: t) = ⟨'\n', (endLine s).1⟩ :: lexFrom (endLine s).2 t := by
  rw [lexFrom, step_of_not_delimiter s (by decide)]
  rfl

theorem stateAfter_newline (s : State) (t : Text) :
    stateAfter s ('\n' :: t) = stateAfter (endLine s).2 t := by
  rw [stateAfter, step_of_not_delimiter s (by decide)]
  rfl

theorem apart_before_newline (a t : Text) : Apart a ('\n' :: t) :=
  .inr fun c hc => by cases hc; rfl

theorem lexFrom_append_newline (s : State) (a t : Text) : lexFrom s (a ++ '\n' :: t) =
    lexFrom s a ++ ⟨'\n', (endLine (stateAfter s a)).1⟩ ::
      lexFrom (endLine (stateAfter s a)).2 t := by
  rw [lexFrom_append s (apart_before_newline a t), lexFrom_newline]

theorem lines_append (a t : Text) : Text.lines (a ++ '\n' :: t) = Text.lines a ++ Text.lines t :=
  List.splitOn_append_cons_self a t

/-- The lines before a newline and the lines after it are indented on their own. -/
theorem reindentFrom_append (b : Bool) (s : State) (a t indent : Text) :
    reindentFrom b s (a ++ '\n' :: t) indent = reindentFrom b s a indent ++
      '\n' :: reindentFrom (endLine (stateAfter s a)).1.isLiteral (endLine (stateAfter s a)).2 t
        indent := by
  have flags (b : Bool) (xs ys : List Lexeme) (r : Region) :
      lineFlags b (xs ++ ⟨'\n', r⟩ :: ys) = lineFlags b xs ++ lineFlags r.isLiteral ys := by
    simp only [lineFlags, List.filter_append, List.filter_cons, beq_self_eq_true, if_true,
      List.map_append, List.map_cons, List.cons_append]
  have length : (Text.lines a).length = (lineFlags b (lexFrom s a)).length := by
    rw [← length_lines, map_char_lexFrom]
  have nonempty (t : Text) (b : Bool) (xs : List Lexeme) :
      List.zipWith (indentLine indent) (Text.lines t) (lineFlags b xs) ≠ [] := by
    obtain ⟨line, rest, lines⟩ := List.exists_cons_of_ne_nil (List.splitOn_ne_nil '\n' t)
    rw [Text.lines, lines, lineFlags]
    exact List.cons_ne_nil _ _
  rw [reindentFrom, lexFrom_append_newline, flags, lines_append, List.zipWith_append length,
    intercalate_append (nonempty _ _ _) (nonempty _ _ _), List.append_assoc]
  rfl

theorem reindentFrom_line (b : Bool) (s : State) {line : Text} (h : '\n' ∉ line) (indent : Text) :
    reindentFrom b s line indent = indentLine indent line b := by
  have flags : lineFlags b (lexFrom s line) = [b] := by
    have none : (lexFrom s line).filter (·.char == '\n') = [] := by
      refine List.filter_eq_nil_iff.mpr ?_
      intro x hx newline
      have member : x.char ∈ (lexFrom s line).map (·.char) := List.mem_map_of_mem hx
      rw [map_char_lexFrom, beq_iff_eq.mp newline] at member
      exact h member
    rw [lineFlags, none, List.map_nil]
  rw [reindentFrom, flags, Text.lines, List.splitOn_eq_singleton h]
  exact List.intercalate_singleton

theorem step_blank {s : State} (hs : s.Valid) (none : s.pending = none) {c : Char}
    (blank : Text.isBlank c = true) (newline : c ≠ '\n') (next : Option Char) :
    (step s c next).2 = s := by
  obtain ⟨region, pending⟩ := s
  cases none
  cases region with
  | code => rw [step_plain (isPlain_of_isBlank blank)]
  | lineComment => simp only [step, newline, if_false]
  | blockComment =>
      have star : c ≠ '*' := by
        rintro rfl
        cases blank
      simp only [step, star, false_and, if_false]
  | literal q =>
      have escape : c ≠ '\\' := by
        rintro rfl
        cases blank
      have quote : c ≠ q := by
        rintro rfl
        have plain := isPlain_of_isBlank blank
        rw [isPlain, hs.isQuote c rfl, Bool.not_true, Bool.and_false] at plain
        cases plain
      simp only [step, escape, quote, newline, false_and, if_false]

theorem stateAfter_blanks {s : State} (hs : s.Valid) (none : s.pending = none) {w : Text}
    (blank : ∀ c ∈ w, Text.isBlank c = true) (newline : '\n' ∉ w) : stateAfter s w = s := by
  induction w with
  | nil => rfl
  | cons c w ih =>
      rw [List.forall_mem_cons] at blank
      rw [List.mem_cons, not_or] at newline
      rw [stateAfter, step_blank hs none blank.1 (Ne.symm newline.1), ih blank.2 newline.2]

theorem visible_append (xs ys : List Lexeme) :
    visible (xs ++ ys) = visible xs ++ visible ys := List.filter_append xs ys

theorem visible_blanks (s : State) {w : Text} (blank : ∀ c ∈ w, Text.isBlank c = true) :
    visible (lexFrom s w) = [] := by
  refine List.filter_eq_nil_iff.mpr ?_
  intro x hx
  have member : x.char ∈ (lexFrom s w).map (·.char) := List.mem_map_of_mem hx
  rw [map_char_lexFrom] at member
  simp only [Lexeme.isVisible, blank _ member, Bool.not_true, Bool.false_eq_true, not_false_iff]

theorem visible_trimEnd (s : State) (line : Text) :
    visible (lexFrom s (Text.trimEnd line)) = visible (lexFrom s line) := by
  obtain ⟨trail, blank, parts⟩ := Text.exists_trimEnd line
  have apart : Apart (Text.trimEnd line) trail :=
    apart_blank fun c hc => blank c (List.mem_of_head? hc)
  calc visible (lexFrom s (Text.trimEnd line))
      = visible (lexFrom s (Text.trimEnd line ++ trail)) := by
        rw [lexFrom_append s apart, visible_append, visible_blanks _ blank, List.append_nil]
    _ = visible (lexFrom s line) := by rw [← parts]

theorem valid_endLine {s : State} (hs : s.Valid) : (endLine s).2.Valid := valid_step hs '\n' none

theorem pending_endLine (s : State) : (endLine s).2.pending = none := by
  obtain ⟨region, pending⟩ := s
  cases pending with
  | some r => rfl
  | none =>
      cases region with
      | code => rfl
      | lineComment => rfl
      | blockComment => rfl
      | literal q =>
          simp only [endLine, step, Char.reduceEq, if_false]
          split
          · rfl
          · split <;> rfl

/-- The blanks at the end of a line make no difference for the next one. An escape that one of them
follows is the exception, but then the newline breaks the literal, or lies in a template. -/
theorem endLine_trimEnd {s : State} (hs : s.Valid) (none : s.pending = none) {line : Text}
    (newline : '\n' ∉ line) (keeps : breaksLiteral (stateAfter s line) '\n' = false) :
    (endLine (stateAfter s (Text.trimEnd line))).2 = (endLine (stateAfter s line)).2 := by
  obtain ⟨trail, blank, parts⟩ := Text.exists_trimEnd line
  have trailNewline : '\n' ∉ trail := by
    intro member
    rw [parts] at newline
    exact newline (List.mem_append_right _ member)
  have apart : Apart (Text.trimEnd line) trail :=
    apart_blank fun c hc => blank c (List.mem_of_head? hc)
  have whole : stateAfter s line = stateAfter (stateAfter s (Text.trimEnd line)) trail := by
    rw [← stateAfter_append s apart, ← parts]
  have valid := valid_stateAfter hs (Text.trimEnd line)
  rcases pending_stateAfter none (Text.trimEnd line) with settled | ⟨q, escape⟩
  · rw [whole, stateAfter_blanks valid settled blank trailNewline]
  · cases trail with
    | nil => rw [whole, stateAfter]
    | cons c w =>
        rw [List.forall_mem_cons] at blank
        rw [List.mem_cons, not_or] at trailNewline
        have quote : isQuote q = true := valid.isQuote q (by rw [escape])
        have inside : State.Valid ⟨.literal q, .none⟩ :=
          ⟨fun r hr => by cases hr; exact quote, fun r hr => by cases hr⟩
        have after : stateAfter s line = ⟨.literal q, .none⟩ := by
          rw [whole, escape]
          exact stateAfter_blanks inside rfl blank.2 trailNewline.2
        have template : q = '`' := by
          simpa only [after, breaksLiteral, beq_self_eq_true, Bool.true_and, bne_eq_false_iff_eq]
            using keeps
        subst template
        rw [after, escape]
        rfl

section
variable {indent : Text} (spaces : ∀ c ∈ indent, Text.isBlank c = true) (flat : '\n' ∉ indent)
variable {s : State} (hs : s.Valid) (none : s.pending = none)
include spaces flat hs none

theorem lexFrom_indent (t : Text) :
    visible (lexFrom s (indent ++ t)) = visible (lexFrom s t) ∧
      stateAfter s (indent ++ t) = stateAfter s t := by
  have apart : Apart indent t :=
    .inl fun c hc => isDelimiter_of_isBlank (spaces c (List.mem_of_getLast? hc))
  rw [lexFrom_append s apart, stateAfter_append s apart, stateAfter_blanks hs none spaces flat,
    visible_append, visible_blanks s spaces, List.nil_append]
  exact ⟨rfl, rfl⟩

theorem lexFrom_indentLine (line : Text) (b : Bool) :
    visible (lexFrom s (indentLine indent line b)) = visible (lexFrom s line) ∧
      (stateAfter s (indentLine indent line b) = stateAfter s line ∨
        stateAfter s (indentLine indent line b) = stateAfter s (Text.trimEnd line)) := by
  unfold indentLine
  split
  · exact ⟨rfl, .inl rfl⟩
  · split
    · exact ⟨visible_trimEnd s line, .inr rfl⟩
    · obtain ⟨shown, state⟩ := lexFrom_indent spaces flat hs none (Text.trimEnd line)
      exact ⟨shown.trans (visible_trimEnd s line), .inr state⟩

/-- Indenting a text that keeps its literals changes nothing visible, and nothing about the end of the
text if that is visible. -/
theorem lexFrom_reindentFrom {t : Text} (keeps : keepsLiterals s t = true) (b : Bool) :
    visible (lexFrom s (reindentFrom b s t indent)) = visible (lexFrom s t) ∧
      (Text.EndsVisible t → stateAfter s (reindentFrom b s t indent) = stateAfter s t) := by
  induction t using Text.lineRec generalizing s b with
  | last line unbroken =>
      rw [reindentFrom_line b s unbroken]
      obtain ⟨shown, state⟩ := lexFrom_indentLine spaces flat hs none line b
      refine ⟨shown, fun ends => ?_⟩
      rwa [Text.trimEnd_eq_self ends, or_self] at state
  | more line rest unbroken ih =>
      obtain ⟨shown, state⟩ := lexFrom_indentLine spaces flat hs none line b
      rw [keepsLiterals_append (apart_before_newline line rest), Bool.and_eq_true, keepsLiterals,
        Bool.and_eq_true, Bool.not_eq_true', step_of_not_delimiter _ (by decide)] at keeps
      have next : (endLine (stateAfter s (indentLine indent line b))).2 =
          (endLine (stateAfter s line)).2 := by
        rcases state with same | trimmed
        · rw [same]
        · rw [trimmed, endLine_trimEnd hs none unbroken keeps.2.1]
      obtain ⟨later, ends⟩ := ih (valid_endLine (valid_stateAfter hs line)) (pending_endLine _)
        keeps.2.2 (endLine (stateAfter s line)).1.isLiteral
      rw [reindentFrom_append, reindentFrom_line b s unbroken, lexFrom_append_newline,
        lexFrom_append_newline, stateAfter_append s (apart_before_newline _ _),
        stateAfter_append s (apart_before_newline _ _), stateAfter_newline, stateAfter_newline, next]
      refine ⟨?_, ?_⟩
      · rw [visible_append, visible_append, shown]
        have newline (r : Region) (xs : List Lexeme) : visible (⟨'\n', r⟩ :: xs) = visible xs := rfl
        rw [newline, newline, later]
      · intro visibleEnd
        refine ends ?_
        intro c hc
        refine visibleEnd c ?_
        rw [Text.getLast?_append_of_ne_nil _ (List.cons_ne_nil _ _)]
        cases rest with
        | nil => cases hc
        | cons d rest => rwa [List.getLast?_cons_cons]

end

end QmlPreview.Lexer
