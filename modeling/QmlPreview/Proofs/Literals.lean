import Mathlib.Data.List.SplitBy
import QmlPreview.Proofs.Reindenting

/-! The string literals of an indented text. Indenting a line that begins outside of literals cuts
the blanks at its end, also where these lie in a literal that the line opens. The literals of a text
stay as they are exactly if no line of it is cut there. -/

namespace QmlPreview.Lexer

/-- The characters that lie in literals, each with whether it opens its literal. -/
def inLiterals : State → Text → List (Lexeme × Bool)
  | _, [] => []
  | s, c :: t =>
    let rest := inLiterals (step s c t.head?).2 t
    if (step s c t.head?).1.isLiteral then
      (⟨c, (step s c t.head?).1⟩, !s.region.isLiteral) :: rest
    else rest

/-- The string literals of a text in order, each from its opening quote up to its last character. -/
def literals (t : Text) : List (List Lexeme) :=
  ((inLiterals {} t).splitBy fun _ next => !next.2).map fun literal => literal.map Prod.fst

/-- Indenting the line, which begins inside a literal if `b` says so, cuts blanks off a literal. -/
def cutsLiteral (line : List Lexeme) (b : Bool) : Bool :=
  !b && line.getLast?.any fun x => Text.isBlank x.char && x.region.isLiteral

/-- Indenting the lines of a text that the lexer starts in state `s` cuts no literal. -/
def CutsNone (b : Bool) (s : State) (t : Text) : Prop :=
  ∀ line ∈ ((lexFrom s t).splitOnP (·.char == '\n')).zip (lineFlags b (lexFrom s t)),
    cutsLiteral line.1 line.2 = false

instance (b : Bool) (s : State) (t : Text) : Decidable (CutsNone b s t) :=
  inferInstanceAs (Decidable (∀ line ∈ _, _))

theorem map_fst_inLiterals (s : State) (t : Text) :
    (inLiterals s t).map Prod.fst = (lexFrom s t).filter (·.region.isLiteral) := by
  induction t generalizing s with
  | nil => rfl
  | cons c t ih =>
      simp only [inLiterals, lexFrom, List.filter_cons, ← ih]
      split <;> rfl

theorem inLiterals_append (s : State) {a b : Text} (h : Apart a b) :
    inLiterals s (a ++ b) = inLiterals s a ++ inLiterals (stateAfter s a) b := by
  induction a generalizing s with
  | nil => rfl
  | cons c a ih =>
      have both : step s c (a ++ b).head? = step s c a.head? ∧
          inLiterals (step s c a.head?).2 (a ++ b) =
            inLiterals (step s c a.head?).2 a ++ inLiterals (stateAfter s (c :: a)) b := by
        cases a with
        | nil => exact ⟨step_of_apart s h, rfl⟩
        | cons d a => exact ⟨rfl, ih _ h.cons⟩
      rw [List.cons_append, inLiterals, both.1, both.2, inLiterals.eq_2 s c a]
      split <;> rfl

theorem inLiterals_newline (s : State) (t : Text) : inLiterals s ('\n' :: t) =
    (if (endLine s).1.isLiteral then [(⟨'\n', (endLine s).1⟩, !s.region.isLiteral)] else []) ++
      inLiterals (endLine s).2 t := by
  rw [inLiterals, step_of_not_delimiter s (by decide), endLine]
  cases (step s '\n' none).1.isLiteral <;> rfl

/-- Outside of literals a literal is met with its quote. -/
theorem isQuote_of_head?_inLiterals {s : State} (hs : s.Valid)
    (outside : s.region.isLiteral = false) (t : Text) :
    ∀ p ∈ (inLiterals s t).head?, isQuote p.1.char = true := by
  induction t generalizing s with
  | nil => nofun
  | cons c t ih =>
      rw [inLiterals]
      split
      · rename_i inside
        rintro p ⟨rfl⟩
        exact (opens_of_isLiteral hs outside inside).2
      · rename_i inside
        exact ih (valid_step hs c t.head?) (isLiteral_step hs (Bool.eq_false_iff.mpr inside))

theorem not_isQuote_of_isBlank {c : Char} (h : Text.isBlank c = true) : isQuote c = false := by
  have plain := isPlain_of_isBlank h
  simp only [isPlain, Bool.and_eq_true, Bool.not_eq_true'] at plain
  exact plain.2

section
variable {s : State} (hs : s.Valid)
include hs

/-- Blanks open no literal. -/
theorem inLiterals_blanks (outside : s.region.isLiteral = false) {w : Text}
    (blank : ∀ c ∈ w, Text.isBlank c = true) : inLiterals s w = [] := by
  cases shown : inLiterals s w with
  | nil => rfl
  | cons p ps =>
      have quote := isQuote_of_head?_inLiterals hs outside w
      have member : p.1 ∈ (lexFrom s w).filter (·.region.isLiteral) := by
        rw [← map_fst_inLiterals, shown]
        exact List.mem_cons_self
      have char : p.1.char ∈ (lexFrom s w).map (·.char) :=
        List.mem_map_of_mem (List.mem_of_mem_filter member)
      rw [map_char_lexFrom] at char
      rw [shown] at quote
      cases (not_isQuote_of_isBlank (blank _ char)).symm.trans (quote p rfl)

theorem isLiteral_step_blank (inside : s.region.isLiteral = true) {c : Char}
    (blank : Text.isBlank c = true) (newline : c ≠ '\n') (next : Option Char) :
    (step s c next).1.isLiteral = true ∧ (step s c next).2.region.isLiteral = true := by
  cases settled : s.pending with
  | some r =>
      simp only [step, settled]
      rcases hs.pending r settled with ⟨rfl, _⟩ | ⟨_, code⟩
      · exact ⟨inside, inside⟩
      · rw [code] at inside
        cases inside
  | none =>
      have state := step_blank hs settled blank newline next
      refine ⟨?_, by rw [state, inside]⟩
      cases shown : (step s c next).1.isLiteral with
      | true => rfl
      | false =>
          have outside := isLiteral_step hs shown
          rw [state, inside] at outside
          cases outside

/-- The blanks at the end of a line that ends inside a literal lie in the literal. -/
theorem isLiteral_of_mem_blanks (inside : s.region.isLiteral = true) {w : Text}
    (blank : ∀ c ∈ w, Text.isBlank c = true) (newline : '\n' ∉ w) :
    ∀ x ∈ lexFrom s w, x.region.isLiteral = true := by
  induction w generalizing s with
  | nil => nofun
  | cons c w ih =>
      rw [List.forall_mem_cons] at blank
      rw [List.mem_cons, not_or] at newline
      obtain ⟨here, after⟩ := isLiteral_step_blank hs inside blank.1 (Ne.symm newline.1) w.head?
      exact List.forall_mem_cons.mpr ⟨here, ih (valid_step hs c _) after blank.2 newline.2⟩

/-- Where blanks are cut off a literal, it goes on with a newline or the next one begins. -/
theorem ne_inLiterals_blank (inside : s.region.isLiteral = true) {c : Char}
    (blank : Text.isBlank c = true) (newline : c ≠ '\n') (trail : Text) {later : Text}
    (ends : later = [] ∨ ∃ t, later = '\n' :: t) :
    (inLiterals s later).map Prod.fst ≠ (inLiterals s (c :: trail)).map Prod.fst := by
  have first := (isLiteral_step_blank hs inside blank newline trail.head?).1
  simp only [inLiterals, first, if_true, List.map_cons]
  rcases ends with rfl | ⟨t, rfl⟩
  · exact (List.cons_ne_nil _ _).symm
  · rw [inLiterals]
    split
    · intro same
      exact newline (congrArg Lexeme.char (List.cons.inj same).1).symm
    · rename_i outside
      have quote := isQuote_of_head?_inLiterals (valid_step hs _ _)
        (isLiteral_step hs (Bool.eq_false_iff.mpr outside)) t
      intro same
      cases opening : inLiterals (step s '\n' t.head?).2 t with
      | nil =>
          rw [opening] at same
          cases same
      | cons p ps =>
          rw [opening, List.map_cons] at same
          rw [opening] at quote
          have char : p.1.char = c := congrArg Lexeme.char (List.cons.inj same).1
          have opens := quote p rfl
          rw [char, not_isQuote_of_isBlank blank] at opens
          cases opens

end

theorem cutsLiteral_of_endsVisible {line : Text} (h : Text.EndsVisible line) (s : State)
    (b : Bool) : cutsLiteral (lexFrom s line) b = false := by
  rw [cutsLiteral, Bool.and_eq_false_iff]
  right
  cases last : (lexFrom s line).getLast? with
  | none => rfl
  | some x =>
      have char : x.char ∈ line.getLast? := by
        rw [← map_char_lexFrom s line, List.getLast?_map, last]
        rfl
      simp only [Option.any_some, h _ char, Bool.false_and]

theorem cutsLiteral_append (xs : List Lexeme) {ys : List Lexeme} (nonempty : ys ≠ []) (b : Bool) :
    cutsLiteral (xs ++ ys) b = cutsLiteral ys b := by
  rw [cutsLiteral, cutsLiteral, List.getLast?_append, List.getLast?_eq_some_getLast nonempty,
    Option.some_or]

/-- A line whose last blanks lie in a literal is cut, and no other one. -/
theorem cutsLiteral_blanks {s : State} {c : Char} {w : Text}
    (blank : ∀ d ∈ c :: w, Text.isBlank d = true) {inside : Bool}
    (all : ∀ x ∈ lexFrom s (c :: w), x.region.isLiteral = inside) :
    cutsLiteral (lexFrom s (c :: w)) false = inside := by
  have nonempty : lexFrom s (c :: w) ≠ [] := List.cons_ne_nil _ _
  have member := List.getLast_mem nonempty
  have char : ((lexFrom s (c :: w)).getLast nonempty).char ∈
      (lexFrom s (c :: w)).map (·.char) := List.mem_map_of_mem member
  rw [map_char_lexFrom] at char
  rw [cutsLiteral, List.getLast?_eq_some_getLast nonempty, Option.any_some, blank _ char,
    all _ member, Bool.not_false, Bool.true_and, Bool.true_and]

section
variable {s : State} {line : Text} (unbroken : '\n' ∉ line) (b : Bool)
include unbroken

theorem lexFrom_unbroken : ∀ x ∈ lexFrom s line, (x.char == '\n') = false := by
  intro x hx
  have char : x.char ∈ (lexFrom s line).map (·.char) := List.mem_map_of_mem hx
  rw [map_char_lexFrom] at char
  exact beq_eq_false_iff_ne.mpr fun newline => unbroken (newline ▸ char)

theorem cutsNone_line : CutsNone b s line ↔ cutsLiteral (lexFrom s line) b = false := by
  have none : (lexFrom s line).filter (·.char == '\n') = [] :=
    List.filter_eq_nil_iff.mpr fun x hx => Bool.eq_false_iff.mp (lexFrom_unbroken unbroken x hx)
  simp only [CutsNone, List.splitOnP_eq_singleton (lexFrom_unbroken unbroken), lineFlags, none,
    List.map_nil, List.zip_cons_cons, List.zip_nil_left, List.forall_mem_singleton]

theorem cutsNone_append (rest : Text) : CutsNone b s (line ++ '\n' :: rest) ↔
    cutsLiteral (lexFrom s line) b = false ∧
      CutsNone (endLine (stateAfter s line)).1.isLiteral (endLine (stateAfter s line)).2 rest := by
  have none : (lexFrom s line).filter (·.char == '\n') = [] :=
    List.filter_eq_nil_iff.mpr fun x hx => Bool.eq_false_iff.mp (lexFrom_unbroken unbroken x hx)
  have split := List.splitOnP_append_cons_of_forall_mem (p := (·.char == '\n'))
    (lexFrom_unbroken (s := s) unbroken) ⟨'\n', (endLine (stateAfter s line)).1⟩ rfl
    (lexFrom (endLine (stateAfter s line)).2 rest)
  simp only [CutsNone, lexFrom_append_newline, split, lineFlags, List.filter_append, none,
    List.filter_cons, List.nil_append, beq_self_eq_true, if_true, List.map_cons,
    List.zip_cons_cons, List.forall_mem_cons]

end

/-- How indenting a line changes what the lexer finds: nothing, or the literal that the line ends in
loses the blanks from `c` on. -/
inductive Indents (s : State) (indent line : Text) (b : Bool) : Prop
  | keeps (uncut : cutsLiteral (lexFrom s line) b = false)
      (same : inLiterals s (indentLine indent line b) = inLiterals s line)
      (after : stateAfter s (indentLine indent line b) = stateAfter s line)
  | cuts (cut : cutsLiteral (lexFrom s line) b = true) (front : Text) (c : Char) (trail : Text)
      (parts : line = front ++ c :: trail) (blank : Text.isBlank c = true) (newline : c ≠ '\n')
      (inside : (stateAfter s front).region.isLiteral = true)
      (same : inLiterals s (indentLine indent line b) = inLiterals s front)
      (after : stateAfter s (indentLine indent line b) = stateAfter s front)

section
variable {indent : Text} (spaces : ∀ c ∈ indent, Text.isBlank c = true) (flat : '\n' ∉ indent)
variable {s : State} (hs : s.Valid) (none : s.pending = none)
include spaces flat hs none

theorem inLiterals_indentLine (outside : s.region.isLiteral = false) (line : Text) :
    inLiterals s (indentLine indent line false) = inLiterals s (Text.trimEnd line) ∧
      stateAfter s (indentLine indent line false) = stateAfter s (Text.trimEnd line) := by
  unfold indentLine
  rw [if_neg Bool.false_ne_true]
  split
  · exact ⟨rfl, rfl⟩
  · have apart : Apart indent (Text.trimEnd line) :=
      .inl fun c hc => isDelimiter_of_isBlank (spaces c (List.mem_of_getLast? hc))
    rw [inLiterals_append s apart, stateAfter_append s apart, stateAfter_blanks hs none spaces flat,
      inLiterals_blanks hs outside spaces, List.nil_append]
    exact ⟨rfl, rfl⟩

theorem indents {b : Bool} (outside : b = false → s.region.isLiteral = false) {line : Text}
    (unbroken : '\n' ∉ line) : Indents s indent line b := by
  cases b with
  | true => exact .keeps rfl rfl rfl
  | false =>
      obtain ⟨same, after⟩ := inLiterals_indentLine spaces flat hs none (outside rfl) line
      obtain ⟨trail, blank, parts⟩ := Text.exists_trimEnd line
      have shown := Text.endsVisible_trimEnd line
      generalize Text.trimEnd line = front at same after parts shown
      subst parts
      have valid := valid_stateAfter hs front
      have flat : '\n' ∉ trail := fun member => unbroken (List.mem_append_right front member)
      cases trail with
      | nil =>
          rw [List.append_nil] at same after ⊢
          exact .keeps (cutsLiteral_of_endsVisible shown s false) same after
      | cons c trail =>
          have apart : Apart front (c :: trail) :=
            apart_blank fun d hd => blank d (List.mem_of_head? hd)
          have lexed := lexFrom_append s apart
          have cut := cutsLiteral_append (lexFrom s front)
            (show lexFrom (stateAfter s front) (c :: trail) ≠ [] from List.cons_ne_nil _ _) false
          rw [← lexed] at cut
          cases inside : (stateAfter s front).region.isLiteral with
          | false =>
              have settled : (stateAfter s front).pending = Option.none := by
                rcases pending_stateAfter none front with settled | ⟨q, escape⟩
                · exact settled
                · rw [escape] at inside
                  cases inside
              have apartFrom := inLiterals_blanks valid inside blank
              refine .keeps (cut.trans (cutsLiteral_blanks blank fun x hx => ?_)) ?_ ?_
              · have kept := map_fst_inLiterals (stateAfter s front) (c :: trail)
                rw [apartFrom] at kept
                exact Bool.eq_false_iff.mpr (List.filter_eq_nil_iff.mp kept.symm x hx)
              · rw [same, inLiterals_append s apart, apartFrom, List.append_nil]
              · rw [after, stateAfter_append s apart, stateAfter_blanks valid settled blank flat]
          | true =>
              have all := isLiteral_of_mem_blanks valid inside blank flat
              rw [List.forall_mem_cons] at blank
              rw [List.mem_cons, not_or] at flat
              exact .cuts (cut.trans (cutsLiteral_blanks (List.forall_mem_cons.mpr blank) all))
                front c trail rfl blank.1 (Ne.symm flat.1) inside same after

/-- Indenting a text keeps its literals if it cuts none, and some character of them is lost else. -/
theorem inLiterals_reindentFrom {b : Bool} (outside : b = false → s.region.isLiteral = false)
    (t : Text) :
    (CutsNone b s t → inLiterals s (reindentFrom b s t indent) = inLiterals s t) ∧
      ((inLiterals s (reindentFrom b s t indent)).map Prod.fst = (inLiterals s t).map Prod.fst →
        CutsNone b s t) := by
  induction t using Text.lineRec generalizing s b with
  | last line unbroken =>
      rw [reindentFrom_line b s unbroken, cutsNone_line unbroken]
      cases indents spaces flat hs none outside unbroken with
      | keeps uncut same after => exact ⟨fun _ => same, fun _ => uncut⟩
      | cuts cut front c trail parts blank newline inside same after =>
          have apart : Apart front (c :: trail) := apart_blank fun d hd => by cases hd; exact blank
          refine ⟨fun uncut => (by rw [uncut] at cut; cases cut), fun equal => ?_⟩
          rw [same, parts, inLiterals_append s apart, List.map_append] at equal
          refine absurd ?_ (ne_inLiterals_blank (valid_stateAfter hs front) inside blank newline
            trail (.inl rfl))
          exact (List.self_eq_append_right.mp equal).symm
  | more line rest unbroken ih =>
      rw [reindentFrom_append, reindentFrom_line b s unbroken, cutsNone_append unbroken,
        inLiterals_append s (apart_before_newline _ _)]
      cases indents spaces flat hs none outside unbroken with
      | keeps uncut same after =>
          have valid := valid_stateAfter hs line
          obtain ⟨kept, lost⟩ := ih (valid_endLine valid) (pending_endLine (stateAfter s line))
            (b := (endLine (stateAfter s line)).1.isLiteral) fun flag => isLiteral_step valid flag
          rw [same, after, inLiterals_append s (apart_before_newline _ _), inLiterals_newline,
            inLiterals_newline]
          refine ⟨fun uncut => by rw [kept uncut.2], fun equal => ⟨uncut, lost ?_⟩⟩
          simp only [List.map_append] at equal
          exact List.append_cancel_left (List.append_cancel_left equal)
      | cuts cut front c trail parts blank newline inside same after =>
          refine ⟨fun uncut => (by rw [uncut.1] at cut; cases cut), fun equal => ?_⟩
          have apart : Apart front (c :: (trail ++ '\n' :: rest)) :=
            apart_blank fun d hd => by cases hd; exact blank
          rw [same, after, parts, List.append_assoc, List.cons_append, inLiterals_append s apart,
            List.map_append, List.map_append] at equal
          exact absurd (List.append_cancel_left equal) (ne_inLiterals_blank
            (valid_stateAfter hs front) inside blank newline _ (.inr ⟨_, rfl⟩))

end

/-- Indenting a text with spaces changes none of its string literals exactly if no line that begins
outside of literals ends in a blank that lies in one. -/
theorem reindenting_keeps_literals_iff {indent : Text} (spaces : ∀ c ∈ indent, c = ' ')
    (t : Text) : literals (reindent t indent) = literals t ↔
      ∀ line ∈ ((lex t).splitOnP (·.char == '\n')).zip (linesInLiteral (lex t)),
        cutsLiteral line.1 line.2 = false := by
  have blank : ∀ c ∈ indent, Text.isBlank c = true := fun c hc => by
    rw [spaces c hc]
    rfl
  have flat : '\n' ∉ indent := fun member => by cases spaces _ member
  obtain ⟨kept, lost⟩ :=
    inLiterals_reindentFrom blank flat valid_start rfl (b := false) (fun _ => rfl) t
  rw [← reindent_eq] at kept lost
  constructor
  · intro same
    have flattened := congrArg List.flatten same
    simp only [literals, ← List.map_flatten, List.flatten_splitBy] at flattened
    exact lost flattened
  · intro uncut
    rw [literals, literals, kept uncut]

/-- Blanks after a literal go, those of a line that begins inside a template stay. -/
theorem reindenting_keeps_literals_of_template :
    let t := "x: `a\n b \n` + \"c \" \ny: 'd'".toList
    reindent t "  ".toList = "  x: `a\n b \n` + \"c \" \n  y: 'd'".toList ∧
      literals (reindent t "  ".toList) = literals t ∧
      (literals t).map (·.map (·.char)) =
        ["`a\n b \n`".toList, "\"c \"".toList, "'d'".toList] := by
  intro t
  have uncut : ∀ line ∈ ((lex t).splitOnP (·.char == '\n')).zip (linesInLiteral (lex t)),
      cutsLiteral line.1 line.2 = false := by decide +kernel
  have spaces : ∀ c ∈ "  ".toList, c = ' ' := by decide
  have same := (reindenting_keeps_literals_iff spaces t).mpr uncut
  exact ⟨by decide +kernel, same, by decide +kernel⟩

/-- The first line of a template literal loses the blank at its end. -/
theorem reindenting_cuts_template :
    let t := "`a \nb`".toList
    (literals t).map (·.map (·.char)) = ["`a \nb`".toList] ∧
      (literals (reindent t "  ".toList)).map (·.map (·.char)) = ["`a\nb`".toList] ∧
      literals (reindent t "  ".toList) ≠ literals t := by
  decide +kernel

end QmlPreview.Lexer
