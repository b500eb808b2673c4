import QmlPreview.Lexer
import QmlPreview.Wrap.Quoted

/-! Lexing a text in parts. The lexer looks one character ahead, so two texts are lexed one after the
other wherever no comment delimiter can straddle the place where they meet. -/

namespace QmlPreview.Lexer

/-- A character that is half of a comment delimiter. -/
def isDelimiter (c : Char) : Bool := c == '/' || c == '*'

/-- No comment delimiter straddles the place where the second text follows the first. -/
def Apart (a b : Text) : Prop :=
  (∀ c ∈ a.getLast?, isDelimiter c = false) ∨ ∀ c ∈ b.head?, isDelimiter c = false

theorem Apart.cons {c d : Char} {a b : Text} (h : Apart (c :: d :: a) b) : Apart (d :: a) b := by
  simpa only [Apart, List.getLast?_cons_cons] using h

theorem Apart.append_left {b t : Text} (h : Apart b t) (nonempty : b ≠ []) (a : Text) :
    Apart (a ++ b) t := by
  have last : (a ++ b).getLast? = b.getLast? := by
    rw [List.getLast?_append, List.getLast?_eq_some_getLast nonempty, Option.some_or]
  rwa [Apart, last]

theorem apart_newline (a b : Text) : Apart (a ++ ['\n']) b := by
  refine .inl ?_
  intro c hc
  simp only [List.getLast?_append, List.getLast?_singleton, Option.some_or,
    Option.mem_some_iff] at hc
  subst hc
  rfl

theorem isDelimiter_of_isBlank {c : Char} (h : Text.isBlank c = true) : isDelimiter c = false := by
  simp only [isDelimiter, Bool.or_eq_false_iff, beq_eq_false_iff_ne]
  constructor
  · rintro rfl
    exact absurd h (by decide)
  · rintro rfl
    exact absurd h (by decide)

theorem apart_blank {a b : Text} (h : ∀ c ∈ b.head?, Text.isBlank c = true) : Apart a b :=
  .inr fun c hc => isDelimiter_of_isBlank (h c hc)

/-- What follows a character decides only where the character may open or close a comment. -/
theorem step_of_not_delimiter (s : State) {c : Char} (hc : isDelimiter c = false)
    (next : Option Char) : step s c next = step s c none := by
  simp only [isDelimiter, Bool.or_eq_false_iff, beq_eq_false_iff_ne] at hc
  simp only [step, hc.1, hc.2, false_and, if_false]

theorem step_before_not_delimiter (s : State) (c : Char) {next : Option Char}
    (hn : ∀ d ∈ next, isDelimiter d = false) : step s c next = step s c none := by
  have slash : next ≠ some '/' := fun e => absurd (hn _ e) (by decide)
  have star : next ≠ some '*' := fun e => absurd (hn _ e) (by decide)
  simp only [step, slash, star, and_false, if_false, reduceCtorEq]

theorem step_of_apart (s : State) {c : Char} {b : Text} (h : Apart [c] b) :
    step s c b.head? = step s c none := by
  rcases h with last | first
  · exact step_of_not_delimiter s (last c rfl) _
  · exact step_before_not_delimiter s c first

theorem lexFrom_append (s : State) {a b : Text} (h : Apart a b) :
    lexFrom s (a ++ b) = lexFrom s a ++ lexFrom (stateAfter s a) b := by
  induction a generalizing s with
  | nil => rfl
  | cons c a ih =>
      cases a with
      | nil => simp only [List.cons_append, List.nil_append, lexFrom, stateAfter, List.head?_nil,
          step_of_apart s h]
      | cons d a =>
          have rest := ih (step s c (some d)).2 h.cons
          simp only [List.cons_append] at rest
          simp only [List.cons_append, lexFrom, stateAfter, List.head?_cons] at rest ⊢
          rw [rest]

theorem stateAfter_append (s : State) {a b : Text} (h : Apart a b) :
    stateAfter s (a ++ b) = stateAfter (stateAfter s a) b := by
  induction a generalizing s with
  | nil => rfl
  | cons c a ih =>
      cases a with
      | nil => simp only [List.cons_append, List.nil_append, stateAfter, List.head?_nil,
          step_of_apart s h]
      | cons d a =>
          have rest := ih (step s c (some d)).2 h.cons
          simp only [List.cons_append] at rest
          simp only [List.cons_append, stateAfter, List.head?_cons] at rest ⊢
          rw [rest]

theorem lex_append {a b : Text} (h : Apart a b) :
    lex (a ++ b) = lex a ++ lexFrom (stateAfter {} a) b := lexFrom_append {} h

@[simp] theorem length_lexFrom (s : State) (t : Text) : (lexFrom s t).length = t.length := by
  rw [← List.length_map Lexeme.char, map_char_lexFrom]

@[simp] theorem map_char_lex (t : Text) : (lex t).map (·.char) = t := map_char_lexFrom {} t

/-- A state that lexing can meet: quotes open literals, and what is pending belongs to the comment or
the literal that is open, or ends a block comment. -/
structure State.Valid (s : State) : Prop where
  isQuote : ∀ q, s.region = .literal q → isQuote q = true
  pending : ∀ r, s.pending = some r →
    (r = s.region ∧ r ≠ .code) ∨ (r = .blockComment ∧ s.region = .code)

theorem valid_start : State.Valid {} := ⟨nofun, nofun⟩

theorem valid_step {s : State} (hs : s.Valid) (c : Char) (next : Option Char) :
    (step s c next).2.Valid := by
  obtain ⟨region, pending⟩ := s
  cases pending with
  | some r => exact ⟨hs.isQuote, nofun⟩
  | none =>
      cases region with
      | code =>
          simp only [step]
          split
          · exact ⟨nofun, fun r h => .inl (by cases h; exact ⟨rfl, nofun⟩)⟩
          · split
            · exact ⟨nofun, fun r h => .inl (by cases h; exact ⟨rfl, nofun⟩)⟩
            · split
              · rename_i quote
                exact ⟨fun q h => by cases h; exact quote, nofun⟩
              · exact hs
      | lineComment =>
          simp only [step]
          split
          · exact ⟨nofun, nofun⟩
          · exact hs
      | blockComment =>
          simp only [step]
          split
          · exact ⟨nofun, fun r h => .inr (by cases h; exact ⟨rfl, rfl⟩)⟩
          · exact hs
      | literal q =>
          simp only [step]
          split
          · exact ⟨hs.isQuote, fun r h => .inl (by cases h; exact ⟨rfl, nofun⟩)⟩
          · split
            · exact ⟨nofun, nofun⟩
            · split
              · exact ⟨nofun, nofun⟩
              · exact hs

/-- A literal is open after a character only if the character lies in it. -/
theorem isLiteral_step {s : State} (hs : s.Valid) {c : Char} {next : Option Char}
    (h : (step s c next).1.isLiteral = false) : (step s c next).2.region.isLiteral = false := by
  obtain ⟨region, pending⟩ := s
  cases pending with
  | some r =>
      rcases hs.pending r rfl with ⟨rfl, _⟩ | ⟨_, code⟩
      · exact h
      · cases code
        rfl
  | none =>
      cases region with
      | code =>
          revert h
          simp only [step]
          split
          · exact fun _ => rfl
          · split
            · exact fun _ => rfl
            · split
              · exact nofun
              · exact fun _ => rfl
      | lineComment =>
          simp only [step]
          split <;> rfl
      | blockComment =>
          simp only [step]
          split <;> rfl
      | literal q =>
          revert h
          simp only [step]
          split
          · exact nofun
          · split
            · exact nofun
            · split
              · exact fun _ => rfl
              · exact nofun

/-- Outside of literals, a character lies in one only if it opens it. -/
theorem opens_of_isLiteral {s : State} (hs : s.Valid) (outside : s.region.isLiteral = false)
    {c : Char} {next : Option Char} (h : (step s c next).1.isLiteral = true) :
    s = {} ∧ isQuote c = true := by
  obtain ⟨region, pending⟩ := s
  cases pending with
  | some r =>
      rcases hs.pending r rfl with ⟨rfl, _⟩ | ⟨rfl, _⟩
      · exact absurd h (by simp only [step, outside, Bool.false_eq_true, not_false_iff])
      · cases h
  | none =>
      cases region with
      | code =>
          refine ⟨rfl, ?_⟩
          revert h
          simp only [step]
          split
          · exact nofun
          · split
            · exact nofun
            · split
              · exact fun _ => ‹_›
              · exact nofun
      | lineComment =>
          simp only [step] at h
          split at h <;> cases h
      | blockComment =>
          simp only [step] at h
          split at h <;> cases h
      | literal q => cases outside

/-- A character other than a newline is met in code only where the lexer is in code. -/
theorem eq_start_of_code {s : State} (hs : s.Valid) {c : Char} {next : Option Char}
    (h : (step s c next).1 = .code) (newline : c ≠ '\n') : s = {} := by
  obtain ⟨region, pending⟩ := s
  cases pending with
  | some r =>
      obtain rfl : r = .code := h
      rcases hs.pending .code rfl with ⟨_, other⟩ | ⟨comment, _⟩
      · exact absurd rfl other
      · cases comment
  | none =>
      cases region with
      | code => rfl
      | lineComment =>
          simp only [step, newline, if_false] at h
          cases h
      | blockComment =>
          simp only [step] at h
          split at h <;> cases h
      | literal q =>
          simp only [step, newline, false_and, if_false] at h
          split at h
          · cases h
          · split at h <;> cases h

theorem isLiteral_of_code {s : State} (hs : s.Valid) {c : Char} {next : Option Char}
    (h : (step s c next).1 = .code) (newline : c ≠ '\n') : s.region.isLiteral = false := by
  rw [eq_start_of_code hs h newline]
  rfl

theorem valid_stateAfter {s : State} (hs : s.Valid) (t : Text) : (stateAfter s t).Valid := by
  induction t generalizing s with
  | nil => exact hs
  | cons c t ih => exact ih (valid_step hs c t.head?)

/-- After a whole text only an escape can be pending. -/
theorem pending_stateAfter {s : State} (hs : s.pending = none) (t : Text) :
    (stateAfter s t).pending = none ∨
      ∃ q, stateAfter s t = ⟨.literal q, some (.literal q)⟩ := by
  suffices last : ∀ (s : State) (c : Char) (t : Text),
      (stateAfter s (c :: t)).pending = none ∨
        ∃ q, stateAfter s (c :: t) = ⟨.literal q, some (.literal q)⟩ by
    cases t with
    | nil => exact .inl hs
    | cons c t => exact last s c t
  intro s c t
  induction t generalizing s c with
  | cons d t ih => exact ih _ d
  | nil =>
      obtain ⟨region, pending⟩ := s
      simp only [stateAfter, List.head?_nil, step, reduceCtorEq, and_false, if_false]
      cases pending with
      | some r => exact .inl rfl
      | none =>
          cases region with
          | code => by_cases h : isQuote c = true <;> simp [h]
          | lineComment => by_cases h : c = '\n' <;> simp [h]
          | blockComment => exact .inl rfl
          | literal q =>
              by_cases escape : c = '\\'
              · exact .inr ⟨q, by simp [escape]⟩
              · refine .inl ?_
                simp only [escape, if_false]
                split
                · rfl
                · split <;> rfl

theorem stateAfter_eq_start {t : Text} (h : (stateAfter {} t).region = .code) :
    stateAfter {} t = {} := by
  rcases pending_stateAfter (s := {}) rfl t with none | ⟨q, escape⟩
  · cases after : stateAfter {} t
    rw [after] at h none
    cases h
    cases none
    rfl
  · rw [escape] at h
    cases h

theorem stateAfter_eq_start_of_code {t : Text} {c : Char} {next : Option Char}
    (h : (step (stateAfter {} t) c next).1 = .code) (newline : c ≠ '\n') :
    stateAfter {} t = {} :=
  eq_start_of_code (valid_stateAfter valid_start t) h newline

/-- The part of a lexing that follows another is lexed from the state in which the last lexeme of the
other one left the lexer. -/
theorem exists_lexFrom_of_append {s : State} (hs : s.Valid) {t : Text} {xs ys : List Lexeme}
    (h : lexFrom s t = xs ++ ys) : ∃ s' : State, s'.Valid ∧ ys = lexFrom s' (ys.map (·.char)) ∧
      (xs = [] → s' = s) ∧
      ∀ x ∈ xs.getLast?, ∃ s₀ next, step s₀ x.char next = (x.region, s') := by
  induction xs generalizing s t with
  | nil =>
      refine ⟨s, hs, ?_, fun _ => rfl, fun x hx => by cases hx⟩
      simp only [List.nil_append] at h
      rw [← h, map_char_lexFrom]
  | cons x xs ih =>
      cases t with
      | nil => cases h
      | cons c t =>
          simp only [lexFrom, List.cons_append, List.cons.injEq] at h
          obtain ⟨first, rest⟩ := h
          obtain ⟨s', valid, later, same, last⟩ := ih (valid_step hs c t.head?) rest
          refine ⟨s', valid, later, fun none => absurd none (List.cons_ne_nil x xs), ?_⟩
          cases xs with
          | nil =>
              intro y hy
              cases hy
              subst first
              exact ⟨s, t.head?, congrArg (Prod.mk _) (same rfl).symm⟩
          | cons y xs => simpa only [List.getLast?_cons_cons] using last

end QmlPreview.Lexer
