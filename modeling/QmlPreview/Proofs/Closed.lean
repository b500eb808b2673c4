import QmlPreview.Mask
import QmlPreview.Proofs.Lexing
import QmlPreview.Text.Slice

/-! Texts that are lexically closed: put where the lexer is in code, they leave what follows as it
would be without them. Quoted values are closed whatever they hold. -/

namespace QmlPreview

def Lexeme.isBrace (x : Lexeme) : Bool := x.isCode '{' || x.isCode '}'

namespace Lexer

/-- Lexed on its own, the text has no comment and the lexer is in code at its end. -/
structure Closed (t : Text) : Prop where
  noComment : ∀ x ∈ lex t, x.region.isComment = false
  endsInCode : (stateAfter {} t).region = .code

/-- A closed text whose braces, if it has any, all lie in literals. -/
structure Inert (t : Text) : Prop extends Closed t where
  noBrace : ∀ x ∈ lex t, x.isBrace = false

theorem Closed.stateAfter {t : Text} (h : Closed t) : stateAfter {} t = {} :=
  stateAfter_eq_start h.endsInCode

theorem Closed.lex_append {a b : Text} (h : Closed a) (apart : Apart a b) :
    lex (a ++ b) = lex a ++ lex b := by
  rw [Lexer.lex_append apart, h.stateAfter]
  rfl

theorem Closed.stateAfter_append {a : Text} (h : Closed a) {b : Text} (apart : Apart a b) :
    Lexer.stateAfter {} (a ++ b) = Lexer.stateAfter {} b := by
  rw [Lexer.stateAfter_append {} apart, h.stateAfter]

theorem Closed.append {a b : Text} (ha : Closed a) (hb : Closed b) (apart : Apart a b) :
    Closed (a ++ b) where
  noComment := by
    intro x hx
    rw [ha.lex_append apart, List.mem_append] at hx
    exact hx.elim (ha.noComment x) (hb.noComment x)
  endsInCode := by rw [ha.stateAfter_append apart, hb.endsInCode]

theorem Inert.append {a b : Text} (ha : Inert a) (hb : Inert b) (apart : Apart a b) :
    Inert (a ++ b) where
  toClosed := ha.toClosed.append hb.toClosed apart
  noBrace := by
    intro x hx
    rw [ha.lex_append apart, List.mem_append] at hx
    exact hx.elim (ha.noBrace x) (hb.noBrace x)

theorem inert_nil : Inert [] := ⟨⟨nofun, rfl⟩, nofun⟩

/-- In code the character starts nothing. -/
def isPlain (c : Char) : Bool := c != '/' && !isQuote c

theorem isPlain_of_isBlank {c : Char} (h : Text.isBlank c = true) : isPlain c = true := by
  simp only [isPlain, isQuote, Bool.and_eq_true, bne_iff_ne, Bool.not_eq_true',
    Bool.or_eq_false_iff, beq_eq_false_iff_ne]
  refine ⟨?_, ⟨?_, ?_⟩, ?_⟩ <;> rintro rfl <;> exact absurd h (by decide)

theorem step_plain {c : Char} (h : isPlain c = true) (next : Option Char) :
    step {} c next = (.code, {}) := by
  simp only [isPlain, Bool.and_eq_true, bne_iff_ne, Bool.not_eq_true'] at h
  simp only [step, h.1, h.2, false_and, if_false, Bool.false_eq_true]

theorem lexFrom_plain_append {a : Text} (h : ∀ c ∈ a, isPlain c = true) (b : Text) :
    lexFrom {} (a ++ b) = a.map (fun c => ⟨c, .code⟩) ++ lexFrom {} b := by
  induction a with
  | nil => rfl
  | cons c a ih =>
      rw [List.forall_mem_cons] at h
      simp only [List.cons_append, lexFrom, step_plain h.1, List.map_cons, ih h.2]

theorem stateAfter_plain {a : Text} (h : ∀ c ∈ a, isPlain c = true) : stateAfter {} a = {} := by
  induction a with
  | nil => rfl
  | cons c a ih =>
      rw [List.forall_mem_cons] at h
      simp only [stateAfter, step_plain h.1, ih h.2]

theorem lex_plain {a : Text} (h : ∀ c ∈ a, isPlain c = true) :
    lex a = a.map (fun c => ⟨c, .code⟩) := by
  simpa only [lex, List.append_nil, lexFrom] using lexFrom_plain_append h []

theorem closed_of_plain {a : Text} (h : ∀ c ∈ a, isPlain c = true) : Closed a where
  noComment := by
    intro x hx
    rw [lex_plain h, List.mem_map] at hx
    obtain ⟨c, _, rfl⟩ := hx
    rfl
  endsInCode := by rw [stateAfter_plain h]

/-- In code the character starts nothing and counts for nothing. -/
def isIdle (c : Char) : Bool := isPlain c && c != '{' && c != '}'

theorem isPlain_of_isIdle {c : Char} (h : isIdle c = true) : isPlain c = true := by
  simp only [isIdle, Bool.and_eq_true] at h
  exact h.1.1

theorem inert_of_idle {a : Text} (h : ∀ c ∈ a, isIdle c = true) : Inert a where
  toClosed := closed_of_plain fun c hc => isPlain_of_isIdle (h c hc)
  noBrace := by
    intro x hx
    rw [lex_plain fun c hc => isPlain_of_isIdle (h c hc), List.mem_map] at hx
    obtain ⟨c, hc, rfl⟩ := hx
    have idle := h c hc
    simp only [isIdle, Bool.and_eq_true, bne_iff_ne] at idle
    simp [Lexeme.isBrace, Lexeme.isCode, idle.1.2, idle.2]

theorem lexFrom_escaped (v t : Text) :
    lexFrom ⟨.literal '"', none⟩ (v.flatMap escaped ++ '"' :: t) =
      (v.flatMap escaped ++ ['"']).map (fun c => ⟨c, .literal '"'⟩) ++ lexFrom {} t := by
  induction v with
  | nil => simp [lexFrom, step]
  | cons c v ih =>
      simp only [List.flatMap_cons, List.append_assoc, List.map_append] at ih ⊢
      by_cases backslash : c = '\\'
      · simp [escaped, backslash, lexFrom, step, ih]
      · by_cases quote : c = '"'
        · simp [escaped, quote, lexFrom, step, ih]
        · by_cases newline : c = '\n'
          · simp [escaped, newline, lexFrom, step, ih]
          · simp [escaped, backslash, quote, newline, lexFrom, step, ih]

theorem stateAfter_escaped (v : Text) :
    stateAfter ⟨.literal '"', none⟩ (v.flatMap escaped ++ ['"']) = {} := by
  induction v with
  | nil => rfl
  | cons c v ih =>
      simp only [List.flatMap_cons, List.append_assoc]
      by_cases backslash : c = '\\'
      · simp [escaped, backslash, stateAfter, step, ih]
      · by_cases quote : c = '"'
        · simp [escaped, quote, stateAfter, step, ih]
        · by_cases newline : c = '\n'
          · simp [escaped, newline, stateAfter, step, ih]
          · simp [escaped, backslash, quote, newline, stateAfter, step, ih]

/-- A quoted value is one literal from its first character to its last. -/
theorem lex_quoted (v : Text) : lex (quoted v) = (quoted v).map (fun c => ⟨c, .literal '"'⟩) := by
  have inside := lexFrom_escaped v []
  simp only [lexFrom, List.append_nil] at inside
  have opened (next : Option Char) :
      step {} '"' next = (.literal '"', ⟨.literal '"', none⟩) := by
    simp [step, isQuote]
  simp only [lex, quoted, List.cons_append, lexFrom, opened, inside, List.map_cons]

theorem inert_quoted (v : Text) : Inert (quoted v) where
  noComment := by
    intro x hx
    rw [lex_quoted, List.mem_map] at hx
    obtain ⟨c, _, rfl⟩ := hx
    rfl
  endsInCode := by
    have opened (next : Option Char) :
        (step {} '"' next).2 = ⟨.literal '"', none⟩ := by
      simp [step, isQuote]
    simp only [quoted, List.cons_append, stateAfter, opened, stateAfter_escaped]
  noBrace := by
    intro x hx
    rw [lex_quoted, List.mem_map] at hx
    obtain ⟨c, _, rfl⟩ := hx
    simp [Lexeme.isBrace, Lexeme.isCode]

end Lexer

end QmlPreview
