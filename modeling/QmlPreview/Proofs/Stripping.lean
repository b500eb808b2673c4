import QmlPreview.Proofs.Reindenting
import QmlPreview.Wrap.Rehosting

/-! Removing the assignments of a root element, with two lexers: one reads the whole body, the other
what is kept of it. Each removed stretch starts and ends outside of literals, so wherever one of the
two lexers is inside a literal the other one is in the same. Inside comments they may part. -/

namespace QmlPreview

/-- What the regions of comments and of literals have in common. -/
inductive Region.Kind where
  | code
  | comment
  | literal
  deriving DecidableEq, Repr

def Region.kind : Region → Kind
  | code => .code
  | lineComment | blockComment => .comment
  | literal _ => .literal

theorem Region.eq_code_of_kind {r : Region} (h : r.kind = .code) : r = .code := by
  cases r <;> first | rfl | cases h

theorem Region.isLiteral_of_kind {r r' : Region} (h : r.kind = r'.kind) :
    r.isLiteral = r'.isLiteral := by
  cases r <;> cases r' <;> first | rfl | cases h

namespace Lexeme

/-- The visible characters of a lexed text, each with the kind of its region. -/
def kinds (xs : List Lexeme) : List (Char × Region.Kind) :=
  (visible xs).map (fun x => (x.char, x.region.kind))

theorem kinds_append (xs ys : List Lexeme) : kinds (xs ++ ys) = kinds xs ++ kinds ys := by
  simp only [kinds, visible, List.filter_append, List.map_append]

theorem kinds_of_visible {x : Lexeme} (h : x.isVisible = true) (xs : List Lexeme) :
    kinds (x :: xs) = (x.char, x.region.kind) :: kinds xs := by
  simp only [kinds, visible, List.filter_cons, h, if_true, List.map_cons]

theorem kinds_of_visible_eq {xs ys : List Lexeme} (h : visible xs = visible ys) :
    kinds xs = kinds ys := by
  rw [kinds, h, kinds]

theorem isCode_of_kind {x y : Lexeme} (char : x.char = y.char)
    (kind : x.region.kind = y.region.kind) (c : Char) : x.isCode c = y.isCode c := by
  have code : (x.region == .code) = (y.region == .code) := by
    obtain ⟨_, region⟩ := x
    obtain ⟨_, region'⟩ := y
    cases region <;> cases region' <;> first | rfl | cases kind
  rw [isCode, isCode, char, code]

/-- Whether a brace counts depends on the kind of its region only. -/
theorem staysOpen_of_kinds {xs ys : List Lexeme} (h : kinds xs = kinds ys) (d : Nat) :
    staysOpen d xs = staysOpen d ys := by
  suffices shown : ∀ (xs ys : List Lexeme) (d : Nat),
      xs.map (fun x => (x.char, x.region.kind)) = ys.map (fun x => (x.char, x.region.kind)) →
      staysOpen d xs = staysOpen d ys by
    rw [← staysOpen_visible d xs, ← staysOpen_visible d ys]
    exact shown _ _ d h
  intro xs
  induction xs with
  | nil =>
      intro ys d h
      rw [List.map_nil] at h
      rw [List.map_eq_nil_iff.mp h.symm]
  | cons x xs ih =>
      intro ys d h
      cases ys with
      | nil => cases h
      | cons y ys =>
          simp only [List.map_cons, List.cons.injEq, Prod.mk.injEq] at h
          simp only [staysOpen, isCode_of_kind h.1.1 h.1.2, ih ys _ h.2]

theorem kinds_of_blank {x : Lexeme} (h : x.isVisible = false) (xs : List Lexeme) :
    kinds (x :: xs) = kinds xs := by
  simp only [kinds, visible, List.filter_cons, h, Bool.false_eq_true, if_false]

end Lexeme

namespace Lexer

open Lexeme (kinds)

/-- Blanks change nothing about a text that is met in code. -/
theorem blank_append {lead : Text} (blank : ∀ c ∈ lead, Text.isBlank c = true) (t : Text) :
    kinds (lex (lead ++ t)) = kinds (lex t) ∧ stateAfter {} (lead ++ t) = stateAfter {} t := by
  induction lead with
  | nil => exact ⟨rfl, rfl⟩
  | cons c lead ih =>
      rw [List.forall_mem_cons] at blank
      obtain ⟨regions, state⟩ := ih blank.2
      have step := step_plain (isPlain_of_isBlank blank.1)
      have hidden : (⟨c, .code⟩ : Lexeme).isVisible = false := by
        simp only [Lexeme.isVisible, blank.1, Bool.not_true]
      simp only [List.cons_append, lex, lexFrom, stateAfter, step] at regions ⊢
      exact ⟨(Lexeme.kinds_of_blank hidden _).trans regions, state⟩

end Lexer

namespace Rehosting

open Lexer (lexFrom stateAfter breaksLiteral keepsLiterals)
open Lexeme (kinds staysOpen)

/-- The state in which a lexeme is kept or removed; `line` starts with it. -/
def State.meet (s : State) (remove : Text → Bool) (line : Text) (x : Lexeme) : State :=
  (s.enter remove line).count x

def keptFrom (remove : Text → Bool) : State → List Lexeme → List Lexeme
  | _, [] => []
  | s, x :: xs =>
    let met := s.meet remove ((x :: xs).map (·.char)) x
    let rest := keptFrom remove (met.leave x) xs
    if met.skipping then rest else x :: rest

section
variable {remove : Text → Bool} {s : State} {x : Lexeme} {xs : List Lexeme}

theorem keptFrom_removed (h : (s.meet remove ((x :: xs).map (·.char)) x).skipping = true) :
    keptFrom remove s (x :: xs) =
      keptFrom remove ((s.meet remove ((x :: xs).map (·.char)) x).leave x) xs := by
  simp only [keptFrom, h, if_true]

theorem keptFrom_kept (h : (s.meet remove ((x :: xs).map (·.char)) x).skipping = false) :
    keptFrom remove s (x :: xs) =
      x :: keptFrom remove ((s.meet remove ((x :: xs).map (·.char)) x).leave x) xs := by
  simp only [keptFrom, h, Bool.false_eq_true, if_false]

end

theorem map_char_keptFrom (remove : Text → Bool) (s : State) (xs : List Lexeme) :
    (keptFrom remove s xs).map (·.char) = stripFrom remove s xs := by
  induction xs generalizing s with
  | nil => rfl
  | cons x xs ih =>
      cases met : (s.meet remove ((x :: xs).map (·.char)) x).skipping with
      | true =>
          rw [keptFrom_removed met, ih]
          unfold State.meet at met ⊢
          simp only [stripFrom, met, if_true]
      | false =>
          rw [keptFrom_kept met, List.map_cons, ih]
          unfold State.meet at met ⊢
          simp only [stripFrom, met, Bool.false_eq_true, if_false]

section
variable {remove : Text → Bool} {s : State} {line : Text} {x : Lexeme}

/-- A removal goes on, or begins where an assignment may start. -/
theorem of_skipping_meet (h : (s.meet remove line x).skipping = true) :
    s.skipping = true ∨ s.lineStart = true := by
  cases start : s.lineStart with
  | true => exact .inr rfl
  | false =>
      refine .inl ?_
      simp only [State.meet, State.enter, start, Bool.false_and, Bool.false_eq_true, if_false,
        State.count] at h
      split at h
      · exact h
      · split at h
        · exact (Bool.and_eq_true_iff.mp h).1
        · exact h

/-- What is kept during a removal is the brace that closes the root. -/
theorem of_not_skipping_meet (h : (s.meet remove line x).skipping = false) :
    s.skipping = false ∨ x = ⟨'}', .code⟩ := by
  cases skipping : s.skipping with
  | false => exact .inl rfl
  | true =>
      refine .inr ?_
      simp only [State.meet, State.enter, skipping, Bool.not_true, Bool.and_false,
        Bool.false_eq_true, if_false, State.count] at h
      split at h
      · cases h
      · split at h
        · rename_i close
          exact Lexeme.eq_of_isCode close
        · cases skipping.symm.trans h

theorem meet_of_not_lineStart (start : s.lineStart = false) (skipping : s.skipping = false) :
    (s.meet remove line x).skipping = false := by
  cases met : (s.meet remove line x).skipping with
  | false => rfl
  | true =>
      rcases of_skipping_meet met with h | h
      · rw [skipping] at h
        cases h
      · rw [start] at h
        cases h

theorem of_lineStart_leave (h : (s.leave x).lineStart = true) : endsStatement x = true := by
  unfold State.leave at h
  split at h
  · rename_i ends
    exact (Bool.and_eq_true_iff.mp ends).1
  · simp only [endsStatement, show x.endsLine = true from h, Bool.true_or]

theorem skipping_leave (h : s.skipping = false) : (s.leave x).skipping = false := by
  unfold State.leave
  split
  · rfl
  · exact h

theorem of_skipping_leave (skipping : s.skipping = true) (h : (s.leave x).skipping = false) :
    endsStatement x = true := by
  unfold State.leave at h
  split at h
  · rename_i ends
    exact (Bool.and_eq_true_iff.mp ends).1
  · rw [show s.skipping = false from h] at skipping
    cases skipping

theorem isDelimiter_of_endsStatement (h : endsStatement x = true) :
    Lexer.isDelimiter x.char = false := by
  simp only [endsStatement, Lexeme.endsLine, Lexeme.isCode, Bool.or_eq_true, Bool.and_eq_true,
    beq_iff_eq] at h
  rcases h with ⟨newline, _⟩ | ⟨_, semicolon⟩
  · rw [newline]
    rfl
  · rw [semicolon]
    rfl

theorem isLiteral_of_endsStatement (h : endsStatement x = true) : x.region.isLiteral = false := by
  simp only [endsStatement, Lexeme.endsLine, Lexeme.isCode, Bool.or_eq_true, Bool.and_eq_true,
    beq_iff_eq, Bool.not_eq_true'] at h
  rcases h with ⟨_, outside⟩ | ⟨code, _⟩
  · exact outside
  · rw [code]
    rfl

end

/-- What is kept after a kept character starts with the character that follows it, unless that one is
no half of a comment delimiter. -/
theorem step_kept {remove : Text → Bool} {σ : State} {line : Text} {c : Char} {r : Region}
    (kept : (σ.meet remove line ⟨c, r⟩).skipping = false) (k : Lexer.State) (xs : List Lexeme) :
    Lexer.step k c
        ((keptFrom remove ((σ.meet remove line ⟨c, r⟩).leave ⟨c, r⟩) xs).map (·.char)).head? =
      Lexer.step k c (xs.map (·.char)).head? := by
  cases start : ((σ.meet remove line ⟨c, r⟩).leave ⟨c, r⟩).lineStart with
  | true =>
      have plain : Lexer.isDelimiter c = false :=
        isDelimiter_of_endsStatement (of_lineStart_leave start)
      exact (Lexer.step_of_not_delimiter k plain _).trans
        (Lexer.step_of_not_delimiter k plain _).symm
  | false =>
      cases xs with
      | nil => rfl
      | cons y xs =>
          rw [keptFrom_kept (meet_of_not_lineStart start (skipping_leave kept))]
          rfl

/-- Every removed stretch ends with the lexer in the state that it began in: `k` is the state of the
lexer after what was kept last. -/
def returns (remove : Text → Bool) : (s k : Lexer.State) → State → Text → Bool
  | _, _, _, [] => true
  | s, k, σ, c :: t =>
    let x : Lexeme := ⟨c, (Lexer.step s c t.head?).1⟩
    let next := (Lexer.step s c t.head?).2
    let met := σ.meet remove (c :: t) x
    if met.skipping then returns remove next k (met.leave x) t
    else s == k && returns remove next next (met.leave x) t

/-- Where every removed stretch returns the lexer, what is kept is lexed as it was. -/
theorem lexFrom_keptFrom {remove : Text → Bool} {s k : Lexer.State} {σ : State} {t : Text}
    (h : returns remove s k σ t = true) :
    lexFrom k ((keptFrom remove σ (lexFrom s t)).map (·.char)) =
      keptFrom remove σ (lexFrom s t) := by
  induction t generalizing s k σ with
  | nil => rfl
  | cons c t ih =>
      have line : ((lexFrom s (c :: t)).map (·.char)) = c :: t := Lexer.map_char_lexFrom s (c :: t)
      rw [lexFrom] at line ⊢
      cases met : (σ.meet remove (c :: t) ⟨c, (Lexer.step s c t.head?).1⟩).skipping with
      | true =>
          simp only [returns, met, if_true] at h
          rw [← line] at met
          rw [keptFrom_removed met, line]
          exact ih h
      | false =>
          simp only [returns, met, Bool.false_eq_true, if_false, Bool.and_eq_true, beq_iff_eq] at h
          obtain ⟨rfl, h⟩ := h
          have next := step_kept met s (lexFrom (Lexer.step s c t.head?).2 t)
          rw [Lexer.map_char_lexFrom] at next
          rw [← line] at met
          rw [keptFrom_kept met, line, List.map_cons, lexFrom, next, ih h]

theorem kind_of_quote {c : Char} (quote : Lexer.isQuote c = true) {r r' : Region}
    (same : Text.isBlank c = true ∨ r.kind = r'.kind) : r.kind = r'.kind := by
  rcases same with blank | same
  · have plain := Lexer.isPlain_of_isBlank blank
    rw [Lexer.isPlain, quote, Bool.not_true, Bool.and_false] at plain
    cases plain
  · exact same

theorem breaksLiteral_of_outside {s : Lexer.State} (h : s.region.isLiteral = false) {c : Char} :
    breaksLiteral s c = false := by
  obtain ⟨region, pending⟩ := s
  cases region with
  | literal q => cases h
  | code => rfl
  | lineComment => rfl
  | blockComment => rfl

/-- How the lexer that reads what is kept follows the one that reads the whole body. -/
structure Follows (σ : State) (s k : Lexer.State) : Prop where
  /-- A removal begins and ends outside of literals. -/
  removing : σ.skipping = true → k.region.isLiteral = false
  /-- Between removals, if one of the lexers is inside a literal so is the other one. -/
  keeping : σ.skipping = false →
    s = k ∨ s.region.isLiteral = false ∧ k.region.isLiteral = false
  start : σ.lineStart = true → s.region.isLiteral = false

section
variable {remove : Text → Bool} {σ : State} {s k : Lexer.State} (hs : s.Valid) (h : Follows σ s k)
variable {line : Text} {c : Char} {next : Option Char}
include hs h

theorem Follows.removed
    (met : (σ.meet remove line ⟨c, (Lexer.step s c next).1⟩).skipping = true) :
    Follows ((σ.meet remove line ⟨c, (Lexer.step s c next).1⟩).leave ⟨c, (Lexer.step s c next).1⟩)
      (Lexer.step s c next).2 k := by
  have outside : k.region.isLiteral = false := by
    cases skipping : σ.skipping with
    | true => exact h.removing skipping
    | false =>
        rcases of_skipping_meet met with going | begins
        · cases skipping.symm.trans going
        · rcases h.keeping skipping with rfl | ⟨_, outside⟩
          · exact h.start begins
          · exact outside
  have after (ends : endsStatement ⟨c, (Lexer.step s c next).1⟩ = true) :
      (Lexer.step s c next).2.region.isLiteral = false :=
    Lexer.isLiteral_step hs (isLiteral_of_endsStatement ends)
  exact ⟨fun _ => outside, fun ended => .inr ⟨after (of_skipping_leave met ended), outside⟩,
    fun begins => after (of_lineStart_leave begins)⟩

/-- What is kept is met by both lexers in the same literal or by both outside of literals. -/
theorem Follows.meet
    (met : (σ.meet remove line ⟨c, (Lexer.step s c next).1⟩).skipping = false) :
    s = k ∨ s.region.isLiteral = false ∧ k.region.isLiteral = false := by
  cases skipping : σ.skipping with
  | false => exact h.keeping skipping
  | true =>
      rcases of_not_skipping_meet met with going | close
      · cases skipping.symm.trans going
      · simp only [Lexeme.mk.injEq] at close
        refine .inr ⟨Lexer.isLiteral_of_code hs close.2 ?_, h.removing skipping⟩
        rw [close.1]
        decide

/-- A kept character moves both lexers alike, where they see it in regions of the same kind. -/
theorem Follows.kept (hk : k.Valid)
    (met : (σ.meet remove line ⟨c, (Lexer.step s c next).1⟩).skipping = false)
    (same : Text.isBlank c = true ∨
      (Lexer.step k c next).1.kind = (Lexer.step s c next).1.kind) :
    Follows ((σ.meet remove line ⟨c, (Lexer.step s c next).1⟩).leave ⟨c, (Lexer.step s c next).1⟩)
      (Lexer.step s c next).2 (Lexer.step k c next).2 := by
  refine ⟨?_, fun _ => ?_, fun begins => Lexer.isLiteral_step hs
    (isLiteral_of_endsStatement (of_lineStart_leave begins))⟩
  · intro skipping
    cases skipping.symm.trans (skipping_leave met)
  · rcases h.meet hs met with rfl | ⟨outside, outside'⟩
    · exact .inl rfl
    · have opens {r : Lexer.State} (hr : r.Valid) (outside : r.region.isLiteral = false)
          (inside : (Lexer.step r c next).1.isLiteral = true) :=
        Lexer.opens_of_isLiteral hr outside inside
      cases inside : (Lexer.step s c next).1.isLiteral with
      | true =>
          obtain ⟨rfl, quote⟩ := opens hs outside inside
          have inside' : (Lexer.step k c next).1.isLiteral = true := by
            rw [Region.isLiteral_of_kind (kind_of_quote quote same), inside]
          obtain ⟨rfl, _⟩ := opens hk outside' inside'
          exact .inl rfl
      | false =>
          refine .inr ⟨Lexer.isLiteral_step hs inside, Lexer.isLiteral_step hk ?_⟩
          cases inside' : (Lexer.step k c next).1.isLiteral with
          | false => rfl
          | true =>
              obtain ⟨_, quote⟩ := opens hk outside' inside'
              rw [Region.isLiteral_of_kind (kind_of_quote quote same), inside] at inside'
              cases inside'

end

/-- Where what is kept shows its visible characters in regions of the kinds that they have in the body,
and the body breaks no literal, no literal of what is kept is broken. -/
theorem not_breaksLiteral {remove : Text → Bool} {σ : State} {s k : Lexer.State} {t : Text}
    (hs : s.Valid) (hk : k.Valid) (follows : Follows σ s k) (keeps : keepsLiterals s t = true)
    {front back : Text}
    (split : (keptFrom remove σ (lexFrom s t)).map (·.char) = front ++ '\n' :: back)
    (same : kinds (lexFrom k front) <+: kinds (keptFrom remove σ (lexFrom s t))) :
    breaksLiteral (stateAfter k front) '\n' = false := by
  induction t generalizing s k σ front with
  | nil =>
      cases front with
      | nil => cases split
      | cons d front => cases split
  | cons c t ih =>
      have line : (lexFrom s (c :: t)).map (·.char) = c :: t := Lexer.map_char_lexFrom s (c :: t)
      rw [lexFrom] at line
      simp only [lexFrom] at split same
      rw [keepsLiterals, Bool.and_eq_true, Bool.not_eq_true'] at keeps
      cases met : (σ.meet remove (c :: t) ⟨c, (Lexer.step s c t.head?).1⟩).skipping with
      | true =>
          have follows' := follows.removed hs met
          rw [← line] at met
          rw [keptFrom_removed met, line] at split same
          exact ih (Lexer.valid_step hs c _) hk follows' keeps.2 split same
      | false =>
          have alike := follows.meet hs met
          have next := step_kept met k (lexFrom (Lexer.step s c t.head?).2 t)
          rw [Lexer.map_char_lexFrom] at next
          have met' := met
          rw [← line] at met'
          rw [keptFrom_kept met', line] at split same
          cases front with
          | nil =>
              obtain ⟨rfl, _⟩ := List.cons.inj split
              rcases alike with rfl | ⟨_, outside⟩
              · exact keeps.1
              · exact breaksLiteral_of_outside outside
          | cons d front =>
              obtain ⟨rfl, later⟩ := List.cons.inj split
              have ahead : Lexer.step k c front.head? = Lexer.step k c t.head? := by
                rw [← next, later]
                exact (Lexer.step_before_newline k c front back).symm
              simp only [lexFrom, stateAfter, ahead] at same ⊢
              cases visible : Text.isBlank c with
              | true =>
                  have hidden (r : Region) : (⟨c, r⟩ : Lexeme).isVisible = false := by
                    simp only [Lexeme.isVisible, visible, Bool.not_true]
                  rw [Lexeme.kinds_of_blank (hidden _), Lexeme.kinds_of_blank (hidden _)] at same
                  exact ih (Lexer.valid_step hs c _) (Lexer.valid_step hk c _)
                    (follows.kept hs hk met (.inl visible)) keeps.2 later same
              | false =>
                  have shown (r : Region) : (⟨c, r⟩ : Lexeme).isVisible = true := by
                    simp only [Lexeme.isVisible, visible, Bool.not_false]
                  rw [Lexeme.kinds_of_visible (shown _), Lexeme.kinds_of_visible (shown _),
                    List.cons_prefix_cons, Prod.mk.injEq] at same
                  exact ih (Lexer.valid_step hs c _) (Lexer.valid_step hk c _)
                    (follows.kept hs hk met (.inr same.1.2)) keeps.2 later same.2

/-- The brace depth of what is kept: a removal begins and ends directly in the root. -/
def State.width (s : State) : Nat := if s.skipping then 1 else s.depth.toNat + 1

section
variable {s : State}

theorem width_of_skipping (h : s.skipping = true) : s.width = 1 := by
  rw [State.width, if_pos h]

theorem width_of_keeping (h : s.skipping = false) : s.width = s.depth.toNat + 1 := by
  rw [State.width, h, if_neg Bool.false_ne_true]

theorem width_of_root (h : s.depth = 0) : s.width = 1 := by
  rw [State.width, h]
  split <;> rfl

theorem depth_enter (remove : Text → Bool) (line : Text) :
    (s.enter remove line).depth = s.depth := by
  unfold State.enter
  split <;> rfl

theorem width_enter (remove : Text → Bool) (line : Text) :
    (s.enter remove line).width = s.width := by
  unfold State.enter
  split
  · rename_i begins
    simp only [Bool.and_eq_true, beq_iff_eq] at begins
    rw [width_of_root begins.1.2]
    exact width_of_root begins.1.2
  · rfl

theorem depth_leave (x : Lexeme) : (s.leave x).depth = s.depth := by
  unfold State.leave
  split <;> rfl

theorem width_leave (x : Lexeme) : (s.leave x).width = s.width := by
  unfold State.leave
  split
  · rename_i ends
    simp only [Bool.and_eq_true, beq_iff_eq] at ends
    rw [width_of_root ends.2]
    exact width_of_root ends.2
  · rfl

theorem count_open : s.count ⟨'{', .code⟩ = { s with depth := s.depth + 1 } := rfl

theorem count_close (h : s.depth ≠ 0) : s.count ⟨'}', .code⟩ = { s with depth := s.depth - 1 } := by
  have inside : (s.depth != 0) = true := bne_iff_ne.mpr h
  simp only [State.count, Lexeme.isCode, beq_self_eq_true, Bool.true_and, Char.reduceBEq,
    Bool.false_eq_true, if_false, if_true, inside, Bool.and_true]

theorem count_root (h : s.depth = 0) : (s.count ⟨'}', .code⟩).skipping = false := by
  simp only [State.count, Lexeme.isCode, beq_self_eq_true, Bool.true_and, Char.reduceBEq,
    Bool.false_eq_true, if_false, if_true, h, bne_self_eq_false, Bool.and_false]

theorem count_other {x : Lexeme} (h : x.isBrace = false) : s.count x = s := by
  simp only [State.count, Lexeme.isCode_of_not_brace h, Bool.false_eq_true, if_false]

/-- How a lexeme of the body changes the depth of the body and the depth of what is kept. -/
structure Counts (s met : State) (x : Lexeme) (xs : List Lexeme) : Prop where
  depth : 0 ≤ met.depth
  stays : staysOpen (met.depth.toNat + 1) xs = some 1
  removed : met.skipping = true → met.width = s.width
  kept : met.skipping = false → ∀ rest,
    staysOpen s.width (x :: rest) = staysOpen met.width rest

theorem counts_count (depth : 0 ≤ s.depth) {x : Lexeme} {xs : List Lexeme}
    (h : staysOpen (s.depth.toNat + 1) (x :: xs) = some 1) : Counts s (s.count x) x xs := by
  rcases Lexeme.brace_cases x with rfl | rfl | other
  · have deeper : (s.depth + 1).toNat = s.depth.toNat + 1 := by omega
    rw [Lexeme.staysOpen_open] at h
    rw [count_open]
    refine ⟨by dsimp only; omega, by rwa [deeper], fun skipping => ?_, fun keeping rest => ?_⟩
    · exact (width_of_skipping skipping).trans (width_of_skipping (s := s) skipping).symm
    · rw [Lexeme.staysOpen_open, width_of_keeping keeping, width_of_keeping (s := s) keeping, deeper]
  · rw [Lexeme.staysOpen_close] at h
    split at h
    · cases h
    · rename_i deep
      have higher : (s.depth - 1).toNat + 1 = s.depth.toNat + 1 - 1 := by omega
      rw [count_close (by omega)]
      refine ⟨by dsimp only; omega, by rwa [higher], fun skipping => ?_, fun keeping rest => ?_⟩
      · exact (width_of_skipping skipping).trans (width_of_skipping (s := s) skipping).symm
      · rw [Lexeme.staysOpen_close, width_of_keeping keeping, width_of_keeping (s := s) keeping,
          if_neg deep, higher]
  · rw [Lexeme.staysOpen_other _ other] at h
    rw [count_other other]
    exact ⟨depth, h, fun _ => rfl, fun _ rest => Lexeme.staysOpen_other _ other rest⟩

theorem counts_meet (remove : Text → Bool) (line : Text) (depth : 0 ≤ s.depth) {x : Lexeme}
    {xs : List Lexeme} (h : staysOpen (s.depth.toNat + 1) (x :: xs) = some 1) :
    Counts s (s.meet remove line x) x xs := by
  have entered : (s.enter remove line).depth = s.depth := depth_enter remove line
  have width : (s.enter remove line).width = s.width := width_enter remove line
  rw [← entered] at depth h
  have counts := counts_count depth h
  exact ⟨counts.depth, counts.stays, fun skipping => (counts.removed skipping).trans width,
    fun keeping rest => by rw [← width]; exact counts.kept keeping rest⟩

end

/-- What is kept of the body of a sound element has the depth that the body has, and the brace that
closes the element. -/
theorem exists_keptFrom {remove : Text → Bool} {σ : State} (depth : 0 ≤ σ.depth)
    {xs : List Lexeme} (h : staysOpen (σ.depth.toNat + 1) xs = some 1) :
    ∃ kept, keptFrom remove σ (xs ++ [⟨'}', .code⟩]) = kept ++ [⟨'}', .code⟩] ∧
      staysOpen σ.width kept = some 1 := by
  induction xs generalizing σ with
  | nil =>
      have root : σ.depth = 0 := by
        simp only [Lexeme.staysOpen_nil, Option.some.injEq] at h
        omega
      have met (line : Text) : (σ.meet remove line ⟨'}', .code⟩).skipping = false :=
        count_root (by rw [depth_enter, root])
      exact ⟨[], keptFrom_kept (met _), by rw [width_of_root root, Lexeme.staysOpen_nil]⟩
  | cons x xs ih =>
      let line := (x :: (xs ++ [⟨'}', .code⟩])).map (·.char)
      have counts := counts_meet remove line depth h
      obtain ⟨rest, text, stays⟩ := ih (σ := (σ.meet remove line x).leave x)
        (by rw [depth_leave]; exact counts.depth) (by rw [depth_leave]; exact counts.stays)
      rw [width_leave] at stays
      rw [List.cons_append]
      cases met : (σ.meet remove line x).skipping with
      | true => exact ⟨rest, (keptFrom_removed met).trans text, by rwa [← counts.removed met]⟩
      | false =>
          refine ⟨x :: rest, ?_, (counts.kept met rest).trans stays⟩
          rw [keptFrom_kept met, text, List.cons_append]

end Rehosting

end QmlPreview
