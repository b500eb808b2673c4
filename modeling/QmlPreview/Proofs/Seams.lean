import QmlPreview.Proofs.MaskedContents
import QmlPreview.Proofs.Rehosting

/-! Seams: the places where a text is cut and its parts are lexed on their own. A lexer that is back in
code at the end of the first part reads the second one from scratch, unless the two make a comment
delimiter where they meet. So what is cut out of a document and lexed on its own is lexed as it is there,
wherever the header leaves the lexer in code. -/

namespace QmlPreview

namespace Lexeme

/-- Lexemes with the byte offsets where they start, the first of them at `n`. -/
def placed (n : Nat) : List Lexeme → List (Nat × Lexeme)
  | [] => []
  | x :: xs => (n, x) :: placed (n + x.char.utf8Size) xs

/-- The same lexemes `n` bytes later. -/
def shifted (n : Nat) (ps : List (Nat × Lexeme)) : List (Nat × Lexeme) :=
  ps.map fun p => (n + p.1, p.2)

/-- The lexemes that start at a byte offset from `start` on and before `stop`. -/
def between (start stop : Nat) (ps : List (Nat × Lexeme)) : List (Nat × Lexeme) :=
  ps.filter fun p => decide (start ≤ p.1 ∧ p.1 < stop)

theorem shifted_placed (m n : Nat) (xs : List Lexeme) :
    shifted m (placed n xs) = placed (m + n) xs := by
  induction xs generalizing n with
  | nil => rfl
  | cons x xs ih =>
      rw [placed, placed, Nat.add_assoc, ← ih]
      rfl

theorem placed_append (n : Nat) (xs ys : List Lexeme) :
    placed n (xs ++ ys) = placed n xs ++ placed (n + bytes xs) ys := by
  induction xs generalizing n with
  | nil => rfl
  | cons x xs ih =>
      rw [List.cons_append, placed, placed, ih, bytes_cons, Nat.add_assoc]
      rfl

theorem map_snd_placed (n : Nat) (xs : List Lexeme) : (placed n xs).map (·.2) = xs := by
  induction xs generalizing n with
  | nil => rfl
  | cons x xs ih => rw [placed, List.map_cons, ih]

theorem bounds_of_mem_placed {n : Nat} {xs : List Lexeme} {p : Nat × Lexeme}
    (h : p ∈ placed n xs) : n ≤ p.1 ∧ p.1 < n + bytes xs := by
  induction xs generalizing n with
  | nil => cases h
  | cons x xs ih =>
      have size := x.char.utf8Size_pos
      rw [bytes_cons]
      rcases List.mem_cons.mp h with rfl | later
      · exact ⟨Nat.le_refl _, by omega⟩
      · have bounds := ih later
        omega

theorem between_append (start stop : Nat) (ps qs : List (Nat × Lexeme)) :
    between start stop (ps ++ qs) = between start stop ps ++ between start stop qs :=
  List.filter_append ..

theorem between_placed_of_outside {start stop n : Nat} {xs : List Lexeme}
    (outside : n + bytes xs ≤ start ∨ stop ≤ n) : between start stop (placed n xs) = [] := by
  refine List.filter_eq_nil_iff.mpr fun p h => ?_
  have bounds := bounds_of_mem_placed h
  simp only [decide_eq_true_eq]
  omega

/-- Between the offsets of a part stand the lexemes of that part. -/
theorem between_placed (front part back : List Lexeme) :
    between (bytes front) (bytes front + bytes part) (placed 0 (front ++ (part ++ back))) =
      placed (bytes front) part := by
  have inside : between (bytes front) (bytes front + bytes part) (placed (bytes front) part) =
      placed (bytes front) part :=
    List.filter_eq_self.mpr fun p h => decide_eq_true (bounds_of_mem_placed h)
  rw [placed_append, placed_append, Nat.zero_add, between_append, between_append, inside,
    between_placed_of_outside (.inl (Nat.le_of_eq (Nat.zero_add _))),
    between_placed_of_outside (.inr (Nat.le_refl _)), List.nil_append, List.append_nil]

end Lexeme

namespace Lexer

open Lexeme (placed shifted between bytes)

/-- Every character of a text with its byte offset and its region. -/
def located (t : Text) : List (Nat × Lexeme) := placed 0 (lex t)

/-- The second text makes a comment delimiter of a slash in code that the first one ends in. -/
def Straddles (a b : Text) : Prop :=
  (lex a).getLast? = some ⟨'/', .code⟩ ∧ (b.head? = some '/' ∨ b.head? = some '*')

instance (a b : Text) : Decidable (Straddles a b) :=
  inferInstanceAs (Decidable (_ ∧ (_ ∨ _)))

/-- The state in which the lexer meets what stands at the byte offset `n` of a text. -/
def stateAt (s : State) : (n : Nat) → Text → State
  | _, [] => s
  | n, c :: t => if n = 0 then s else stateAt (step s c t.head?).2 (n - c.utf8Size) t

/-- A character after which the lexer is in code is read alike whatever follows, unless it is a slash
that may open a comment. -/
theorem step_before_code {s : State} {c : Char} {next : Option Char}
    (ends : (step s c none).2 = {})
    (apart : ¬((⟨c, (step s c none).1⟩ : Lexeme) = ⟨'/', .code⟩ ∧
      (next = some '/' ∨ next = some '*'))) : step s c next = step s c none := by
  obtain ⟨region, pending⟩ := s
  cases pending with
  | some r => rfl
  | none =>
      cases region with
      | lineComment => rfl
      | literal q => rfl
      | blockComment =>
          simp only [step, reduceCtorEq, and_false, if_false] at ends
          cases ends
      | code =>
          by_cases slash : c = '/'
          · subst slash
            have code : (step ⟨.code, none⟩ '/' none).1 = .code := rfl
            rw [code] at apart
            simp only [true_and, not_or] at apart
            simp only [step, apart.1, apart.2, reduceCtorEq, and_false, if_false]
          · simp only [step, slash, false_and, if_false]

/-- Two texts are lexed one after the other where the first one leaves the lexer in code and no comment
delimiter straddles the seam. -/
theorem lexFrom_append_of_code {s : State} {a b : Text} (ends : stateAfter s a = {})
    (apart : ¬((lexFrom s a).getLast? = some ⟨'/', .code⟩ ∧
      (b.head? = some '/' ∨ b.head? = some '*'))) :
    lexFrom s (a ++ b) = lexFrom s a ++ lex b := by
  induction a generalizing s with
  | nil =>
      rw [stateAfter] at ends
      subst ends
      rfl
  | cons c a ih =>
      cases a with
      | nil =>
          simp only [stateAfter, lexFrom, List.head?_nil, List.getLast?_singleton,
            Option.some.injEq] at ends apart
          simp only [List.cons_append, List.nil_append, lexFrom, List.head?_nil,
            step_before_code ends apart, ends, lex]
      | cons d a =>
          have rest := ih (s := (step s c (some d)).2) ends apart
          simp only [List.cons_append] at rest
          simp only [List.cons_append, lexFrom, List.head?_cons] at rest ⊢
          rw [rest]

/-- A comment delimiter that straddles the seam is not met by the two lexers that read one part each. -/
theorem lexFrom_append_ne {s : State} (hs : s.Valid) {a b : Text} (ends : stateAfter s a = {})
    (slash : (lexFrom s a).getLast? = some ⟨'/', .code⟩)
    (opens : b.head? = some '/' ∨ b.head? = some '*') :
    lexFrom s (a ++ b) ≠ lexFrom s a ++ lex b := by
  intro same
  induction a generalizing s with
  | nil => cases slash
  | cons c a ih =>
      cases a with
      | cons d a =>
          exact ih (valid_step hs c (some d)) ends slash (List.cons.inj same).2
      | nil =>
          simp only [lexFrom, List.getLast?_singleton, Option.some.injEq, Lexeme.mk.injEq,
            List.head?_nil] at slash
          obtain ⟨rfl, code⟩ := slash
          obtain rfl : s = {} := eq_start_of_code hs code (by decide)
          simp only [List.cons_append, List.nil_append, lexFrom, List.head?_nil, List.cons.injEq,
            Lexeme.mk.injEq, true_and] at same
          rcases opens with slash | star
          · rw [slash] at same
            cases same.1
          · rw [star] at same
            cases same.1

theorem located_append_iff {a b : Text} (ends : stateAfter {} a = {}) :
    located (a ++ b) = located a ++ shifted (Text.byteLength a) (located b) ↔ ¬Straddles a b := by
  have parts : located a ++ shifted (Text.byteLength a) (located b) = placed 0 (lex a ++ lex b) := by
    rw [located, located, Lexeme.shifted_placed, Lexeme.placed_append, Lexeme.bytes_lex,
      Nat.zero_add, Nat.add_zero]
  rw [parts, located]
  constructor
  · rintro same ⟨slash, opens⟩
    have lexed := congrArg (List.map (·.2)) same
    rw [Lexeme.map_snd_placed, Lexeme.map_snd_placed] at lexed
    exact lexFrom_append_ne valid_start ends slash opens lexed
  · intro apart
    exact congrArg (placed 0) (lexFrom_append_of_code ends apart)

theorem valid_stateAt {s : State} (hs : s.Valid) (n : Nat) (t : Text) : (stateAt s n t).Valid := by
  induction t generalizing s n with
  | nil => exact hs
  | cons c t ih =>
      rw [stateAt]
      split
      · exact hs
      · exact ih (valid_step hs c t.head?) _

/-- The rest of a lexing is read from the state in which the lexer meets it. -/
theorem drop_lexFrom (s : State) (a b : Text) :
    (lexFrom s (a ++ b)).drop a.length = lexFrom (stateAt s (Text.byteLength a) (a ++ b)) b := by
  induction a generalizing s with
  | nil => cases b <;> rfl
  | cons c a ih =>
      have nonzero : c.utf8Size + Text.byteLength a ≠ 0 :=
        Nat.ne_of_gt (Nat.add_pos_left c.utf8Size_pos _)
      rw [List.cons_append, lexFrom, List.length_cons, List.drop_succ_cons, ih,
        Text.byteLength_cons, stateAt, if_neg nonzero, Nat.add_sub_cancel_left]

/-- The text is cut out of another at the byte offset `start`, and lexed on its own as it is there. -/
structure InStep (t : Text) (start : Nat) (part : Text) : Prop where
  cut : Text.slice start (start + Text.byteLength part) t = part
  located : shifted start (located part) =
    between start (start + Text.byteLength part) (Lexer.located t)

theorem inStep_of_lexed {t part : Text} {front back : List Lexeme}
    (lexed : lex t = front ++ (lex part ++ back)) : InStep t (bytes front) part := by
  refine ⟨?_, ?_⟩
  · have text : t = front.map (·.char) ++ (part ++ back.map (·.char)) := by
      rw [← map_char_lex t, lexed, List.map_append, List.map_append, map_char_lex]
    rw [text, Text.slice, Nat.add_sub_cancel_left, bytes, Text.dropBytes_append,
      Text.takeBytes_append]
  · rw [located, located, Lexeme.shifted_placed, lexed, ← Lexeme.bytes_lex, Nat.add_zero,
      Lexeme.between_placed]

def lexedBetween (start stop : Nat) (t : Text) : List Lexeme :=
  (between start stop (located t)).map (·.2)

/-- The regions of a part that is in step are those that its characters have in the whole text. -/
theorem InStep.lex_eq {t part : Text} {start : Nat} (step : InStep t start part) :
    lex part = lexedBetween start (start + Text.byteLength part) t := by
  rw [lexedBetween, ← step.located, Lexer.located, Lexeme.shifted_placed, Lexeme.map_snd_placed]

end Lexer

open Lexer (InStep Straddles lexedBetween located stateAfter stateAt)
open Lexeme (bytes shifted)

section
variable {t : Text} {header content tail : List Lexeme} (cut : Sections t header content tail)
include cut

theorem Sections.shown_first : ∀ x ∈ content.head?, x.region.isComment = false := by
  intro x hx
  obtain ⟨rest, rfl⟩ := List.head?_eq_some_iff.mp hx
  obtain ⟨c, more, masked⟩ := List.exists_cons_of_ne_nil x.masked_ne_nil
  obtain ⟨_, _, visible, _⟩ := Statement.exists_readAll (maskComments t)
  obtain ⟨trail, _, trimmed⟩ := Text.exists_trimEnd (Statement.readAll (maskComments t)).2
  rw [trimmed, ← dropBytes_contentStart, ← maskedContent, ← cut.masked, Lexeme.maskedText_cons,
    masked] at visible
  have member : c ∈ x.masked := by
    rw [masked]
    exact List.mem_cons_self
  exact (Lexeme.eq_of_mem_masked member (visible c rfl)).2

/-- Where the header leaves the lexer in code, the content is lexed on its own as it is in the
document. -/
theorem Sections.lex_of_code
    (code : (stateAt {} (Header.ofMasked (maskComments t)).contentStart t).region = .code) :
    lex (rawContent t) = content := by
  have text : t = header.map (·.char) ++ (content ++ tail).map (·.char) := by
    rw [← List.map_append, ← cut.lexed, Lexer.map_char_lex]
  have lexed : content ++ tail = Lexer.lexFrom
      (stateAt {} (Header.ofMasked (maskComments t)).contentStart t)
      ((content ++ tail).map (·.char)) := by
    have rest := Lexer.drop_lexFrom {} (header.map (·.char)) ((content ++ tail).map (·.char))
    rw [← text, List.length_map] at rest
    rw [← cut.start, bytes, ← rest]
    exact (List.drop_left' rfl).symm.trans (congrArg _ cut.lexed.symm)
  cases content with
  | nil =>
      have raw := cut.raw
      rw [← raw]
      rfl
  | cons x rest =>
      have valid := Lexer.valid_stateAt Lexer.valid_start
        (Header.ofMasked (maskComments t)).contentStart t
      have shown := cut.shown_first x rfl
      generalize stateAt {} (Header.ofMasked (maskComments t)).contentStart t = s at *
      obtain ⟨region, pending⟩ := s
      obtain rfl : region = .code := code
      cases pending with
      | none => exact cut.lex_of_start lexed
      | some r =>
          -- Pending in code is only the slash that ends a comment.
          obtain rfl := valid.eq_of_pending_code
          rw [List.cons_append, List.map_cons, Lexer.lexFrom, List.cons.injEq] at lexed
          rw [lexed.1] at shown
          cases shown

end

theorem byteLength_rootBody {t : Text} {parts : Parts} (taken : decompose t = .ok parts) :
    parts.rootOpen + 1 + Text.byteLength parts.rootBody = Text.byteLength parts.content := by
  obtain ⟨h, parsed, _, rfl⟩ := decompose_eq_ok_iff.mp taken
  obtain ⟨gap, body, opening⟩ := exists_opening parsed
  have rootBody : (partsWith t h).rootBody = body := opening.dropBytes_brace
  obtain ⟨front, text, length⟩ := opening.exists_front
  have whole : (partsWith t h).content = front ++ body := text
  rw [rootBody, whole, Text.byteLength_append, length]
  rfl

section
variable {t : Text}
  (code : (stateAt {} (Header.ofMasked (maskComments t)).contentStart t).region = .code)
include code

theorem inStep_rawContent :
    InStep t (Header.ofMasked (maskComments t)).contentStart (rawContent t) := by
  obtain ⟨header, content, tail, cut⟩ := exists_sections t
  have lexed : lex t = header ++ (lex (rawContent t) ++ tail) := by
    rw [cut.lex_of_code code]
    exact cut.lexed
  rw [← cut.start]
  exact Lexer.inStep_of_lexed lexed

/-- The body of the root is lexed on its own as it is in the content, and so as it is in the document. -/
theorem inStep_rootBody {parts : Parts} (taken : decompose t = .ok parts) :
    InStep t ((Header.ofMasked (maskComments t)).contentStart + (parts.rootOpen + 1))
      parts.rootBody := by
  obtain ⟨h, parsed, _, rfl⟩ := decompose_eq_ok_iff.mp taken
  obtain ⟨header, content, tail, cut⟩ := exists_sections t
  obtain ⟨gap, body, opening⟩ := exists_opening parsed
  have rootBody : (partsWith t h).rootBody = body := opening.dropBytes_brace
  let front := header ++ (lex h.typeName ++ lex gap ++ [⟨'{', .code⟩])
  have place : bytes front =
      (Header.ofMasked (maskComments t)).contentStart + ((partsWith t h).rootOpen + 1) := by
    rw [Lexeme.bytes_append, cut.start, Lexeme.bytes_append, opening.bytes_lead]
    rfl
  have lexed : lex t = front ++ (lex body ++ tail) := by
    rw [cut.lexed, ← cut.lex_of_code code, opening.lex_content]
    simp only [front, List.append_assoc, List.cons_append, List.nil_append]
  rw [rootBody, ← place]
  exact Lexer.inStep_of_lexed lexed

end

/-- A lexer that is back in code lexes what follows from scratch, exactly unless a comment delimiter
straddles the seam. So where the header of a document leaves the lexer in code, all that is lexed on its
own shows its characters in the regions that they have in the document: the content, whose braces are
checked and whose lines are indented, and the body of the root, from which properties are stripped. -/
theorem lexing_resynchronizes :
    (∀ a b : Text, stateAfter {} a = {} →
      (located (a ++ b) = located a ++ shifted (Text.byteLength a) (located b) ↔
        ¬Straddles a b)) ∧
    ∀ t : Text, (stateAt {} (Header.ofMasked (maskComments t)).contentStart t).region = .code →
      let start := (Header.ofMasked (maskComments t)).contentStart
      let stop := start + Text.byteLength (rawContent t)
      InStep t start (rawContent t) ∧
      bracesBalanced (rawContent t) = Lexeme.balancedFrom 0 (lexedBetween start stop t) ∧
      rootClose (rawContent t) = Lexeme.firstReturn 0 0 (lexedBetween start stop t) ∧
      (∀ indent, reindent (rawContent t) indent =
        ['\n'].intercalate (List.zipWith (indentLine indent) (Text.lines (rawContent t))
          (linesInLiteral (lexedBetween start stop t)))) ∧
      ∀ parts, decompose t = .ok parts →
        parts.content = rawContent t ∧
        InStep t (start + (parts.rootOpen + 1)) parts.rootBody ∧
        ∀ remove, Rehosting.strip parts.rootBody remove =
          Rehosting.stripFrom remove {} (lexedBetween (start + (parts.rootOpen + 1)) stop t) := by
  refine ⟨fun a b ends => Lexer.located_append_iff ends, fun t code => ?_⟩
  have content := inStep_rawContent code
  refine ⟨content, ?_, ?_, fun indent => ?_, fun parts taken => ?_⟩
  · rw [bracesBalanced, content.lex_eq]
  · rw [rootClose, content.lex_eq]
  · rw [reindent, content.lex_eq]
  · have body := inStep_rootBody code taken
    have whole : parts.content = rawContent t := by
      obtain ⟨_, _, _, rfl⟩ := decompose_eq_ok_iff.mp taken
      rfl
    refine ⟨whole, body, fun remove => ?_⟩
    rw [Rehosting.strip, body.lex_eq, ← whole, ← byteLength_rootBody taken]
    simp only [Nat.add_assoc]

/-- The slash that ends a comment makes no delimiter with the slash that follows it. In the document
braces stand in comments and literals, before the content, in its head and in its body. -/
theorem lexing_resynchronizes_after_comments :
    let a := "x: 4 /* é */".toList
    let b := "/ 2 // px".toList
    let t := "import \"\x7b\" // é\nWindow /* \x7b */ \x7b x: 1; title: '\x7d' \x7d\n".toList
    stateAfter {} a = {} ∧ ¬Straddles a b ∧
      located (a ++ b) = located a ++ shifted 13 (located b) ∧
      (stateAt {} (Header.ofMasked (maskComments t)).contentStart t).region = .code ∧
      ∃ parts, decompose t = .ok parts ∧ InStep t 17 parts.content ∧
        InStep t 33 parts.rootBody ∧
        Rehosting.strip parts.rootBody Container.window.loses =
          Rehosting.stripFrom Container.window.loses {} (lexedBetween 33 52 t) := by
  intro a b t
  obtain ⟨seam, document⟩ := lexing_resynchronizes
  have ends : stateAfter {} a = {} := by decide
  have apart : ¬Straddles a b := by decide
  have length : Text.byteLength a = 13 := by decide
  have start : (Header.ofMasked (maskComments t)).contentStart = 17 := by decide +kernel
  have code : (stateAt {} (Header.ofMasked (maskComments t)).contentStart t).region = .code := by
    rw [start]
    decide
  let parts : Parts :=
    { pragmas := [], imports := [⟨"\x7b".toList, none, none, true, "import \"\x7b\"".toList⟩]
      contentStart := 17
      content := "Window /* \x7b */ \x7b x: 1; title: '\x7d' \x7d".toList
      rootType := "Window".toList, rootOpen := 15 }
  have taken : decompose t = .ok parts := decompose_of_toOption (by decide +kernel)
  obtain ⟨content, _, _, _, bodies⟩ := document t code
  obtain ⟨whole, body, strips⟩ := bodies parts taken
  have size : Text.byteLength (rawContent t) = 35 := by
    rw [← whole]
    decide
  rw [start] at content body strips
  rw [size] at strips
  rw [← whole] at content
  have both := (seam a b ends).mpr apart
  rw [length] at both
  exact ⟨ends, apart, both, code, parts, taken, content, body, strips _⟩

end QmlPreview
