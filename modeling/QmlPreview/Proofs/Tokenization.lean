import QmlPreview.Proofs.Lexing

/-! The tokens of a document: comments, string literals and single characters of code. The lexer reads
one character at a time and never goes back, yet it gives every character the region of the token that
a reading from left to right, one whole token at a time, would put it in. -/

namespace QmlPreview

open Lexer (lexFrom step isQuote)

/-- What stands in a literal with quote `q`: characters after a backslash, whatever they are, and
others that neither close the literal nor break it. -/
inductive Inside (q : Char) : Text → Prop
  | nil : Inside q []
  | escaped (c : Char) {t : Text} : Inside q t → Inside q ('\\' :: c :: t)
  | plain {c : Char} {t : Text} : c ≠ '\\' → c ≠ q → (c = '\n' → q = '`') → Inside q t →
      Inside q (c :: t)

def commentEnd : Text := ['*', '/']

/-- The first argument is the token that a text starts with, the last one what follows it there. -/
inductive IsToken : Text → Region → Text → Prop
  | lineComment {body rest : Text} : '\n' ∉ body → (∀ c ∈ rest.head?, c = '\n') →
      IsToken ('/' :: '/' :: body) .lineComment rest
  | blockComment {body : Text} (rest : Text) : ¬ commentEnd <:+: body ++ ['*'] →
      IsToken ('/' :: '*' :: (body ++ commentEnd)) .blockComment rest
  | endlessComment {body : Text} : ¬ commentEnd <:+: body →
      IsToken ('/' :: '*' :: body) .blockComment []
  | literal {q : Char} {body : Text} (rest : Text) : isQuote q = true → Inside q body →
      IsToken (q :: (body ++ [q])) (.literal q) rest
  | brokenLiteral {q : Char} {body : Text} (rest : Text) : isQuote q = true → q ≠ '`' →
      Inside q body → IsToken (q :: body) (.literal q) ('\n' :: rest)
  | endlessLiteral {q : Char} {body : Text} : isQuote q = true → Inside q body →
      IsToken (q :: body) (.literal q) []
  | endlessEscape {q : Char} {body : Text} : isQuote q = true → Inside q body →
      IsToken (q :: (body ++ ['\\'])) (.literal q) []
  | code {c : Char} {rest : Text} : isQuote c = false →
      ¬ (c = '/' ∧ (rest.head? = some '/' ∨ rest.head? = some '*')) → IsToken [c] .code rest

/-- The characters of a text, all in one region. -/
def Region.mark (r : Region) (t : Text) : List Lexeme := t.map (⟨·, r⟩)

/-- The text cut into tokens from left to right, each character with the region of its token. -/
inductive Tokenized : Text → List Lexeme → Prop
  | nil : Tokenized [] []
  | cons {token : Text} {r : Region} {rest : Text} {xs : List Lexeme} : IsToken token r rest →
      Tokenized rest xs → Tokenized (token ++ rest) (r.mark token ++ xs)

namespace Lexer

theorem ne_of_isQuote {q : Char} (h : isQuote q = true) : q ≠ '/' ∧ q ≠ '\\' ∧ q ≠ '\n' := by
  refine ⟨?_, ?_, ?_⟩
  all_goals
    rintro rfl
    cases h

section
variable {q : Char} (quote : isQuote q = true)
include quote

theorem lexFrom_quote (t : Text) :
    lexFrom {} (q :: t) = ⟨q, .literal q⟩ :: lexFrom ⟨.literal q, none⟩ t := by
  have opens : step {} q t.head? = (.literal q, ⟨.literal q, none⟩) := by
    simp only [step, ne_of_isQuote quote, quote, false_and, if_false, if_true]
  simp only [lexFrom, opens]

theorem lexFrom_unquote (rest : Text) :
    lexFrom ⟨.literal q, none⟩ (q :: rest) = ⟨q, .literal q⟩ :: lexFrom {} rest := by
  simp only [lexFrom, step, ne_of_isQuote quote, if_false, if_true]

theorem lexFrom_break (single : q ≠ '`') (rest : Text) :
    lexFrom ⟨.literal q, none⟩ ('\n' :: rest) = lexFrom {} ('\n' :: rest) := by
  have closes : step ⟨.literal q, none⟩ '\n' rest.head? = (.code, {}) := by
    simp [step, (ne_of_isQuote quote).2.2.symm, single]
  simp only [lexFrom, closes]
  rfl

end

theorem lexFrom_inside {q : Char} {body : Text} (h : Inside q body) (rest : Text) :
    lexFrom ⟨.literal q, none⟩ (body ++ rest) =
      (Region.literal q).mark body ++ lexFrom ⟨.literal q, none⟩ rest := by
  induction h with
  | nil => rfl
  | escaped c inside ih =>
      have escape (t : Text) : lexFrom ⟨.literal q, none⟩ ('\\' :: c :: t) =
          ⟨'\\', .literal q⟩ :: ⟨c, .literal q⟩ :: lexFrom ⟨.literal q, none⟩ t := rfl
      rw [List.cons_append, List.cons_append, escape, ih]
      rfl
  | plain escape other newline inside ih =>
      rename_i c t
      have stays : step ⟨.literal q, none⟩ c (t ++ rest).head? =
          (.literal q, ⟨.literal q, none⟩) := by
        have unbroken : ¬ (c = '\n' ∧ q ≠ '`') := fun both => both.2 (newline both.1)
        simp only [step, escape, other, unbroken, if_false]
      rw [List.cons_append, lexFrom, stays, ih]
      rfl

theorem lexFrom_lineComment {body : Text} (unbroken : '\n' ∉ body) {rest : Text}
    (ends : ∀ c ∈ rest.head?, c = '\n') : lexFrom ⟨.lineComment, none⟩ (body ++ rest) =
      Region.lineComment.mark body ++ lexFrom {} rest := by
  induction body with
  | nil =>
      cases rest with
      | nil => rfl
      | cons c rest =>
          obtain rfl := ends c rfl
          rfl
  | cons c body ih =>
      rw [List.mem_cons, not_or] at unbroken
      have stays : step ⟨.lineComment, none⟩ c (body ++ rest).head? =
          (.lineComment, ⟨.lineComment, none⟩) := by
        simp only [step, Ne.symm unbroken.1, if_false]
      rw [List.cons_append, lexFrom, stays, ih unbroken.2]
      rfl

theorem step_blockComment {c : Char} {t : Text} (h : ¬ commentEnd <+: c :: t) :
    step ⟨.blockComment, none⟩ c t.head? = (.blockComment, ⟨.blockComment, none⟩) := by
  have goesOn : ¬ (c = '*' ∧ t.head? = some '/') := by
    rintro ⟨rfl, next⟩
    obtain ⟨rest, rfl⟩ := List.head?_eq_some_iff.mp next
    exact h ⟨rest, rfl⟩
  simp only [step, goesOn, if_false]

theorem lexFrom_endlessComment {body : Text} (h : ¬ commentEnd <:+: body) :
    lexFrom ⟨.blockComment, none⟩ body = Region.blockComment.mark body := by
  induction body with
  | nil => rfl
  | cons c body ih =>
      rw [List.infix_cons_iff, not_or] at h
      rw [lexFrom, step_blockComment h.1, ih h.2]
      rfl

theorem lexFrom_blockComment {body : Text} (h : ¬ commentEnd <:+: body ++ ['*']) (rest : Text) :
    lexFrom ⟨.blockComment, none⟩ (body ++ commentEnd ++ rest) =
      Region.blockComment.mark (body ++ commentEnd) ++ lexFrom {} rest := by
  induction body with
  | nil => rfl
  | cons c body ih =>
      rw [List.cons_append, List.infix_cons_iff, not_or] at h
      have goesOn : ¬ commentEnd <+: c :: (body ++ commentEnd ++ rest) := by
        intro early
        apply h.1
        cases body with
        | nil =>
            obtain ⟨_, same⟩ := early
            cases same
        | cons d body =>
            obtain ⟨t, same⟩ := early
            cases same
            exact ⟨body ++ ['*'], rfl⟩
      rw [List.cons_append, List.cons_append, lexFrom, step_blockComment goesOn, ih h.2]
      rfl

end Lexer

/-- In code the lexer reads one token and is in code again. -/
theorem IsToken.lexFrom {token rest : Text} {r : Region} (h : IsToken token r rest) :
    lexFrom {} (token ++ rest) = r.mark token ++ lexFrom {} rest := by
  cases h with
  | lineComment unbroken ends =>
      have opens (t : Text) : Lexer.lexFrom {} ('/' :: '/' :: t) =
          ⟨'/', .lineComment⟩ :: ⟨'/', .lineComment⟩ :: Lexer.lexFrom ⟨.lineComment, none⟩ t := rfl
      rw [List.cons_append, List.cons_append, opens, Lexer.lexFrom_lineComment unbroken ends]
      rfl
  | blockComment rest first =>
      have opens (t : Text) : Lexer.lexFrom {} ('/' :: '*' :: t) =
          ⟨'/', .blockComment⟩ :: ⟨'*', .blockComment⟩ ::
            Lexer.lexFrom ⟨.blockComment, none⟩ t := rfl
      rw [List.cons_append, List.cons_append, opens, Lexer.lexFrom_blockComment first]
      rfl
  | endlessComment none =>
      have opens (t : Text) : Lexer.lexFrom {} ('/' :: '*' :: t) =
          ⟨'/', .blockComment⟩ :: ⟨'*', .blockComment⟩ ::
            Lexer.lexFrom ⟨.blockComment, .none⟩ t := rfl
      rw [List.append_nil, opens, Lexer.lexFrom_endlessComment none, Lexer.lexFrom, List.append_nil]
      rfl
  | literal rest quote inside =>
      rw [List.cons_append, Lexer.lexFrom_quote quote, List.append_assoc,
        Lexer.lexFrom_inside inside, List.singleton_append, Lexer.lexFrom_unquote quote]
      simp only [Region.mark, List.map_cons, List.map_append, List.map_nil, List.cons_append,
        List.append_assoc, List.nil_append]
  | brokenLiteral rest quote single inside =>
      rw [List.cons_append, Lexer.lexFrom_quote quote, Lexer.lexFrom_inside inside,
        Lexer.lexFrom_break quote single]
      rfl
  | endlessLiteral quote inside =>
      rw [List.cons_append, Lexer.lexFrom_quote quote, Lexer.lexFrom_inside inside]
      rfl
  | endlessEscape quote inside =>
      rename_i q body
      have last : Lexer.lexFrom ⟨.literal q, none⟩ ['\\'] = [⟨'\\', .literal q⟩] := rfl
      rw [List.append_nil, Lexer.lexFrom_quote quote, Lexer.lexFrom_inside inside, last,
        Lexer.lexFrom]
      simp only [Region.mark, List.map_cons, List.map_append, List.map_nil, List.append_nil]
  | code noQuote noComment =>
      rename_i c
      have plain : step {} c rest.head? = (.code, {}) := by
        have line : ¬ (c = '/' ∧ rest.head? = some '/') := fun h => noComment ⟨h.1, .inl h.2⟩
        have block : ¬ (c = '/' ∧ rest.head? = some '*') := fun h => noComment ⟨h.1, .inr h.2⟩
        simp only [step, line, block, noQuote, if_false, Bool.false_eq_true]
      rw [List.singleton_append, Lexer.lexFrom, plain]
      rfl

/-- How a literal with quote `q` goes on: what it holds, and then its end. -/
def HasLiteral (q : Char) (t : Text) : Prop :=
  ∃ body rest : Text, t = body ++ rest ∧ Inside q body ∧
    (rest = [] ∨ rest = ['\\'] ∨ rest.head? = some q ∨ rest.head? = some '\n' ∧ q ≠ '`')

theorem HasLiteral.cons {q c : Char} {t : Text} (h : HasLiteral q t) (escape : c ≠ '\\') :
    HasLiteral q (c :: t) := by
  by_cases closes : c = q
  · subst closes
    exact ⟨[], c :: t, rfl, .nil, .inr (.inr (.inl rfl))⟩
  · by_cases breaks : c = '\n' ∧ q ≠ '`'
    · exact ⟨[], c :: t, rfl, .nil, .inr (.inr (.inr ⟨congrArg some breaks.1, breaks.2⟩))⟩
    · obtain ⟨body, rest, rfl, inside, ends⟩ := h
      have newline : c = '\n' → q = '`' :=
        fun same => Decidable.byContradiction fun single => breaks ⟨same, single⟩
      exact ⟨c :: body, rest, rfl, .plain escape closes newline inside, ends⟩

theorem HasLiteral.escaped {q : Char} {t : Text} (h : HasLiteral q t) (c : Char) :
    HasLiteral q ('\\' :: c :: t) := by
  obtain ⟨body, rest, rfl, inside, ends⟩ := h
  exact ⟨'\\' :: c :: body, rest, rfl, .escaped c inside, ends⟩

theorem hasLiteral (q : Char) (t : Text) : HasLiteral q t := by
  -- An escape takes two characters, so both tails of a text are needed.
  suffices both : HasLiteral q t ∧ ∀ c, HasLiteral q (c :: t) from both.1
  induction t with
  | nil =>
      have empty : HasLiteral q [] := ⟨[], [], rfl, .nil, .inl rfl⟩
      refine ⟨empty, ?_⟩
      intro c
      by_cases escape : c = '\\'
      · subst escape
        exact ⟨[], ['\\'], rfl, .nil, .inr (.inl rfl)⟩
      · exact empty.cons escape
  | cons d t ih =>
      refine ⟨ih.2 d, ?_⟩
      intro c
      by_cases escape : c = '\\'
      · subst escape
        exact ih.1.escaped d
      · exact (ih.2 d).cons escape

theorem exists_literal {q : Char} (quote : isQuote q = true) (t : Text) :
    ∃ token rest, q :: t = token ++ rest ∧ IsToken token (.literal q) rest := by
  obtain ⟨body, rest, rfl, inside, ends⟩ := hasLiteral q t
  rcases ends with rfl | rfl | closed | ⟨broken, single⟩
  · exact ⟨q :: body, [], rfl, .endlessLiteral quote inside⟩
  · exact ⟨q :: (body ++ ['\\']), [], by rw [List.append_nil], .endlessEscape quote inside⟩
  · obtain ⟨rest, rfl⟩ := List.head?_eq_some_iff.mp closed
    exact ⟨q :: (body ++ [q]), rest, by simp, .literal rest quote inside⟩
  · obtain ⟨rest, rfl⟩ := List.head?_eq_some_iff.mp broken
    exact ⟨q :: body, '\n' :: rest, rfl, .brokenLiteral rest quote single inside⟩

theorem exists_lineComment (t : Text) :
    ∃ token rest, '/' :: '/' :: t = token ++ rest ∧ IsToken token .lineComment rest := by
  refine ⟨'/' :: '/' :: t.takeWhile (· != '\n'), t.dropWhile (· != '\n'), ?_, .lineComment ?_ ?_⟩
  · rw [List.cons_append, List.cons_append, List.takeWhile_append_dropWhile]
  · intro member
    have := List.all_eq_true.mp List.all_takeWhile _ member
    cases this
  · intro c hc
    have stop := List.head?_dropWhile_not (· != '\n') t
    rw [Option.mem_def.mp hc] at stop
    simpa using stop

theorem exists_commentEnd (t : Text) : ¬ commentEnd <:+: t ∨
    ∃ body rest, t = body ++ commentEnd ++ rest ∧ ¬ commentEnd <:+: body ++ ['*'] := by
  induction t with
  | nil => exact .inl (by decide)
  | cons c t ih =>
      by_cases here : commentEnd <+: c :: t
      · obtain ⟨rest, same⟩ := here
        exact .inr ⟨[], rest, same.symm, by decide⟩
      · rcases ih with none | ⟨body, rest, rfl, first⟩
        · refine .inl ?_
          rw [List.infix_cons_iff, not_or]
          exact ⟨here, none⟩
        · refine .inr ⟨c :: body, rest, rfl, ?_⟩
          rw [List.cons_append, List.infix_cons_iff, not_or]
          refine ⟨?_, first⟩
          rintro ⟨after, same⟩
          apply here
          cases body with
          | nil => cases same
          | cons d body =>
              cases same
              exact ⟨body ++ commentEnd ++ rest, rfl⟩

theorem exists_blockComment (t : Text) :
    ∃ token rest, '/' :: '*' :: t = token ++ rest ∧ IsToken token .blockComment rest := by
  rcases exists_commentEnd t with none | ⟨body, rest, rfl, first⟩
  · exact ⟨'/' :: '*' :: t, [], (List.append_nil _).symm, .endlessComment none⟩
  · exact ⟨'/' :: '*' :: (body ++ commentEnd), rest, rfl, .blockComment rest first⟩

/-- Every text but the empty one starts with a token. -/
theorem exists_isToken (c : Char) (t : Text) :
    ∃ token r rest, c :: t = token ++ rest ∧ IsToken token r rest := by
  by_cases quote : isQuote c = true
  · obtain ⟨token, rest, same, first⟩ := exists_literal quote t
    exact ⟨token, _, rest, same, first⟩
  · by_cases comment : c = '/' ∧ (t.head? = some '/' ∨ t.head? = some '*')
    · obtain ⟨rfl, line | block⟩ := comment
      · obtain ⟨t, rfl⟩ := List.head?_eq_some_iff.mp line
        obtain ⟨token, rest, same, first⟩ := exists_lineComment t
        exact ⟨token, _, rest, same, first⟩
      · obtain ⟨t, rfl⟩ := List.head?_eq_some_iff.mp block
        obtain ⟨token, rest, same, first⟩ := exists_blockComment t
        exact ⟨token, _, rest, same, first⟩
    · exact ⟨[c], _, t, rfl, .code ((Bool.not_eq_true _).mp quote) comment⟩

theorem IsToken.ne_nil {token rest : Text} {r : Region} (h : IsToken token r rest) :
    token ≠ [] := by
  cases h <;> exact List.cons_ne_nil _ _

theorem exists_tokenized (t : Text) : ∃ xs, Tokenized t xs := by
  induction length : t.length using Nat.strongRecOn generalizing t with
  | ind n ih =>
      subst length
      cases t with
      | nil => exact ⟨[], .nil⟩
      | cons c t =>
          obtain ⟨token, r, rest, same, first⟩ := exists_isToken c t
          have shorter : rest.length < (c :: t).length := by
            have := List.length_pos_iff.mpr first.ne_nil
            rw [same, List.length_append]
            omega
          obtain ⟨xs, later⟩ := ih rest.length shorter rest rfl
          rw [same]
          exact ⟨_, .cons first later⟩

theorem Tokenized.lex_eq {t : Text} {xs : List Lexeme} (h : Tokenized t xs) : lex t = xs := by
  induction h with
  | nil => rfl
  | cons first later ih => rw [lex, first.lexFrom, ← lex, ih]

theorem tokenized_iff {t : Text} {xs : List Lexeme} : Tokenized t xs ↔ xs = lex t := by
  constructor
  · intro h
    exact h.lex_eq.symm
  · rintro rfl
    obtain ⟨xs, tokens⟩ := exists_tokenized t
    rwa [tokens.lex_eq]

namespace Stretch

/-- Lexemes with the byte offsets where they stand, the first one at `offset`. -/
def place (offset : Nat) : List Lexeme → List (Nat × Lexeme)
  | [] => []
  | x :: xs => (offset, x) :: place (offset + x.char.utf8Size) xs

/-- The characters of a stretch, each with its offset and its region. -/
def placed (s : Stretch) : List (Nat × Lexeme) := place s.offset (s.region.mark s.text)

theorem offset_of_head {offset : Nat} {xs : List Lexeme} {s : Stretch}
    (h : s ∈ (ofLexemes offset xs).head?) : s.offset = offset := by
  cases xs with
  | nil => cases h
  | cons x xs =>
      rw [ofLexemes] at h
      split at h
      · cases h
        rfl
      · split at h
        all_goals
          cases h
          rfl

theorem flatMap_placed (offset : Nat) (xs : List Lexeme) :
    (ofLexemes offset xs).flatMap placed = place offset xs := by
  induction xs generalizing offset with
  | nil => rfl
  | cons x xs ih =>
      have rest := ih (offset + x.char.utf8Size)
      rw [place, ← rest, ofLexemes]
      cases stretches : ofLexemes (offset + x.char.utf8Size) xs with
      | nil => rfl
      | cons s later =>
          by_cases same : s.region = x.region
          · have follows : s.offset = offset + x.char.utf8Size :=
              offset_of_head (by rw [stretches]; rfl)
            simp only [same, if_true, List.flatMap_cons, placed, Region.mark, List.map_cons, place,
              List.cons_append, follows]
          · simp only [same, if_false]
            rfl

theorem getElem?_place (offset : Nat) (xs : List Lexeme) (i : Nat) : (place offset xs)[i]? =
    xs[i]?.map (fun x => (offset + Text.byteLength ((xs.take i).map (·.char)), x)) := by
  induction xs generalizing offset i with
  | nil => rfl
  | cons x xs ih =>
      cases i with
      | zero => rfl
      | succ i =>
          rw [place, List.getElem?_cons_succ, List.getElem?_cons_succ, ih, List.take_succ_cons,
            List.map_cons, Text.byteLength_cons, Nat.add_assoc]

end Stretch

/-- The lexer gives back every character of a text once and in order, at its byte offset, and in the
region that the token grammar puts it in. -/
theorem lexing_takes_tokens (t : Text) :
    (∀ xs, Tokenized t xs ↔ xs = lex t) ∧ (lex t).map (·.char) = t ∧
      ∀ i, ((Stretch.ofLexemes 0 (lex t)).flatMap Stretch.placed)[i]? =
        (lex t)[i]?.map (fun x => (Text.byteLength (t.take i), x)) := by
  refine ⟨fun xs => tokenized_iff, Lexer.map_char_lex t, ?_⟩
  intro i
  rw [Stretch.flatMap_placed, Stretch.getElem?_place, List.map_take, Lexer.map_char_lex]
  simp only [Nat.zero_add]

example : (lex "/*/".toList).map (·.region) = [.blockComment, .blockComment, .blockComment] := by
  decide

end QmlPreview
