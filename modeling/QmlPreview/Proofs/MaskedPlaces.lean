import QmlPreview.Proofs.Uncommented

/-! Where the characters of a masked text stand. Blanks take the place of a comment byte by byte, so all
that is no comment stays at its offset, and the lexer finds it there in the region that it lay in. -/

namespace QmlPreview

open Lexeme (bytes)

def Text.NewlineAt (t : Text) (n : Nat) : Prop :=
  ∃ front back : Text, t = front ++ '\n' :: back ∧ byteLength front = n

namespace Lexeme

def StandsAt (xs : List Lexeme) (n : Nat) (x : Lexeme) : Prop :=
  ∃ front back, xs = front ++ x :: back ∧ bytes front = n

theorem standsAt_head (x : Lexeme) (xs : List Lexeme) : StandsAt (x :: xs) 0 x := ⟨[], xs, rfl, rfl⟩

theorem StandsAt.cons {xs : List Lexeme} {n : Nat} {x : Lexeme} (h : StandsAt xs n x) (y : Lexeme) :
    StandsAt (y :: xs) (y.char.utf8Size + n) x := by
  obtain ⟨front, back, rfl, offset⟩ := h
  refine ⟨y :: front, back, rfl, ?_⟩
  rw [bytes_cons, offset]

theorem bytes_uncommented (x : Lexeme) : bytes x.uncommented = x.char.utf8Size := by
  have length := bytes_flatMap_uncommented [x]
  rwa [List.flatMap_singleton, bytes_cons] at length

/-- Every lexeme of a masked text is one of those that take the place of a lexeme of the text. -/
theorem exists_source {xs : List Lexeme} {n : Nat} {x : Lexeme}
    (h : StandsAt (xs.flatMap uncommented) n x) :
    ∃ y m inner more, StandsAt xs m y ∧ y.uncommented = inner ++ x :: more ∧
      n = m + bytes inner := by
  obtain ⟨front, back, split, offset⟩ := h
  induction xs generalizing front n with
  | nil => exact absurd split (by simp)
  | cons y xs ih =>
      rw [List.flatMap_cons] at split
      have later (front' : List Lexeme) (here : front = y.uncommented ++ front')
          (rest : xs.flatMap uncommented = front' ++ x :: back) :
          ∃ z m inner more, StandsAt (y :: xs) m z ∧ z.uncommented = inner ++ x :: more ∧
            n = m + bytes inner := by
        obtain ⟨z, m, inner, more, stands, place, sum⟩ := ih front' rest rfl
        refine ⟨z, _, inner, more, stands.cons y, place, ?_⟩
        rw [← offset, here, bytes_append, bytes_uncommented, sum, Nat.add_assoc]
      rcases List.append_eq_append_iff.mp split with ⟨front', here, rest⟩ | ⟨own, here, rest⟩
      · exact later front' here rest
      · cases own with
        | nil =>
            rw [List.append_nil] at here
            exact later [] (by rw [← here, List.append_nil]) rest.symm
        | cons z more =>
            obtain ⟨rfl, -⟩ := List.cons.inj rest
            refine ⟨y, 0, front, more, standsAt_head y xs, here, ?_⟩
            rw [Nat.zero_add, offset]

section
variable {xs : List Lexeme} {n : Nat} {x : Lexeme}

theorem StandsAt.uncommented (h : StandsAt xs n x) (shown : x.region.isComment = false) :
    StandsAt (xs.flatMap Lexeme.uncommented) n x := by
  obtain ⟨front, back, rfl, offset⟩ := h
  refine ⟨front.flatMap Lexeme.uncommented, back.flatMap Lexeme.uncommented, ?_, ?_⟩
  · rw [List.flatMap_append, List.flatMap_cons, uncommented_of_shown shown, List.singleton_append]
  · rw [bytes_flatMap_uncommented, offset]

/-- What does not stand at its offset in the text itself is blank code. -/
theorem StandsAt.of_uncommented (h : StandsAt (xs.flatMap Lexeme.uncommented) n x) :
    x.region.isComment = false ∧
      (StandsAt xs n x ∨ x.region = .code ∧ Text.isBlank x.char = true) := by
  obtain ⟨y, m, inner, more, stands, place, rfl⟩ := exists_source h
  cases comment : y.region.isComment with
  | false =>
      rw [uncommented_of_shown comment] at place
      obtain ⟨rfl, same⟩ := List.singleton_eq_append_iff.mp place |>.resolve_right (by simp)
      obtain ⟨rfl, -⟩ := List.cons.inj same
      exact ⟨comment, .inl stands⟩
  | true =>
      have member : x ∈ y.uncommented := by
        rw [place]
        exact List.mem_append_right _ List.mem_cons_self
      rw [uncommented_of_comment comment] at member
      obtain ⟨c, hc, rfl⟩ := List.mem_map.mp member
      exact ⟨rfl, .inr ⟨rfl, blank_masked (.inl comment) c hc⟩⟩

theorem uncommented_newline (r : Region) :
    ∃ r', uncommented ⟨'\n', r⟩ = [⟨'\n', r'⟩] := by
  cases r with
  | code => exact ⟨.code, rfl⟩
  | lineComment => exact ⟨.code, rfl⟩
  | blockComment => exact ⟨.code, rfl⟩
  | literal q => exact ⟨.literal q, rfl⟩

/-- A newline takes the place of a newline only. -/
theorem eq_of_newline_uncommented {y : Lexeme} {r : Region} {inner more : List Lexeme}
    (h : y.uncommented = inner ++ ⟨'\n', r⟩ :: more) : y.char = '\n' ∧ inner = [] := by
  have shown : '\n' ∈ y.masked := by
    rw [← maskedText_uncommented, h, maskedText_append, maskedText_newline]
    exact List.mem_append_right _ List.mem_cons_self
  have char : y.char = '\n' := by
    rcases mem_masked shown with space | same
    · exact absurd space (by decide)
    · exact same.symm
  obtain ⟨r', alone⟩ := uncommented_newline y.region
  have same : y.uncommented = [⟨'\n', r'⟩] := by rw [← alone, ← char]
  rw [same] at h
  refine ⟨char, ?_⟩
  cases inner with
  | nil => rfl
  | cons z inner => exact absurd (congrArg List.length h) (by simp)

theorem newlineAt_uncommented :
    (∃ r, StandsAt (xs.flatMap Lexeme.uncommented) n ⟨'\n', r⟩) ↔ ∃ r, StandsAt xs n ⟨'\n', r⟩ := by
  constructor
  · rintro ⟨r, stands⟩
    obtain ⟨⟨c, r'⟩, m, inner, more, source, place, rfl⟩ := exists_source stands
    obtain ⟨rfl, rfl⟩ := eq_of_newline_uncommented place
    exact ⟨r', source⟩
  · rintro ⟨r, front, back, rfl, offset⟩
    obtain ⟨r', alone⟩ := uncommented_newline r
    refine ⟨r', front.flatMap Lexeme.uncommented, back.flatMap Lexeme.uncommented, ?_, ?_⟩
    · rw [List.flatMap_append, List.flatMap_cons, alone, List.singleton_append]
    · rw [bytes_flatMap_uncommented, offset]

end

end Lexeme

open Lexeme (StandsAt)

theorem newlineAt_iff {t : Text} {n : Nat} :
    Text.NewlineAt t n ↔ ∃ r, StandsAt (lex t) n ⟨'\n', r⟩ := by
  constructor
  · rintro ⟨front, back, text, offset⟩
    have chars : (lex t).map (·.char) = front ++ '\n' :: back := by rw [Lexer.map_char_lex, text]
    obtain ⟨before, rest, lexed, first, later⟩ := List.map_eq_append_iff.mp chars
    obtain ⟨⟨c, r⟩, after, rfl, rfl, -⟩ := List.map_eq_cons_iff.mp later
    refine ⟨r, before, after, lexed, ?_⟩
    rw [bytes, first, offset]
  · rintro ⟨r, front, back, lexed, offset⟩
    refine ⟨front.map Lexeme.char, back.map Lexeme.char, ?_, offset⟩
    rw [← Lexer.map_char_lex t, lexed, List.map_append, List.map_cons]

/-- Masking keeps the length of a text and the offsets of its newlines. All that is no comment stands
at its offset in the masked text, in its region; the rest of that text is blank code, so nothing is
left to mask. -/
theorem masking_keeps_places (t : Text) :
    Text.byteLength (maskComments t) = Text.byteLength t ∧
    (∀ n, Text.NewlineAt (maskComments t) n ↔ Text.NewlineAt t n) ∧
    (∀ n x, StandsAt (lex t) n x → x.region.isComment = false →
      StandsAt (lex (maskComments t)) n x) ∧
    (∀ n x, StandsAt (lex (maskComments t)) n x → x.region.isComment = false ∧
      (StandsAt (lex t) n x ∨ x.region = .code ∧ Text.isBlank x.char = true)) ∧
    maskComments (maskComments t) = maskComments t := by
  have masked : lex (maskComments t) = (lex t).flatMap Lexeme.uncommented :=
    Lexer.lex_maskComments t
  refine ⟨Lexer.byteLength_maskComments t, ?_, ?_, ?_, Lexer.maskComments_maskComments t⟩
  · intro n
    rw [newlineAt_iff, newlineAt_iff, masked]
    exact Lexeme.newlineAt_uncommented
  · intro n x stands shown
    rw [masked]
    exact stands.uncommented shown
  · intro n x stands
    rw [masked] at stands
    exact stands.of_uncommented

/-- A slash before a comment stays code, and a character of two bytes in the comment becomes two
spaces. -/
theorem masking_keeps_slash :
    let t := "/ /*é*/ 'a'".toList
    maskComments t = "/        'a'".toList ∧ StandsAt (lex t) 9 ⟨'\'', .literal '\''⟩ ∧
      StandsAt (lex (maskComments t)) 9 ⟨'\'', .literal '\''⟩ := by
  intro t
  obtain ⟨_, _, kept, _⟩ := masking_keeps_places t
  have stands : StandsAt (lex t) 9 ⟨'\'', .literal '\''⟩ :=
    ⟨(lex t).take 8, (lex t).drop 9, by decide +kernel, by decide +kernel⟩
  exact ⟨by decide +kernel, stands, kept 9 _ stands rfl⟩

end QmlPreview
