import QmlPreview.Text.Slice

/-! Cutting a text at checked offsets. An offset that is no boundary is refused, and so are a difference
below zero and a loop that does not move on. -/

namespace QmlPreview

inductive Slip where
  | noBoundary (offset : Nat) (t : Text)
  | negative (minuend subtrahend : Nat)
  | stays (offset : Nat)
  deriving DecidableEq, Repr

abbrev Sliced (α : Type) := Except Slip α

@[simp] theorem Sliced.bind_ok {α β : Type} (a : α) (f : α → Sliced β) :
    (Except.ok a : Sliced α) >>= f = f a := rfl

def difference (a b : Nat) : Sliced Nat := if b ≤ a then .ok (a - b) else .error (.negative a b)

theorem difference_add (a b : Nat) : difference (a + b) b = .ok a := by
  rw [difference, if_pos (Nat.le_add_left b a), Nat.add_sub_cancel]

namespace Text

/-- The two sides of a byte offset. There are none where it is no boundary. -/
def splitAt? : Nat → Text → Option (Text × Text)
  | 0, t => some ([], t)
  | _ + 1, [] => none
  | n + 1, c :: t =>
    if c.utf8Size ≤ n + 1 then
      (splitAt? (n + 1 - c.utf8Size) t).map fun sides => (c :: sides.1, sides.2)
    else none

theorem splitAt?_append (s r : Text) : splitAt? (byteLength s) (s ++ r) = some (s, r) := by
  induction s with
  | nil => cases r <;> rfl
  | cons c s ih =>
      obtain ⟨n, size⟩ := Nat.exists_eq_add_one_of_ne_zero
        (Nat.ne_of_gt (Nat.add_pos_left c.utf8Size_pos (byteLength s)))
      have left : n + 1 - c.utf8Size = byteLength s := by omega
      rw [byteLength_cons, size, List.cons_append, splitAt?, if_pos (by omega), left, ih]
      rfl

theorem splitAt?_eq_some_iff {n : Nat} {t s r : Text} :
    splitAt? n t = some (s, r) ↔ t = s ++ r ∧ byteLength s = n := by
  constructor
  · intro found
    induction t generalizing n s with
    | nil =>
        cases n with
        | zero => cases found; exact ⟨rfl, rfl⟩
        | succ n => cases found
    | cons c t ih =>
        cases n with
        | zero => cases found; exact ⟨rfl, rfl⟩
        | succ n =>
            rw [splitAt?] at found
            split at found
            · rename_i fits
              obtain ⟨⟨s', r'⟩, later, same⟩ := Option.map_eq_some_iff.mp found
              cases same
              obtain ⟨rfl, size⟩ := ih later
              refine ⟨rfl, ?_⟩
              rw [byteLength_cons, size]
              omega
            · cases found
  · rintro ⟨rfl, rfl⟩
    exact splitAt?_append s r

/-- The two sides of a byte offset, which is refused where it is no boundary. -/
def cutAt (n : Nat) (t : Text) : Sliced (Text × Text) :=
  match splitAt? n t with
  | some sides => .ok sides
  | none => .error (.noBoundary n t)

theorem exists_cutAt_iff {n : Nat} {t : Text} :
    (∃ sides, cutAt n t = .ok sides) ↔ IsBoundary t n := by
  constructor
  · rintro ⟨⟨s, r⟩, cut⟩
    unfold cutAt at cut
    split at cut
    · rename_i sides
      cases cut
      exact ⟨s, r, splitAt?_eq_some_iff.mp sides⟩
    · cases cut
  · rintro ⟨s, r, rfl, rfl⟩
    rw [cutAt, splitAt?_append]
    exact ⟨(s, r), rfl⟩

/-- The two bytes of an accented letter are not cut apart. -/
example : cutAt 1 "é".toList = .error (.noBoundary 1 "é".toList) := rfl

def cutTo (n : Nat) (t : Text) : Sliced Text := do
  let sides ← cutAt n t
  return sides.1

def cutFrom (n : Nat) (t : Text) : Sliced Text := do
  let sides ← cutAt n t
  return sides.2

def cutBetween (start stop : Nat) (t : Text) : Sliced Text := do
  let rest ← cutFrom start t
  let size ← difference stop start
  cutTo size rest

@[simp] theorem cutTo_append (s r : Text) : cutTo (byteLength s) (s ++ r) = .ok s := by
  rw [cutTo, cutAt, splitAt?_append]
  rfl

@[simp] theorem cutFrom_append (s r : Text) : cutFrom (byteLength s) (s ++ r) = .ok r := by
  rw [cutFrom, cutAt, splitAt?_append]
  rfl

theorem cutBetween_append (a b c : Text) :
    cutBetween (byteLength a) (byteLength a + byteLength b) (a ++ (b ++ c)) = .ok b := by
  rw [cutBetween, cutFrom_append, Nat.add_comm, difference_add]
  exact cutTo_append b c

def firstNot? (p : Char → Bool) : Text → Option Nat
  | [] => none
  | c :: t => if p c then (firstNot? p t).map (c.utf8Size + ·) else some 0

section
variable (p : Char → Bool) (t : Text)

theorem firstNot?_eq : firstNot? p t =
    if t.dropWhile p = [] then none else some (byteLength (t.takeWhile p)) := by
  induction t with
  | nil => rfl
  | cons c t ih =>
      rw [firstNot?, List.dropWhile_cons, List.takeWhile_cons]
      split
      · rw [ih]
        split <;> rfl
      · rfl

theorem getD_firstNot? :
    (firstNot? p t).getD (byteLength t) = byteLength (t.takeWhile p) := by
  rw [firstNot?_eq]
  split
  · rename_i none
    have all : t.takeWhile p = t := by
      rw [← List.append_nil (t.takeWhile p), ← none, List.takeWhile_append_dropWhile]
    rw [Option.getD_none, all]
  · rfl

theorem cutTo_takeWhile : cutTo (byteLength (t.takeWhile p)) t = .ok (t.takeWhile p) := by
  have cut := cutTo_append (t.takeWhile p) (t.dropWhile p)
  rwa [List.takeWhile_append_dropWhile] at cut

theorem cutFrom_takeWhile : cutFrom (byteLength (t.takeWhile p)) t = .ok (t.dropWhile p) := by
  have cut := cutFrom_append (t.takeWhile p) (t.dropWhile p)
  rwa [List.takeWhile_append_dropWhile] at cut

end

theorem eq_of_dropWhile {p : Char → Bool} {c : Char} {t r : Text} (h : t.dropWhile p = c :: r) :
    t = (t.takeWhile p ++ [c]) ++ r ∧ p c = false := by
  constructor
  · rw [List.append_assoc, List.singleton_append, ← h, List.takeWhile_append_dropWhile]
  · have first := List.head?_dropWhile_not p t
    rwa [h] at first

end Text

end QmlPreview
