import QmlPreview.Text

/-!
Cutting a text at byte offsets.

An offset is meaningful where it is a boundary: where a prefix of the text has that many bytes.
Cutting at any other offset takes the whole character the offset falls into.
-/

namespace QmlPreview.Text

/-- The offset `n` falls between two characters of the text, or at one of its ends. -/
def IsBoundary (t : Text) (n : Nat) : Prop := ∃ s r : Text, t = s ++ r ∧ byteLength s = n

def dropBytes (n : Nat) : Text → Text
  | [] => []
  | c :: t => if n = 0 then c :: t else dropBytes (n - c.utf8Size) t

def takeBytes (n : Nat) : Text → Text
  | [] => []
  | c :: t => if n = 0 then [] else c :: takeBytes (n - c.utf8Size) t

def slice (start stop : Nat) (t : Text) : Text := takeBytes (stop - start) (dropBytes start t)

/-- Cutting after a prefix gives back what follows it. -/
@[simp] theorem dropBytes_append (s t : Text) : dropBytes (byteLength s) (s ++ t) = t := by
  induction s with
  | nil => cases t <;> simp [dropBytes]
  | cons c s ih =>
    have nonzero : c.utf8Size ≠ 0 := Nat.ne_of_gt c.utf8Size_pos
    simp [dropBytes, ih, nonzero]

/-- Taking as many bytes as a prefix has gives that prefix. -/
@[simp] theorem takeBytes_append (s t : Text) : takeBytes (byteLength s) (s ++ t) = s := by
  induction s with
  | nil => cases t <;> simp [takeBytes]
  | cons c s ih =>
    have nonzero : c.utf8Size ≠ 0 := Nat.ne_of_gt c.utf8Size_pos
    simp [takeBytes, ih, nonzero]

end QmlPreview.Text
