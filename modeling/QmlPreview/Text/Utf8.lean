import QmlPreview.Text

/-!
Texts as bytes, in UTF-8.

Bytes need not be UTF-8. Reading them gives, for each character, the character, and for each longest
run of bytes that starts like a character and is none, a failure. A strict reader stops at the first
failure; a lenient one puts the replacement character in its place.
-/

namespace QmlPreview.Utf8

def encode (t : Text) : List UInt8 := t.flatMap String.utf8EncodeChar

/-- What a first byte says about the character that it starts. -/
structure Lead where
  /-- The number of bytes that follow. -/
  following : Nat
  /-- The least and the greatest byte that may follow first. -/
  low : UInt8
  high : UInt8
  /-- The bits of the code point that the first byte holds. -/
  bits : Nat

/-- Reads a first byte; a byte that cannot start a character gives nothing. -/
def lead? (b : UInt8) : Option Lead :=
  if b < 0x80 then some ⟨0, 0x80, 0xBF, b.toNat⟩
  else if 0xC2 ≤ b && b ≤ 0xDF then some ⟨1, 0x80, 0xBF, b.toNat % 32⟩
  else if b = 0xE0 then some ⟨2, 0xA0, 0xBF, 0⟩
  else if b = 0xED then some ⟨2, 0x80, 0x9F, 13⟩
  else if 0xE1 ≤ b && b ≤ 0xEF then some ⟨2, 0x80, 0xBF, b.toNat % 16⟩
  else if b = 0xF0 then some ⟨3, 0x90, 0xBF, 0⟩
  else if 0xF1 ≤ b && b ≤ 0xF3 then some ⟨3, 0x80, 0xBF, b.toNat % 8⟩
  else if b = 0xF4 then some ⟨3, 0x80, 0x8F, 4⟩
  else none

/-- Reads the bytes that follow a first one: the character, where they complete one, and the rest. -/
def follow : (following : Nat) → (low high : UInt8) → (bits : Nat) → List UInt8 →
    Option Char × List UInt8
  | 0, _, _, bits, rest => (some (Char.ofNat bits), rest)
  | _ + 1, _, _, _, [] => (none, [])
  | n + 1, low, high, bits, b :: rest =>
    if low ≤ b && b ≤ high then follow n 0x80 0xBF (bits * 64 + b.toNat % 64) rest
    else (none, b :: rest)

theorem length_follow_le (n : Nat) (low high : UInt8) (bits : Nat) (bytes : List UInt8) :
    (follow n low high bits bytes).2.length ≤ bytes.length := by
  induction n generalizing low high bits bytes with
  | zero => exact Nat.le_refl _
  | succ n ih =>
    cases bytes with
    | nil => exact Nat.le_refl _
    | cons b rest =>
      simp only [follow]
      split
      · exact Nat.le_succ_of_le (ih ..)
      · exact Nat.le_refl _

/-- Reads one character or one failure after its first byte. -/
def readOne (b : UInt8) (rest : List UInt8) : Option Char × List UInt8 :=
  match lead? b with
  | none => (none, rest)
  | some l => follow l.following l.low l.high l.bits rest

theorem length_readOne_le (b : UInt8) (rest : List UInt8) :
    (readOne b rest).2.length ≤ rest.length := by
  unfold readOne
  split
  · exact Nat.le_refl _
  · exact length_follow_le ..

/-- The characters and failures of a sequence of bytes. -/
def decodeAll : List UInt8 → List (Option Char)
  | [] => []
  | b :: rest => (readOne b rest).1 :: decodeAll (readOne b rest).2
termination_by bytes => bytes.length
decreasing_by exact Nat.lt_succ_of_le (length_readOne_le b rest)

/-- The text of a sequence of bytes, if it is UTF-8 throughout. -/
def decode? (bytes : List UInt8) : Option Text := (decodeAll bytes).mapM id

/-- The text of a sequence of bytes, with a replacement character for each failure. -/
def decodeLenient (bytes : List UInt8) : Text := (decodeAll bytes).map (·.getD '\uFFFD')

end QmlPreview.Utf8
