import QmlPreview.Text

/-!
Tokens: thirty-two hexadecimal digits, drawn at random, that keep generated names apart.
-/

namespace QmlPreview

/-- A digit or a letter from a to f, in lower case. -/
def isLowerHex (c : Char) : Bool := c.isDigit || ('a' ≤ c && c ≤ 'f')

def hexDigit (n : Fin 16) : Char := ("0123456789abcdef".toList)[n]

theorem isLowerHex_hexDigit : ∀ n, isLowerHex (hexDigit n) = true := by decide

structure Token where
  digits : Text
  length_digits : digits.length = 32
  isLowerHex_digits : ∀ c ∈ digits, isLowerHex c = true

namespace Token

/-- The token that writes a number with thirty-two digits, dropping what goes beyond them. -/
def ofNat (n : Nat) : Token where
  digits := (List.range 32).map (fun i => hexDigit (Fin.ofNat 16 (n / Nat.pow 16 (31 - i))))
  length_digits := by simp
  isLowerHex_digits := by
    intro c h
    obtain ⟨i, _, rfl⟩ := List.mem_map.1 h
    exact isLowerHex_hexDigit _

/-- The first eight digits. -/
def short (t : Token) : Text := t.digits.take 8

end Token

end QmlPreview
