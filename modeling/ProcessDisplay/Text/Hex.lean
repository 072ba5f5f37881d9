/-!
# Hexadecimal digits

Codes of characters are read and written in hexadecimal digits; letters may
be small or capital when they are read.
-/

namespace ProcessDisplay.Text

/-- The hexadecimal digits of a code, at least one. -/
def hexText (code : Nat) : String := String.ofList (Nat.toDigits 16 code)

/-- The value of a hexadecimal digit. -/
def hexValue? (c : Char) : Option Nat :=
  if c.isDigit then some (c.toNat - 48)
  else if 'a' ≤ c ∧ c ≤ 'f' then some (c.toNat - 87)
  else if 'A' ≤ c ∧ c ≤ 'F' then some (c.toNat - 55)
  else none

/-- The code that hexadecimal digits write. -/
def hexCode? (digits : List Char) : Option Nat :=
  (digits.mapM hexValue?).map fun values => values.foldl (fun n d => 16 * n + d) 0

/-- The character of a code, if it is one. -/
def character? (code : Nat) : Option Char :=
  if code.isValidChar then some (Char.ofNat code) else none

/-- The character whose code hexadecimal digits write. -/
def hexCharacter? (digits : List Char) : Option Char := (hexCode? digits).bind character?

end ProcessDisplay.Text
