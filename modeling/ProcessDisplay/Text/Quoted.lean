import ProcessDisplay.Text.Hex

/-!
# Texts in quotes

A quoted text shows its quotes, backslashes, line ends and control
characters as escapes, so that its extent can be seen.
-/

namespace ProcessDisplay.Text

/-- A character as it is written between two quotes of a kind. -/
def quotedChar (quote c : Char) : String :=
  if c = quote || c = '\\' then String.ofList ['\\', c]
  else if c = '\n' then "\\n"
  else if c = '\r' then "\\r"
  else if c = '\t' then "\\t"
  else if c.toNat = 0 then "\\0"
  else if c.toNat < 32 || (127 ≤ c.toNat && c.toNat < 160) then
    "\\u\x7b" ++ hexText c.toNat ++ "\x7d"
  else String.singleton c

/-- A text in quotes. -/
def quotedText (s : String) : String :=
  "\"" ++ String.join (s.toList.map (quotedChar '"')) ++ "\""

end ProcessDisplay.Text
