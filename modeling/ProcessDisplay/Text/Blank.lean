/-!
# Blank characters, trimming and separation

Text is handled as a list of characters. A character is blank when it has
the Unicode property White_Space, which is a wider set than the ASCII blanks
of `Char.isWhitespace`; trimming removes blanks on both sides. Separation at
a character keeps empty pieces, so there is always one piece more than there
are separators.
-/

namespace ProcessDisplay.Text

/-- The 25 characters with the Unicode property White_Space. -/
def isBlank (c : Char) : Bool :=
  let n := c.toNat
  (9 ≤ n && n ≤ 13) || n == 0x20 || n == 0x85 || n == 0xA0 || n == 0x1680 ||
    (0x2000 ≤ n && n ≤ 0x200A) || n == 0x2028 || n == 0x2029 || n == 0x202F ||
    n == 0x205F || n == 0x3000

/-- Characters without the blanks that lead and close them. -/
def trimmed (cs : List Char) : List Char :=
  ((cs.dropWhile isBlank).reverse.dropWhile isBlank).reverse

/-- A text without the blanks that lead and close it. -/
def trim (text : String) : String := String.ofList (trimmed text.toList)

/-- Whether nothing but blanks is left. -/
def isBlankText (cs : List Char) : Bool := cs.all isBlank

/-- The pieces between the occurrences of a separator, empty ones included. -/
def pieces (separator : Char) : List Char → List (List Char)
  | [] => [[]]
  | c :: rest =>
    if c = separator then [] :: pieces separator rest
    else
      match pieces separator rest with
      | [] => [[c]]
      | first :: others => (c :: first) :: others

/-- What follows a given beginning, if the characters have that beginning. -/
def after? : List Char → List Char → Option (List Char)
  | [], cs => some cs
  | _ :: _, [] => none
  | p :: ps, c :: cs => if p = c then after? ps cs else none

/-- What precedes a closing character, if the characters end with it. -/
def beforeLast? (last : Char) (cs : List Char) : Option (List Char) :=
  match cs.reverse with
  | [] => none
  | c :: rest => if c = last then some rest.reverse else none

/-- The pieces of a text joined with a separator between neighbours. -/
def joined (separator : String) (parts : List String) : String :=
  String.intercalate separator parts

/-- A text filled up with spaces on the right to a least number of characters. -/
def padRight (width : Nat) (text : String) : String :=
  text ++ String.ofList (List.replicate (width - text.length) ' ')

/-- A text filled up on the left to a least number of characters. -/
def padLeft (fill : Char) (width : Nat) (text : String) : String :=
  String.ofList (List.replicate (width - text.length) fill) ++ text

end ProcessDisplay.Text
