import ProcessDisplay.Decimal.Layout
import ProcessDisplay.Text.Quoted
import ProcessDisplay.Script.Approximate

/-!
# Data of the script language

A datum is what an expression evaluates to. Its text shows numbers with a
point, so that `1` and `1.0` stay apart; very large and very small numbers
have an exponent. Inside a written array or map, texts are quoted and
numbers follow the layout of array elements.
-/

namespace ProcessDisplay.Script

/-- What an expression evaluates to. -/
inductive Datum where
  /-- No value. -/
  | unit
  /-- A truth value. -/
  | bool (b : Bool)
  /-- An integer of 64 bits. -/
  | integer (n : Int)
  /-- A binary floating-point number. -/
  | float (x : Float)
  /-- A character. -/
  | character (c : Char)
  /-- A text. -/
  | text (s : String)
  /-- A row of data. -/
  | array (items : List Datum)
  /-- Data by name, in the order of their names. -/
  | map (entries : List (String × Datum))
  /-- The integers from a first one up to a last one, which may be left out. -/
  | range (first last : Int) (inclusive : Bool)
  /-- A value of another type, known by its type and its text alone. -/
  | foreign (kind shown : String)
  deriving Inhabited

namespace Datum

/-- The name of the type of a datum. -/
def typeName : Datum → String
  | unit => "()"
  | bool _ => "bool"
  | integer _ => "i64"
  | float _ => "f64"
  | character _ => "char"
  | text _ => "string"
  | array _ => "array"
  | map _ => "map"
  | range _ _ false => "range"
  | range _ _ true => "range="
  | foreign kind _ => kind

/-- The largest number that is written without an exponent. -/
def largestPlain : Float := 9999999827968.0

/-- The smallest positive number that is written without an exponent. -/
def smallestPlain : Float := 9.9999998245167e-14

/-- A number as text: zero has no sign, and an exponent is used outside the plain range. -/
def floatText (x : Float) : String :=
  if x == 0.0 then "0.0"
  else if x.isNaN || x.isInf then Decimal.plainText x
  else if x.abs > largestPlain || x.abs < smallestPlain then
    String.ofList (Decimal.Layout.exponential.render x)
  else String.ofList (Decimal.Layout.pointed.render x)

/-- A range as text. -/
def rangeText (first last : Int) (inclusive : Bool) : String :=
  toString first ++ (if inclusive then "..=" else "..") ++ toString last

mutual

/-- A datum as an element of a written array or map. -/
def elementText : Datum → String
  | unit => "()"
  | bool b => if b then "true" else "false"
  | integer n => toString n
  | float x => String.ofList (Decimal.Layout.element.render x)
  | character c => "'" ++ Text.quotedChar '\'' c ++ "'"
  | text s => Text.quotedText s
  | array items => "[" ++ elementTexts items ++ "]"
  | map entries => "#\x7b" ++ entryTexts entries ++ "\x7d"
  | range first last inclusive => rangeText first last inclusive
  | foreign _ shown => shown

/-- Elements separated by commas. -/
def elementTexts : List Datum → String
  | [] => ""
  | [only] => elementText only
  | first :: rest => elementText first ++ ", " ++ elementTexts rest

/-- Named data separated by commas. -/
def entryTexts : List (String × Datum) → String
  | [] => ""
  | [(name, only)] => Text.quotedText name ++ ": " ++ elementText only
  | (name, first) :: rest =>
    Text.quotedText name ++ ": " ++ elementText first ++ ", " ++ entryTexts rest

end

/-- The text of a datum by itself. -/
def toText : Datum → String
  | unit => ""
  | float x => floatText x
  | character c => String.singleton c
  | text s => s
  | other => elementText other

mutual

/-- Equality of two data; numbers are equal approximately, also an integer
and a number, and data of unrelated types differ. -/
def same : Datum → Datum → Bool
  | unit, unit => true
  | bool a, bool b => a == b
  | integer m, integer n => m == n
  | integer m, float y => Approximate.equal (Float.ofInt m) y
  | float x, integer n => Approximate.equal x (Float.ofInt n)
  | float x, float y => Approximate.equal x y
  | character c, character d => c == d
  | character c, text t => String.singleton c == t
  | text s, character d => s == String.singleton d
  | text s, text t => s == t
  | array xs, array ys => sameItems xs ys
  | map xs, map ys => sameEntries xs ys
  | range a b i, range c d j => a == c && b == d && i == j
  | foreign a s, foreign b t => a == b && s == t
  | _, _ => false

/-- Equality element by element. -/
def sameItems : List Datum → List Datum → Bool
  | [], [] => true
  | x :: xs, y :: ys => same x y && sameItems xs ys
  | _, _ => false

/-- Equality entry by entry. -/
def sameEntries : List (String × Datum) → List (String × Datum) → Bool
  | [], [] => true
  | (m, x) :: xs, (n, y) :: ys => m == n && same x y && sameEntries xs ys
  | _, _ => false

end

mutual

/-- Equality without any conversion between types, as cases are selected;
numbers are compared bit by bit. -/
def exactly : Datum → Datum → Bool
  | float x, float y => x.toBits == y.toBits
  | array xs, array ys => exactlyItems xs ys
  | map xs, map ys => exactlyEntries xs ys
  | a, b => a.typeName == b.typeName && a.same b

/-- Exact equality element by element. -/
def exactlyItems : List Datum → List Datum → Bool
  | [], [] => true
  | x :: xs, y :: ys => exactly x y && exactlyItems xs ys
  | _, _ => false

/-- Exact equality entry by entry. -/
def exactlyEntries : List (String × Datum) → List (String × Datum) → Bool
  | [], [] => true
  | (m, x) :: xs, (n, y) :: ys => m == n && exactly x y && exactlyEntries xs ys
  | _, _ => false

end

/-- What counts towards the size limits of a datum. -/
structure Extent where
  /-- Elements of arrays. -/
  items : Nat := 0
  /-- Entries of maps. -/
  entries : Nat := 0
  /-- Bytes of texts. -/
  bytes : Nat := 0

/-- The extent of two data together. -/
def Extent.add (a b : Extent) : Extent :=
  ⟨a.items + b.items, a.entries + b.entries, a.bytes + b.bytes⟩

mutual

/-- The extent of a datum with everything in it. -/
def extent : Datum → Extent
  | text s => { bytes := s.utf8ByteSize }
  | array items => extents items
  | map entries => entryExtents entries
  | _ => {}

/-- The extent of the elements of an array, each of which counts once. -/
def extents : List Datum → Extent
  | [] => {}
  | first :: rest => (first.extent.add { items := 1 }).add (extents rest)

/-- The extent of the entries of a map, each of which counts once. -/
def entryExtents : List (String × Datum) → Extent
  | [] => {}
  | (_, first) :: rest => (first.extent.add { entries := 1 }).add (entryExtents rest)

end

/-- The datum of a name in the entries of a map. -/
def lookup (name : String) : List (String × Datum) → Option Datum
  | [] => none
  | (key, value) :: rest => if key = name then some value else lookup name rest

/-- The entries of a map with one name set; a new name takes its place in the order. -/
def insert (name : String) (value : Datum) : List (String × Datum) → List (String × Datum)
  | [] => [(name, value)]
  | (key, old) :: rest =>
    if name = key then (name, value) :: rest
    else if name < key then (name, value) :: (key, old) :: rest
    else (key, old) :: insert name value rest

end Datum

end ProcessDisplay.Script
