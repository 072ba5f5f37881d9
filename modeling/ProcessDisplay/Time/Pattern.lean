import ProcessDisplay.Decimal.Layout
import ProcessDisplay.Text.Blank
import ProcessDisplay.Time.Calendar

/-!
# Patterns of dates and times

A pattern is text with specifiers. A specifier is a percent sign and a
letter; a padding mark may stand between them if the specifier is a single
number. Main statement of the theory built on it: a pattern is refused as a
whole if any of its specifiers is unknown.
-/

namespace ProcessDisplay.Time

/-- How a number is filled up to its width. -/
inductive Padding where
  /-- Not at all. -/
  | bare
  /-- With zeros. -/
  | zeros
  /-- With spaces. -/
  | spaces
  deriving DecidableEq, Repr

/-- The numbers that a specifier can show. -/
inductive Quantity where
  /-- The year. -/
  | year
  /-- The century. -/
  | century
  /-- The year within its century. -/
  | yearOfCentury
  /-- The year of the week. -/
  | weekYear
  /-- The year of the week within its century. -/
  | weekYearOfCentury
  /-- The quarter. -/
  | quarter
  /-- The month. -/
  | month
  /-- The day of the month. -/
  | day
  /-- The number of Sundays so far. -/
  | sundays
  /-- The number of Mondays so far. -/
  | mondays
  /-- The number of the week. -/
  | week
  /-- The days since Sunday. -/
  | sinceSunday
  /-- The day of the week from Monday on. -/
  | weekday
  /-- The day of the year. -/
  | ordinal
  /-- The hour. -/
  | hour
  /-- The hour of twelve. -/
  | hourOfTwelve
  /-- The minute. -/
  | minute
  /-- The second. -/
  | second
  /-- The nanoseconds of the second. -/
  | nanos
  /-- The seconds since the Unix epoch. -/
  | timestamp
  deriving DecidableEq, Repr

/-- A part of a pattern. -/
inductive PatternItem where
  /-- Text that is copied. -/
  | plain (c : Char)
  /-- A number. -/
  | number (quantity : Quantity) (padding : Padding)
  /-- The first three letters of the month. -/
  | shortMonth
  /-- The name of the month. -/
  | longMonth
  /-- The first three letters of the day of the week. -/
  | shortWeekday
  /-- The name of the day of the week. -/
  | longWeekday
  /-- The half of the day in small letters. -/
  | lowerHalf
  /-- The half of the day in capital letters. -/
  | upperHalf
  /-- The fraction of the second after a point, as long as it has to be. -/
  | fraction
  /-- The fraction of the second with a number of digits, after a point or not. -/
  | digits (count : Nat) (point : Bool)
  /-- The offset of the time zone, with a number of parts, separated or not. -/
  | offset (parts : Nat) (colons : Bool)
  /-- The date, the time and the offset in one. -/
  | stamp
  /-- An offset that can be read but not be written. -/
  | unwritable
  deriving DecidableEq, Repr

/-- Copied text. -/
def plainItems (text : String) : List PatternItem := text.toList.map .plain

/-- The month, day and year within the century with strokes. -/
def shortDate : List PatternItem :=
  [.number .month .zeros, .plain '/', .number .day .zeros, .plain '/',
    .number .yearOfCentury .zeros]

/-- The hour and minute. -/
def shortTime : List PatternItem := [.number .hour .zeros, .plain ':', .number .minute .zeros]

/-- The hour, minute and second. -/
def fullTime : List PatternItem := shortTime ++ [.plain ':', .number .second .zeros]

/-- The items of a specifier of one letter. -/
def letterItems? (c : Char) : Option (List PatternItem) :=
  match c with
  | 'A' => some [.longWeekday]
  | 'B' => some [.longMonth]
  | 'C' => some [.number .century .zeros]
  | 'D' => some shortDate
  | 'F' =>
    some [.number .year .zeros, .plain '-', .number .month .zeros, .plain '-',
      .number .day .zeros]
  | 'G' => some [.number .weekYear .zeros]
  | 'H' => some [.number .hour .zeros]
  | 'I' => some [.number .hourOfTwelve .zeros]
  | 'M' => some [.number .minute .zeros]
  | 'P' => some [.lowerHalf]
  | 'R' => some shortTime
  | 'S' => some [.number .second .zeros]
  | 'T' => some fullTime
  | 'U' => some [.number .sundays .zeros]
  | 'V' => some [.number .week .zeros]
  | 'W' => some [.number .mondays .zeros]
  | 'X' => some fullTime
  | 'Y' => some [.number .year .zeros]
  | 'Z' => some [.offset 2 true]
  | 'a' => some [.shortWeekday]
  | 'b' => some [.shortMonth]
  | 'c' =>
    some ([.shortWeekday, .plain ' ', .shortMonth, .plain ' ', .number .day .spaces, .plain ' ']
      ++ fullTime ++ [.plain ' ', .number .year .zeros])
  | 'd' => some [.number .day .zeros]
  | 'e' => some [.number .day .spaces]
  | 'f' => some [.number .nanos .zeros]
  | 'g' => some [.number .weekYearOfCentury .zeros]
  | 'h' => some [.shortMonth]
  | 'j' => some [.number .ordinal .zeros]
  | 'k' => some [.number .hour .spaces]
  | 'l' => some [.number .hourOfTwelve .spaces]
  | 'm' => some [.number .month .zeros]
  | 'n' => some [.plain '\n']
  | 'p' => some [.upperHalf]
  | 'q' => some [.number .quarter .bare]
  | 'r' =>
    some [.number .hourOfTwelve .zeros, .plain ':', .number .minute .zeros, .plain ':',
      .number .second .zeros, .plain ' ', .upperHalf]
  | 's' => some [.number .timestamp .bare]
  | 't' => some [.plain '\t']
  | 'u' => some [.number .weekday .bare]
  | 'v' =>
    some [.number .day .spaces, .plain '-', .shortMonth, .plain '-', .number .year .zeros]
  | 'w' => some [.number .sinceSunday .bare]
  | 'x' => some shortDate
  | 'y' => some [.number .yearOfCentury .zeros]
  | 'z' => some [.offset 2 false]
  | '+' => some [.stamp]
  | '%' => some [.plain '%']
  | _ => none

/-- The specifiers of several letters. -/
def longSpecifiers : List (String × PatternItem) :=
  [(":::z", .offset 1 true), ("::z", .offset 3 true), (":z", .offset 2 true),
    (".3f", .digits 3 true), (".6f", .digits 6 true), (".9f", .digits 9 true), (".f", .fraction),
    ("3f", .digits 3 false), ("6f", .digits 6 false), ("9f", .digits 9 false),
    ("#z", .unwritable)]

/-- The items of a specifier after its percent sign and what follows it. -/
def specifierItems? (cs : List Char) : Option (List PatternItem × List Char) :=
  match longSpecifiers.findSome? fun (written, item) =>
      (Text.after? written.toList cs).map fun rest => ([item], rest) with
  | some found => some found
  | none =>
    match cs with
    | [] => none
    | c :: rest => (letterItems? c).map fun items => (items, rest)

/-- The padding that a mark stands for. -/
def paddingOf? (c : Char) : Option Padding :=
  if c = '-' then some .bare
  else if c = '0' then some .zeros
  else if c = '_' then some .spaces
  else none

/-- A single number with another padding. -/
def repadded? (padding : Padding) : List PatternItem → Option (List PatternItem)
  | [.number quantity _] => some [.number quantity padding]
  | _ => none

/-- A specifier with an optional padding mark. -/
def paddedItems? (cs : List Char) : Option (List PatternItem × List Char) :=
  match cs with
  | [] => none
  | c :: rest =>
    match paddingOf? c with
    | some padding => do
      let (items, rest) ← specifierItems? rest
      return (← repadded? padding items, rest)
    | none => specifierItems? cs

/-- The items of a pattern, at most as many as there is fuel. -/
def patternItems? : Nat → List Char → Option (List PatternItem)
  | 0, _ => some []
  | _ + 1, [] => some []
  | fuel + 1, '%' :: cs => do
    let (items, rest) ← paddedItems? cs
    return items ++ (← patternItems? fuel rest)
  | fuel + 1, c :: cs => do return .plain c :: (← patternItems? fuel cs)

/-- The items of a pattern, unless it has an unknown specifier. -/
def parsePattern? (pattern : String) : Option (List PatternItem) :=
  patternItems? (pattern.length + 1) pattern.toList

/-- The names of the months. -/
def monthNames : List String :=
  ["January", "February", "March", "April", "May", "June", "July", "August", "September",
    "October", "November", "December"]

/-- The names of the days of the week. -/
def weekdayNames : List String :=
  ["Monday", "Tuesday", "Wednesday", "Thursday", "Friday", "Saturday", "Sunday"]

/-- The first three letters of a name. -/
def shortName (name : String) : String := String.ofList (name.toList.take 3)

/-- A number filled up to a width; the sign comes first. -/
def padded (padding : Padding) (width : Nat) (showSign : Bool) (n : Int) : String :=
  let digits := String.ofList (Decimal.naturalText n.natAbs)
  let sign := if n < 0 then "-" else if showSign then "+" else ""
  let width := if showSign then width + 1 else width
  match padding with
  | .bare => sign ++ digits
  | .zeros => sign ++ Text.padLeft '0' (width - sign.length) digits
  | .spaces => Text.padLeft ' ' width (sign ++ digits)

/-- A year; outside of four digits its sign is shown. -/
def yearText (padding : Padding) (year : Int) : String :=
  padded padding 4 (year < 0 || year > 9999) year

/-- A number of a moment. -/
def Quantity.text (quantity : Quantity) (padding : Padding) (m : Moment) : String :=
  match quantity with
  | .year => yearText padding m.date.year
  | .century => padded padding 2 false (m.date.year.fdiv 100)
  | .yearOfCentury => padded padding 2 false (m.date.year.fmod 100)
  | .weekYear => yearText padding m.weekYear
  | .weekYearOfCentury => padded padding 2 false (m.weekYear.fmod 100)
  | .quarter => padded padding 1 false m.quarter
  | .month => padded padding 2 false m.date.month
  | .day => padded padding 2 false m.date.day
  | .sundays => padded padding 2 false m.sundays
  | .mondays => padded padding 2 false m.mondays
  | .week => padded padding 2 false m.week
  | .sinceSunday => padded padding 1 false m.sinceSunday
  | .weekday => padded padding 1 false (m.sinceMonday + 1)
  | .ordinal => padded padding 3 false m.ordinal
  | .hour => padded padding 2 false m.hour
  | .hourOfTwelve => padded padding 2 false m.hourOfTwelve
  | .minute => padded padding 2 false m.minute
  | .second => padded padding 2 false m.second
  | .nanos => padded padding 9 false m.nanos
  | .timestamp => padded padding 9 false m.timestamp

/-- The first digits of the fraction of the second. -/
def fractionDigits (count nanos : Nat) : String :=
  padded .zeros count false (nanos / Nat.pow 10 (9 - count) : Nat)

/-- The fraction of the second after a point, in groups of three digits. -/
def fractionText (nanos : Nat) : String :=
  if nanos = 0 then ""
  else if nanos % 1000000 = 0 then "." ++ fractionDigits 3 nanos
  else if nanos % 1000 = 0 then "." ++ fractionDigits 6 nanos
  else "." ++ fractionDigits 9 nanos

/-- The offset of the time zone, which is zero. -/
def offsetText (parts : Nat) (colons : Bool) : String :=
  "+" ++ Text.joined (if colons then ":" else "") (List.replicate parts "00")

/-- The text of an item, unless it cannot be written. -/
def PatternItem.text (item : PatternItem) (m : Moment) : Outcome String :=
  match item with
  | .plain c => .done (String.singleton c)
  | .number quantity padding => .done (quantity.text padding m)
  | .shortMonth => .done (shortName (monthNames.getD (m.date.month - 1) ""))
  | .longMonth => .done (monthNames.getD (m.date.month - 1) "")
  | .shortWeekday => .done (shortName (weekdayNames.getD m.sinceMonday ""))
  | .longWeekday => .done (weekdayNames.getD m.sinceMonday "")
  | .lowerHalf => .done (if m.isAfternoon then "pm" else "am")
  | .upperHalf => .done (if m.isAfternoon then "PM" else "AM")
  | .fraction => .done (fractionText m.nanos)
  | .digits count point => .done ((if point then "." else "") ++ fractionDigits count m.nanos)
  | .offset parts colons => .done (offsetText parts colons)
  | .stamp =>
    .done (yearText .zeros m.date.year ++ "-" ++ Quantity.month.text .zeros m ++ "-" ++
      Quantity.day.text .zeros m ++ "T" ++ Quantity.hour.text .zeros m ++ ":" ++
      Quantity.minute.text .zeros m ++ ":" ++ Quantity.second.text .zeros m ++
      fractionText m.nanos ++ offsetText 2 true)
  | .unwritable => .crash

/-- The text of a moment by a pattern. -/
def render (m : Moment) : List PatternItem → Outcome String
  | [] => .done ""
  | item :: rest => do return (← item.text m) ++ (← render m rest)

end ProcessDisplay.Time
