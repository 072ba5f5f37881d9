import ProcessDisplay.Document.Toml.Number
import ProcessDisplay.Document.Toml.Table
import ProcessDisplay.Document.Toml.Text

/-!
# Documents in TOML

A document is a row of lines: keys with values, headers of tables and blank
lines. A list may run over several lines, a table in braces may not.
-/

namespace ProcessDisplay.Document.Toml

/-- What follows a character at the front. -/
def after? (c : Char) : List Char → Option (List Char)
  | [] => none
  | d :: rest => if c = d then some rest else none

mutual

/-- The value at the front and what follows it. -/
def value? : Nat → List Char → Option (Node × List Char)
  | 0, _ => none
  | fuel + 1, cs =>
    match cs with
    | '[' :: rest => items? fuel rest
    | '\x7b' :: rest =>
      match skipSpace rest with
      | '\x7d' :: rest => some (.table [], rest)
      | _ => pairs? fuel [] rest
    | c :: rest =>
      if c = '"' || c = '\'' then (text? (c :: rest)).map fun (s, rest) => (.text s, rest)
      else wordAt? cs
    | [] => none

/-- The items of a list up to its end; a comma may follow the last one. -/
def items? : Nat → List Char → Option (Node × List Char)
  | 0, _ => none
  | fuel + 1, cs =>
    match skipLines (cs.length + 1) cs with
    | ']' :: rest => some (.list [], rest)
    | start => do
      let (item, rest) ← value? fuel start
      match skipLines (rest.length + 1) rest with
      | ']' :: rest => some (.list [item], rest)
      | ',' :: rest =>
        match ← items? fuel rest with
        | (.list items, rest) => some (.list (item :: items), rest)
        | _ => none
      | _ => none

/-- The pairs of a table in braces up to its end. -/
def pairs? : Nat → Entries → List Char → Option (Node × List Char)
  | 0, _, _ => none
  | fuel + 1, es, cs => do
    let (path, rest) ← path? (cs.length + 1) cs
    let rest ← after? '=' rest
    let (node, rest) ← value? fuel (skipSpace rest)
    let es ← es.insert path node
    match skipSpace rest with
    | ',' :: rest => pairs? fuel es rest
    | '\x7d' :: rest => some (.table (entryNodes es), rest)
    | _ => none

end

/-- A document while it is read. -/
structure Draft where
  /-- All entries so far. -/
  entries : Entries := []
  /-- The path of the last header. -/
  header : List String := []

/-- The document after a header and what follows the line. -/
def headerLine? (d : Draft) (cs : List Char) : Option (Draft × List Char) := do
  match cs with
  | '[' :: rest =>
    let (path, rest) ← path? (rest.length + 1) rest
    let rest ← after? ']' (← after? ']' rest)
    return (⟨← d.entries.appendTable path, path⟩, ← afterLine? rest)
  | _ =>
    let (path, rest) ← path? (cs.length + 1) cs
    let rest ← after? ']' rest
    return (⟨← d.entries.defineTable path, path⟩, ← afterLine? rest)

/-- The document after a key with its value and what follows the line. -/
def pairLine? (d : Draft) (cs : List Char) : Option (Draft × List Char) := do
  let (path, rest) ← path? (cs.length + 1) cs
  let rest ← after? '=' rest
  let (node, rest) ← value? (2 * rest.length + 2) (skipSpace rest)
  return ({ d with entries := ← d.entries.insertUnder d.header path node }, ← afterLine? rest)

/-- The document after its remaining lines. -/
def lines? : Nat → Draft → List Char → Option Draft
  | 0, _, _ => none
  | fuel + 1, d, cs =>
    match skipLines (cs.length + 1) cs with
    | [] => some d
    | '[' :: rest => do
      let (d, rest) ← headerLine? d rest
      lines? fuel d rest
    | start => do
      let (d, rest) ← pairLine? d start
      lines? fuel d rest

/-- The mark of the order of bytes, which may begin a document. -/
def byteOrderMark : Char := '\ufeff'

/-- The node that a text spells. Every line takes a character, which bounds
their number. -/
def read (text : String) : Option Node :=
  let cs := match text.toList with
    | c :: rest => if c = byteOrderMark then rest else c :: rest
    | [] => []
  (lines? (cs.length + 1) {} cs).map fun d => .table (entryNodes d.entries)

end ProcessDisplay.Document.Toml
