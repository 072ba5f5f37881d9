import ProcessDisplay.Document.Node

/-!
# Tables under construction in TOML

The lines of a document fill a tree of tables. A table is defined by a
header or by the points of keys, and only once; a table that merely leads to
another one may still be defined. A list of tables grows by headers, and a
path through it goes to its last table.
-/

namespace ProcessDisplay.Document.Toml

/-- Something under a key. -/
inductive Item where
  /-- A value, which nothing is added to. -/
  | value (node : Node)
  /-- A table: whether it is not defined yet, whether points of keys made
  it, and its entries. -/
  | table (isImplicit isDotted : Bool) (entries : List (String × Item))
  /-- The tables of a list. -/
  | tables (all : List (List (String × Item)))
  deriving Inhabited

/-- The entries of a table under construction. -/
abbrev Entries := List (String × Item)

/-- Entries with another item under a key. -/
def Entries.replace (es : Entries) (key : String) (item : Item) : Entries :=
  es.map fun entry => if entry.1 = key then (key, item) else entry

/-- A change of the last element of a list. -/
def changeLast (change : α → Option α) : List α → Option (List α)
  | [] => none
  | [last] => (change last).map fun last => [last]
  | first :: rest => (changeLast change rest).map (first :: ·)

/-- Entries after a change at the end of a path. The change is told whether
points of keys made the table there. Missing tables on the path are made; by
the points of keys, no table that is defined is entered. -/
def Entries.change (byPoints : Bool) (change : Bool → Entries → Option Entries) :
    List String → Bool → Entries → Option Entries
  | [], isDotted, es => change isDotted es
  | key :: path, _, es =>
    match es.lookup key with
    | none =>
      (Entries.change byPoints change path byPoints []).map fun inner =>
        es ++ [(key, .table true byPoints inner)]
    | some (.value _) => none
    | some (.tables all) =>
      (changeLast (Entries.change byPoints change path false) all).map fun all =>
        Entries.replace es key (.tables all)
    | some (.table isImplicit isDotted inner) =>
      if byPoints && !isImplicit then none
      else
        (Entries.change byPoints change path isDotted inner).map fun inner =>
          Entries.replace es key (.table isImplicit isDotted inner)

/-- The parts of a path: all keys but the last one, and the last one. -/
def splitPath (path : List String) : List String × String := (path.dropLast, path.getLastD "")

/-- Entries with a value at the end of a path of points. -/
def Entries.insert (es : Entries) (path : List String) (node : Node) : Option Entries :=
  let (parents, key) := splitPath path
  let put (isDotted : Bool) (inner : Entries) : Option Entries :=
    if isDotted = parents.isEmpty then none
    else
      match inner.lookup key with
      | some _ => none
      | none => some (inner ++ [(key, .value node)])
  Entries.change true put parents false es

/-- Entries after the header of a table. -/
def Entries.defineTable (es : Entries) (path : List String) : Option Entries :=
  let (parents, key) := splitPath path
  let put (_ : Bool) (inner : Entries) : Option Entries :=
    match inner.lookup key with
    | none => some (inner ++ [(key, .table false false [])])
    | some (.table true false entries) =>
      some (Entries.replace inner key (.table false false entries))
    | some _ => none
  Entries.change false put parents false es

/-- Entries after the header of a further table of a list. -/
def Entries.appendTable (es : Entries) (path : List String) : Option Entries :=
  let (parents, key) := splitPath path
  let put (_ : Bool) (inner : Entries) : Option Entries :=
    match inner.lookup key with
    | none => some (inner ++ [(key, .tables [[]])])
    | some (.tables all) => some (Entries.replace inner key (.tables (all ++ [[]])))
    | some _ => none
  Entries.change false put parents false es

/-- Entries with a value at a path of points within the table of a header. -/
def Entries.insertUnder (es : Entries) (header path : List String) (node : Node) :
    Option Entries :=
  Entries.change false (fun _ inner => inner.insert path node) header false es

mutual

/-- The node of an item. -/
def Item.node : Item → Node
  | .value node => node
  | .table _ _ entries => .table (entryNodes entries)
  | .tables all => .list (tableNodes all)

/-- The nodes of entries. -/
def entryNodes : List (String × Item) → List (String × Node)
  | [] => []
  | (key, item) :: rest => (key, item.node) :: entryNodes rest

/-- The nodes of the tables of a list. -/
def tableNodes : List (List (String × Item)) → List Node
  | [] => []
  | entries :: rest => .table (entryNodes entries) :: tableNodes rest

end

end ProcessDisplay.Document.Toml
