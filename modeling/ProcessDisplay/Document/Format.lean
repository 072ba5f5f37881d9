import ProcessDisplay.Failure

/-!
# Formats of documents

A file whose name ends in `.json`, in any letter case, holds JSON. Every
other file holds TOML.
-/

namespace ProcessDisplay.Document

/-- A format of documents. -/
inductive Format where
  /-- JSON. -/
  | json
  /-- TOML. -/
  | toml
  deriving DecidableEq, Repr

/-- A path from its end on, behind the slashes and the single points that name nothing. -/
def beforeEnd : List Char → List Char
  | '/' :: rest => beforeEnd rest
  | '.' :: '/' :: rest => beforeEnd rest
  | cs => cs

/-- The last part of a path that names something. -/
def fileName (path : String) : List Char :=
  ((beforeEnd path.toList.reverse).takeWhile (· ≠ '/')).reverse

/-- The part of a file name after its last point; a point at the front does not count. -/
def suffix (name : List Char) : List Char :=
  let reversed := name.reverse
  let rest := (reversed.dropWhile (· ≠ '.')).drop 1
  if rest.isEmpty then [] else (reversed.takeWhile (· ≠ '.')).reverse

/-- The format of a file. -/
def Format.ofPath (path : String) : Format :=
  if (suffix (fileName path)).map Char.toLower = "json".toList then .json else .toml

end ProcessDisplay.Document
