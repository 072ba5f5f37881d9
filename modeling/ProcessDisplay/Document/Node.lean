/-!
# Nodes of documents

A document in either format is read into a tree of nodes before its content
is looked at. Some things can be written without having a value, such as a
number beyond the range of numbers; they are harmless where nobody reads
them.
-/

namespace ProcessDisplay.Document

/-- A node of a document. -/
inductive Node where
  /-- No value. -/
  | null
  /-- A truth value. -/
  | bool (b : Bool)
  /-- A whole number. -/
  | integer (n : Int)
  /-- A number with a fraction or out of the range of whole numbers. -/
  | number (x : Float)
  /-- A text. -/
  | text (s : String)
  /-- Something well written that has no value. -/
  | unreadable
  /-- A list. -/
  | list (items : List Node)
  /-- A table; a key may occur more than once. -/
  | table (entries : List (String × Node))
  deriving Inhabited

end ProcessDisplay.Document
