import ProcessDisplay.Document.Json
import ProcessDisplay.Document.Settings
import ProcessDisplay.Document.Toml.Reader
import ProcessDisplay.Document.Toml.Writer

/-!
# The standard formats

The readers of JSON and TOML, and the writer of TOML, with which documents
are read and written.
-/

namespace ProcessDisplay.Document

/-- The node that a text spells in a format, if there is one. -/
def Format.read (format : Format) (text : String) : Option Node :=
  match format with
  | .json => Json.read text
  | .toml => Toml.read text

/-- The standard formats. -/
def Codecs.standard : Codecs where
  read format text :=
    match format.read text with
    | some node => .ok node
    | none => .error "malformed document"
  write := writtenSettings

end ProcessDisplay.Document
