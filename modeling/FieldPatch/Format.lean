/-! The formats of documents and how they are spelled. -/

namespace FieldPatch

inductive Format where
  | yaml
  | toml
  | json
  deriving DecidableEq

namespace Format

def name : Format → String
  | .yaml => "yaml"
  | .toml => "toml"
  | .json => "json"

/-- What a format may be called, as an extension of a file or by itself. -/
def spellings : List (String × Format) :=
  [("yaml", .yaml), ("yml", .yaml), ("toml", .toml), ("json", .json)]

/-- Text with the ASCII letters in lower case. -/
def lowerAscii (text : String) : String := text.map Char.toLower

/-- The format with a spelling, in whatever case. -/
def ofSpelling? (text : String) : Option Format := spellings.lookup (lowerAscii text)

end Format

end FieldPatch
