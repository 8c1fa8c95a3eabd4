/-! The tokens of a YAML stream. -/

namespace FieldPatch.Yaml

inductive Collection where
  | sequence
  | mapping
  deriving DecidableEq

inductive Token where
  | streamEnd
  | version (major minor : Nat)
  /-- Declares what a tag handle stands for. -/
  | handle (name uri : String)
  | documentStart
  | documentEnd
  | openBlock (kind : Collection)
  | closeBlock
  | openFlow (kind : Collection)
  | closeFlow (kind : Collection)
  /-- `-` -/
  | item
  | comma
  | key
  | value
  | alias (name : String)
  | anchor (name : String)
  /-- A tag as it is written; a verbatim one has an empty handle. -/
  | tag (handle rest : String)
  | scalar (plain : Bool) (text : String)
  deriving DecidableEq

end FieldPatch.Yaml
