import NodeScript.Yaml.Scalar

/-!
# Tokens of YAML texts

The marks and scalars of a text. Blocks have no brackets of their own; tokens for their start and
end are put in where the layout of the lines says so.
-/

namespace NodeScript.Yaml

inductive Token where
  | documentStart
  | documentEnd
  | blockSequenceStart
  | blockMappingStart
  | blockEnd
  | flowSequenceStart
  | flowSequenceEnd
  | flowMappingStart
  | flowMappingEnd
  | flowEntry
  | blockEntry
  /-- What stands before a key, also where the text has no question mark. -/
  | key
  | value
  | plain (text : List Char)
  | quoted (text : List Char)
deriving DecidableEq

end NodeScript.Yaml
