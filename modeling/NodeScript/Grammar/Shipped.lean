import NodeScript.Grammar.RuleTable

/-!
# The shipped grammars

The grammar of node scripts, and an extension by which the value of a knob can be a nest of braces
that is kept as it is written.
-/

namespace NodeScript.RuleTable

/-- The lines of the grammar of node scripts. A stack command after a node belongs to that node. -/
def scriptLines : List String := [
  "main ::= statement+",
  "statement ::= node|tcl_command",
  "node ::= WORD \"\x7b\" knobs \"\x7d\" tcl_command",
  "node ::= WORD \"\x7b\" knobs \"\x7d\"",
  "node ::= WORD \"\x7b\" \"\x7d\" tcl_command",
  "node ::= WORD \"\x7b\" \"\x7d\"",
  "knobs ::= knob+",
  "knob ::= WORD knob_value",
  "knob_value ::= animated_value",
  "knob_value ::= multi_value",
  "knob_value ::= scalar",
  "scalar ::= FLOAT|INT|STRING|WORD",
  "number ::= FLOAT|INT",
  "multi_value ::= \"\x7b\" scalar+ \"\x7d\"",
  "multi_value ::= \"(\" scalar+ \")\"",
  "animated_value ::= \"\x7b\" curve \"\x7d\"",
  "animated_value ::= curve",
  "curve ::= \"\x7b\" \"curve\" keyframe+ \"\x7d\"",
  "keyframe ::= FRAME number",
  "tcl_command ::= \"set\" WORD \"[\" \"stack\" INT \"]\"",
  "tcl_command ::= \"push\" \"$\" WORD",
  "tcl_command ::= \"push\" INT",
  "tcl_command ::= \"version\" FLOAT WORD",
  "tcl_command ::= \"version\" FLOAT"]

def scriptText : String :=
  Text.unlines scriptLines

/-- The lines of the extension by nested blocks, to be laid over the grammar of node scripts. -/
def rotoLines : List String := [
  "knob_value ::= animated_value",
  "knob_value ::= multi_value",
  "knob_value ::= block",
  "knob_value ::= scalar",
  "block ::= \"\x7b\" block_item+ \"\x7d\"",
  "block ::= \"\x7b\" \"\x7d\"",
  "block_item ::= block|scalar"]

def rotoText : String :=
  Text.unlines rotoLines

/-- The rule that a script is matched against unless another is given. -/
def rootRule : String := "main"

end NodeScript.RuleTable
