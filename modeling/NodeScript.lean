import NodeScript.Main
import NodeScript.Files.Memory
import NodeScript.Proofs.Results
import NodeScript.Proofs.Grammar.Outcomes
import NodeScript.Proofs.Grammar.Drafts
import NodeScript.Proofs.Grammar.Compilation
import NodeScript.Proofs.Grammar.DirectReading
import NodeScript.Proofs.Grammar.Remaining
import NodeScript.Proofs.Pattern.Ends
import NodeScript.Proofs.Script.Rules
import NodeScript.Proofs.Token.Table
import NodeScript.Proofs.Script.Syntax
import NodeScript.Proofs.Script.Reading
import NodeScript.Proofs.Script.Values
import NodeScript.Proofs.Script.Statements
import NodeScript.Proofs.Script.Parsing
import NodeScript.Proofs.Pattern.Sequences
import NodeScript.Proofs.Token.Rows
import NodeScript.Proofs.Token.Lexing
import NodeScript.Proofs.Token.Scanning
import NodeScript.Proofs.Token.Words
import NodeScript.Proofs.Token.Literals
import NodeScript.Proofs.Token.Spelling
import NodeScript.Proofs.Decimal.Exactness
import NodeScript.Proofs.Text.Characters
import NodeScript.Proofs.Decimal.Numeral
import NodeScript.Proofs.Decimal.Integers
import NodeScript.Proofs.Script.Scalars
import NodeScript.Proofs.Script.Writing
import NodeScript.Proofs.Script.Rereading
import NodeScript.Proofs.Script.RoundTrip
import NodeScript.Proofs.Script.Accepted
import NodeScript.Proofs.Script.Rewriting
import NodeScript.Proofs.Grammar.Successes
import NodeScript.Proofs.Grammar.Derivations
import NodeScript.Proofs.Grammar.Consumption
import NodeScript.Proofs.Grammar.Widening
import NodeScript.Proofs.Script.Nesting
import NodeScript.Proofs.Tree.Unplaced
import NodeScript.Proofs.Grammar.Relocation
import NodeScript.Proofs.Pattern.Following
import NodeScript.Proofs.Token.Joining
import NodeScript.Proofs.Script.Joining
import NodeScript.Proofs.Grammar.Layers
import NodeScript.Proofs.Grammar.Machine
import NodeScript.Proofs.Grammar.Termination
import NodeScript.Proofs.Grammar.Histories
import NodeScript.Proofs.Pattern.Bounds
import NodeScript.Proofs.Pattern.Readers
import NodeScript.Proofs.Pattern.Enclosing
import NodeScript.Proofs.Token.Chain
import NodeScript.Proofs.Pattern.Cutting
import NodeScript.Proofs.Token.Names
import NodeScript.Proofs.Script.NestingLimit
import NodeScript.Proofs.Grammar.Heights
import NodeScript.Proofs.Grammar.Nonrecursive
import NodeScript.Proofs.Grammar.Calls
import NodeScript.Proofs.Token.Numbers
import NodeScript.Proofs.Script.Refusals
import NodeScript.Proofs.Pattern.Within
import NodeScript.Proofs.Token.Gaps
import NodeScript.Proofs.Script.Layouts
import NodeScript.Proofs.Grammar.Numbering
import NodeScript.Proofs.Script.ParseErrors
import NodeScript.Proofs.Grammar.Recursion
import NodeScript.Proofs.Grammar.Failures
import NodeScript.Proofs.Grammar.WellFormed
import NodeScript.Proofs.Text.Lines
import NodeScript.Proofs.Grammar.Operators
import NodeScript.Proofs.Grammar.Notation
import NodeScript.Proofs.Grammar.Texts
import NodeScript.Proofs.Tree.Folding
import NodeScript.Proofs.Grammar.Pieces
import NodeScript.Proofs.Script.Blocks
import NodeScript.Proofs.Token.Standing
import NodeScript.Proofs.Script.NestedBlocks
import NodeScript.Proofs.Script.KnobReadings
import NodeScript.Proofs.Script.BlockRewriting
import NodeScript.Proofs.Node.Channels
import NodeScript.Proofs.OrderedTable
import NodeScript.Proofs.Grammar.Layering
import NodeScript.Proofs.Grammar.Spared
import NodeScript.Proofs.Grammar.Items
import NodeScript.Proofs.Grammar.Outlining
import NodeScript.Proofs.Decimal.Rounding
import NodeScript.Proofs.Node.Frames
import NodeScript.Proofs.Node.Knobs
import NodeScript.Proofs.Grammar.FlatTrees
import NodeScript.Proofs.Script.WrittenTexts
import NodeScript.Proofs.Json.Leaves
import NodeScript.Proofs.Json.Reading
import NodeScript.Proofs.Json.Nodes
