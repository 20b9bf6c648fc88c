import MapScript.Bytecode
import MapScript.CodeItem
import MapScript.Console.Command
import MapScript.Console.Commands
import MapScript.Console.Disk
import MapScript.Console.Host
import MapScript.Console.Path
import MapScript.Console.Run
import MapScript.Expr
import MapScript.Expr.Operator
import MapScript.Fragment
import MapScript.Instruction
import MapScript.Linking
import MapScript.Listing
import MapScript.Lowering.Expr
import MapScript.Lowering.Reference
import MapScript.Lowering.Stmt
import MapScript.Main
import MapScript.Manifest
import MapScript.Manifest.Outcome
import MapScript.Numeral
import MapScript.Offset
import MapScript.Opcode
import MapScript.Opcode.Entry
import MapScript.Opcode.Table
import MapScript.Program
import MapScript.Reader.Document
import MapScript.Reader.Folded
import MapScript.Reader.Manifest
import MapScript.Recovery
import MapScript.Script.Code
import MapScript.Script.OfCode
import MapScript.Script.Parse
import MapScript.Script.Render
import MapScript.Script.Reset
import MapScript.Stmt
import MapScript.Structured
import MapScript.Symbol.Entity
import MapScript.Symbol.Field
import MapScript.Symbol.Placeholder
import MapScript.Symbol.Register
import MapScript.Symbol.Savemap
import MapScript.Symbol.Slot
import MapScript.Text.Blank
import MapScript.Text.Printable
import MapScript.Text.Quoted
import MapScript.Token
import MapScript.Token.Comment
import MapScript.Token.Scan
import MapScript.ValueStack
import MapScript.Proofs.Numeral
import MapScript.Proofs.Opcode
import MapScript.Proofs.Reference
import MapScript.Proofs.Values
import MapScript.Proofs.Lowered
import MapScript.Proofs.Linked
import MapScript.Proofs.Placement
import MapScript.Proofs.Phrase
import MapScript.Proofs.Outline
import MapScript.Proofs.Layout
import MapScript.Proofs.Nesting
import MapScript.Proofs.Visits
import MapScript.Proofs.Division
import MapScript.Proofs.Rebuilt
import MapScript.Proofs.Relinked
import MapScript.Proofs.RoundTrip
import MapScript.Proofs.Acceptance
import MapScript.Proofs.Trace
import MapScript.Proofs.Closure
import MapScript.Proofs.VisitOrder
import MapScript.Proofs.Depth
import MapScript.Proofs.Execution
import MapScript.Proofs.Contents
import MapScript.Proofs.Normal
import MapScript.Proofs.Lexemes
import MapScript.Proofs.Naming
import MapScript.Proofs.Parsed
import MapScript.Proofs.Spelling
import MapScript.Proofs.Printed
import MapScript.Proofs.Rendered
import MapScript.Proofs.PrintParse
import MapScript.Proofs.RunOn
import MapScript.Proofs.Merging
import MapScript.Proofs.TextRoute
import MapScript.Proofs.Grammar
import MapScript.Proofs.Derivation
import MapScript.Proofs.ListingText
import MapScript.Proofs.Renaming
import MapScript.Proofs.Resolution
import MapScript.Proofs.Regions
import MapScript.Proofs.Turns
import MapScript.Proofs.Tally
import MapScript.Proofs.Straight
import MapScript.Proofs.Canonical
import MapScript.Proofs.Relocation
import MapScript.Proofs.Addressing
import MapScript.Proofs.Comment
import MapScript.Proofs.Header
import MapScript.Proofs.Batch
import MapScript.Proofs.Runs
import MapScript.Proofs.Conformity
import MapScript.Proofs.ValueCode
import MapScript.Proofs.Symbol
import MapScript.Proofs.Disk
import MapScript.Proofs.Delivery
