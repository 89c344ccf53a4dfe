import Justfile.Assembler
import Justfile.Document
import Justfile.Main
import Justfile.Parser.File
import Justfile.Selector
import Justfile.Token.Tiling
import Justfile.View.Item
import Justfile.Proofs.Scanner.Level
import Justfile.Proofs.Scanner.Scan
import Justfile.Proofs.Lookahead
import Justfile.Proofs.Tree.Body
import Justfile.Proofs.Tree.Coverage
import Justfile.Proofs.Tree.Flaw
import Justfile.Proofs.Tree.ReportedOnce
import Justfile.Proofs.Tree.Shape
import Justfile.Proofs.Tree.Terminated
import Justfile.Proofs.Tree.Tokens
import Justfile.Proofs.Tree.Unbounded
import Justfile.Proofs.Tree.Unclosed
import Justfile.Proofs.Assembler
import Justfile.Proofs.Parser.File
import Justfile.Proofs.Run.Neutral
import Justfile.Proofs.Run.Termination
import Justfile.Proofs.Append.Tree
import Justfile.Proofs.Blank.Tree
import Justfile.Proofs.Crlf.Tree
import Justfile.Proofs.Simulation.Limit
import Justfile.Proofs.Printed.Dialects
import Justfile.Proofs.Printed.Roundtrip
import Justfile.Proofs.Cursor.Cover
import Justfile.Proofs.Cursor.Naming
import Justfile.Proofs.Cursor.Offset
import Justfile.Proofs.Cursor.Relatives
import Justfile.Proofs.Cursor.Selection
import Justfile.Proofs.Cursor.Subsequent
import Justfile.Proofs.Document
import Justfile.Proofs.Position
import Justfile.Proofs.Position.Count
import Justfile.Proofs.Position.Line
import Justfile.Proofs.Sexp

/-!
# Justfiles: a lossless parser and its theory

The imports stand in groups, each after those that it builds on.

* The program: tokens, the parser with its builder of trees, cursors, selectors and views, documents
  that are edited, and the command line.
* Single tokens and looking ahead of them: `Proofs.Scanner`, `Proofs.Lookahead`.
* The tree of any text, well-formed or not: `Proofs.Tree`.
* Runs: the builder by itself and as the parser drives it, what an item leaves behind, and that each
  loop ends: `Proofs.Assembler`, `Proofs.Parser`, `Proofs.Run`.
* Two texts or two limits side by side: `Proofs.Append`, `Proofs.Blank`, `Proofs.Crlf`,
  `Proofs.Simulation`.
* What is printed reads back: `Proofs.Printed`.
* Looking at trees: `Proofs.Cursor`; editing texts: `Proofs.Document`, `Proofs.Position`; writing
  trees down: `Proofs.Sexp`.
-/
