import Disassembly.CommandLine.Folder
import Disassembly.Main
import Disassembly.Proofs.Exhaustion
import Disassembly.Proofs.Index.Discovery
import Disassembly.Proofs.Index.Passes
import Disassembly.Proofs.Index.Words
import Disassembly.Proofs.Levels.Numbering
import Disassembly.Proofs.Levels.Tree
import Disassembly.Proofs.Line.Columns
import Disassembly.Proofs.Line.PreviewGrammar
import Disassembly.Proofs.Line.Tokens
import Disassembly.Proofs.Literals
import Disassembly.Proofs.LoadMap
import Disassembly.Proofs.Ranges
import Disassembly.Proofs.Seeker.Effort
import Disassembly.Proofs.Text.Arguments
import Disassembly.Proofs.View.AllOrNothing
import Disassembly.Proofs.View.EntryPoint
import Disassembly.Proofs.View.Exporting
import Disassembly.Proofs.View.Faithfulness
import Disassembly.Proofs.View.Reenriching
