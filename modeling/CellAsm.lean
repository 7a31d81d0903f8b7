import CellAsm.CommandLine.Directory
import CellAsm.Image
import CellAsm.Listing
import CellAsm.Machine.Reading
import CellAsm.Machine.Writing
import CellAsm.Main
import CellAsm.Session
import CellAsm.Proofs.Bits
import CellAsm.Proofs.Numeral
import CellAsm.Proofs.Outcome
import CellAsm.Proofs.Table
import CellAsm.Proofs.Validity
import CellAsm.Proofs.Reading
import CellAsm.Proofs.Statements
import CellAsm.Proofs.Constants
import CellAsm.Proofs.Layout
import CellAsm.Proofs.Passes
import CellAsm.Proofs.Stages
import CellAsm.Proofs.Placement
import CellAsm.Proofs.PlainSource
import CellAsm.Proofs.Encoding
import CellAsm.Proofs.Decoding
import CellAsm.Proofs.Rejection
import CellAsm.Proofs.Operands
import CellAsm.Proofs.Image
import CellAsm.Proofs.Scanning
import CellAsm.Proofs.Checked
import CellAsm.Proofs.Transparency
import CellAsm.Proofs.Json.Lexeme
import CellAsm.Proofs.Json.Value
import CellAsm.Proofs.Machine.Described
import CellAsm.Proofs.Punctuation
import CellAsm.Proofs.Machine.RoundTrip
import CellAsm.Proofs.Moments
import CellAsm.Proofs.Safety
import CellAsm.Proofs.Expansion
import CellAsm.Proofs.LineEnds
import CellAsm.Proofs.Positions.Lines
import CellAsm.Proofs.Positions.Reading
import CellAsm.Proofs.Positions.Passes
import CellAsm.Proofs.Inclusion
import CellAsm.Proofs.Relocation
import CellAsm.Proofs.Places
import CellAsm.Proofs.Coverage
import CellAsm.Proofs.Blame
import CellAsm.Proofs.Origin
import CellAsm.Proofs.Sessions
import CellAsm.Proofs.Chains
import CellAsm.Proofs.History
import CellAsm.Proofs.LabelFlow
import CellAsm.Proofs.ConstantOrder
import CellAsm.Proofs.Definitions
import CellAsm.Proofs.Filling
import CellAsm.Proofs.Loading
import CellAsm.Proofs.Renaming
import CellAsm.Proofs.Literals
import CellAsm.Proofs.Composition
import CellAsm.Proofs.Assignments
import CellAsm.Proofs.ReadBack
import CellAsm.Proofs.Listing
import CellAsm.Proofs.Integers
import CellAsm.Proofs.Separators
import CellAsm.Proofs.Slots
