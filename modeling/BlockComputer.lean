import BlockComputer.CommandLine.FileTree
import BlockComputer.Main
import BlockComputer.Proofs.Assembly.Acceptance
import BlockComputer.Proofs.Assembly.Encoding
import BlockComputer.Proofs.Assembly.Grammar
import BlockComputer.Proofs.Assembly.Lens
import BlockComputer.Proofs.Assembly.Line
import BlockComputer.Proofs.Assembly.Source
import BlockComputer.Proofs.Assembly.Uniqueness
import BlockComputer.Proofs.CommandLine.Arguments
import BlockComputer.Proofs.CommandLine.Assembler
import BlockComputer.Proofs.CommandLine.FileTree
import BlockComputer.Proofs.CommandLine.Generator
import BlockComputer.Proofs.CommandLine.Outcome
import BlockComputer.Proofs.CommandLine.Settings
import BlockComputer.Proofs.Control.Comparison
import BlockComputer.Proofs.Control.Structured
import BlockComputer.Proofs.Emission.Arithmetic
import BlockComputer.Proofs.Emission.Basic
import BlockComputer.Proofs.Emission.Bits
import BlockComputer.Proofs.Emission.Client
import BlockComputer.Proofs.Emission.Constants
import BlockComputer.Proofs.Emission.Copies
import BlockComputer.Proofs.Emission.Ensures
import BlockComputer.Proofs.Emission.Failing
import BlockComputer.Proofs.Emission.Growth
import BlockComputer.Proofs.Emission.Holders
import BlockComputer.Proofs.Emission.Leftovers
import BlockComputer.Proofs.Emission.Log
import BlockComputer.Proofs.Emission.Naming
import BlockComputer.Proofs.Emission.Operands
import BlockComputer.Proofs.Emission.Priming
import BlockComputer.Proofs.Emission.Relocation
import BlockComputer.Proofs.Emission.Scopes
import BlockComputer.Proofs.Emission.Signed
import BlockComputer.Proofs.Emission.Widths
import BlockComputer.Proofs.Emission.Wording
import BlockComputer.Proofs.Listing.Placement
import BlockComputer.Proofs.Listing.Range
import BlockComputer.Proofs.Listing.Reading
import BlockComputer.Proofs.Listing.Rows
import BlockComputer.Proofs.Machine.Access
import BlockComputer.Proofs.Machine.Agreement
import BlockComputer.Proofs.Machine.Arithmetic
import BlockComputer.Proofs.Machine.Booting
import BlockComputer.Proofs.Machine.Control
import BlockComputer.Proofs.Machine.Cycle
import BlockComputer.Proofs.Machine.Decoding
import BlockComputer.Proofs.Machine.Dispatch
import BlockComputer.Proofs.Machine.Flow
import BlockComputer.Proofs.Machine.Ground
import BlockComputer.Proofs.Machine.Groups
import BlockComputer.Proofs.Machine.Independence
import BlockComputer.Proofs.Machine.Instruction
import BlockComputer.Proofs.Machine.Layout
import BlockComputer.Proofs.Machine.Making
import BlockComputer.Proofs.Machine.Names
import BlockComputer.Proofs.Machine.Numbers
import BlockComputer.Proofs.Machine.Offset
import BlockComputer.Proofs.Machine.Parts
import BlockComputer.Proofs.Machine.Reading
import BlockComputer.Proofs.Machine.Reservation
import BlockComputer.Proofs.Machine.Resetting
import BlockComputer.Proofs.Machine.Row
import BlockComputer.Proofs.Machine.Soundness
import BlockComputer.Proofs.Machine.Stage
import BlockComputer.Proofs.Machine.Starting
import BlockComputer.Proofs.Machine.Steadiness
import BlockComputer.Proofs.Machine.Table
import BlockComputer.Proofs.Machine.Texts
import BlockComputer.Proofs.Machine.Transfer
import BlockComputer.Proofs.Memory.Array
import BlockComputer.Proofs.Memory.Codec
import BlockComputer.Proofs.Memory.Head
import BlockComputer.Proofs.Memory.Image
import BlockComputer.Proofs.Memory.Stack
import BlockComputer.Proofs.Memory.Word
import BlockComputer.Proofs.Relocation.Anchor
import BlockComputer.Proofs.Relocation.Copying
import BlockComputer.Proofs.Relocation.InPlace
import BlockComputer.Proofs.Relocation.Transparency
import BlockComputer.Proofs.Relocation.Windows
import BlockComputer.Proofs.Text.Marks
import BlockComputer.Proofs.Text.Quoted
import BlockComputer.Proofs.World.Basic
import BlockComputer.Proofs.World.Execution
import BlockComputer.Proofs.World.Frame
import BlockComputer.Proofs.World.Operands
import BlockComputer.Proofs.World.Reading
import BlockComputer.Proofs.World.Running
import BlockComputer.Proofs.World.Slicing
import BlockComputer.Proofs.World.Texts
import BlockComputer.Proofs.World.Touching
