import RefHart.Main
import RefHart.Tool.Directory
import RefHart.Proofs.Word
import RefHart.Proofs.Packing
import RefHart.Proofs.Decoding
import RefHart.Proofs.Operands
import RefHart.Proofs.RoundTrip
import RefHart.Proofs.Memory
import RefHart.Proofs.Running
import RefHart.Proofs.InPlace
import RefHart.Proofs.Halting
import RefHart.Proofs.Layout
import RefHart.Proofs.Assembled
import RefHart.Proofs.Effects
import RefHart.Proofs.Refinement
import RefHart.Proofs.Numeral
import RefHart.Proofs.Text
import RefHart.Proofs.Repacking
import RefHart.Proofs.Canonical
import RefHart.Proofs.OperandTexts
import RefHart.Proofs.Listing
import RefHart.Proofs.Disassembly
import RefHart.Proofs.Literals
import RefHart.Proofs.CycleBound
import RefHart.Proofs.Operations
import RefHart.Proofs.Switches
import RefHart.Proofs.ZeroWords
import RefHart.Proofs.Images
import RefHart.Proofs.Rows
import RefHart.Proofs.LineByLine
import RefHart.Proofs.References
import RefHart.Proofs.Concatenation
import RefHart.Proofs.Grammar
import RefHart.Proofs.Alike
import RefHart.Proofs.Edits
import RefHart.Proofs.FileStore
import RefHart.Proofs.Directory
import RefHart.Proofs.Dumps
import RefHart.Proofs.Pipeline
import RefHart.Proofs.Arithmetic
import RefHart.Proofs.Branches
import RefHart.Proofs.BitFields
import RefHart.Proofs.Isolation
import RefHart.Proofs.IntegerOperations
import RefHart.Proofs.Faults
import RefHart.Proofs.StoreLoad
import RefHart.Proofs.Footprint
import RefHart.Proofs.Calls
import RefHart.Proofs.EncodingTable
import RefHart.Proofs.Accesses
import RefHart.Proofs.Denotation
import RefHart.Proofs.NumberTokens
import RefHart.Proofs.RegisterTokens
import RefHart.Proofs.ImageLines
import RefHart.Proofs.SignExtension
import RefHart.Proofs.LoadedWords
import RefHart.Proofs.DumpLines
import RefHart.Proofs.Logging
