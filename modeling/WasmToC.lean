import WasmToC.Main
import WasmToC.Proofs.Preservation
import WasmToC.Proofs.Trapping
import WasmToC.Proofs.Truncation
import WasmToC.Proofs.Memories
import WasmToC.Proofs.Skipped
import WasmToC.Proofs.Scoping
import WasmToC.Proofs.Closed
import WasmToC.Proofs.OperandOrder
import WasmToC.Proofs.Reachability
import WasmToC.Proofs.Faithful
import WasmToC.Proofs.VarintFormat
import WasmToC.Proofs.IntegerLowering
import WasmToC.Proofs.Expressions
import WasmToC.Proofs.Raising
import WasmToC.Proofs.LinearMemory
import WasmToC.Proofs.Constants
import WasmToC.Proofs.Footprints
import WasmToC.Proofs.Tables
