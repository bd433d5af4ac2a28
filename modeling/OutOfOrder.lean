import OutOfOrder.Instruction.Encoding
import OutOfOrder.Main
import OutOfOrder.Proofs.Conservation
import OutOfOrder.Proofs.Faults
import OutOfOrder.Proofs.Progress
import OutOfOrder.Proofs.Freezing
import OutOfOrder.Proofs.Handshake
import OutOfOrder.Proofs.Termination
import OutOfOrder.Proofs.InstructionSet
import OutOfOrder.Proofs.Drained
import OutOfOrder.Proofs.Guards
import OutOfOrder.Proofs.Conformance
import OutOfOrder.Proofs.Assembly
import OutOfOrder.Proofs.Accounting
import OutOfOrder.Proofs.Budget
import OutOfOrder.Proofs.FetchFault
import OutOfOrder.Proofs.Admission
import OutOfOrder.Proofs.Publication
import OutOfOrder.Proofs.Dispatching
import OutOfOrder.Proofs.Counters
import OutOfOrder.Proofs.Fifo
import OutOfOrder.Proofs.ByteMap
import OutOfOrder.Proofs.Arbitration
import OutOfOrder.Proofs.Printing
import OutOfOrder.Proofs.DelayLine
import OutOfOrder.Proofs.PoolLaws
import OutOfOrder.Proofs.Settings
