import Intcode.Rack
import Intcode.Command.Run
import Intcode.Command.Assemble
import Intcode.Main
import Intcode.Proofs.Network
import Intcode.Proofs.Lifecycle
import Intcode.Proofs.Assembly.Meaning
import Intcode.Proofs.Demand
import Intcode.Proofs.StepLimit
import Intcode.Proofs.InstructionTable
import Intcode.Proofs.Assembly.Rejection
import Intcode.Proofs.Assembly.Output
import Intcode.Proofs.Assembly.Concatenation
import Intcode.Proofs.Program.Canonical
import Intcode.Proofs.Conservation
import Intcode.Proofs.Lockstep
import Intcode.Proofs.Extension
import Intcode.Proofs.Leniency
import Intcode.Proofs.Tracing
import Intcode.Proofs.Assembly.Calls
import Intcode.Proofs.Settings
import Intcode.Proofs.FileTree.Changes
import Intcode.Proofs.Assembly.Effects
