import Chip8.Directory
import Chip8.Main
import Chip8.Proofs.Exec
import Chip8.Vm.Stream
import Chip8.Proofs.Step
import Chip8.Proofs.Cycle
import Chip8.Proofs.Session
import Chip8.Proofs.Bounds
import Chip8.Proofs.Pixels
import Chip8.Proofs.View
import Chip8.Proofs.Table
import Chip8.Proofs.Output
import Chip8.Proofs.Snapshots
import Chip8.Proofs.Refinement
import Chip8.Proofs.Fault
import Chip8.Proofs.Calls
import Chip8.Proofs.Keys
import Chip8.Proofs.Acts
import Chip8.Proofs.Queue
import Chip8.Proofs.Likeness
import Chip8.Proofs.Hooks
import Chip8.Proofs.Observers
import Chip8.Proofs.Breakpoints
import Chip8.Proofs.Hidden
import Chip8.Proofs.Devices
import Chip8.Proofs.Reset
import Chip8.Proofs.Numerals
import Chip8.Proofs.Notation
import Chip8.Proofs.Listing
import Chip8.Proofs.Written
import Chip8.Proofs.Profiles
import Chip8.Proofs.Accepted
import Chip8.Proofs.Blit
import Chip8.Proofs.Stamps
import Chip8.Proofs.Reports
import Chip8.Proofs.Names
import Chip8.Proofs.Paths
import Chip8.Proofs.Loading
import Chip8.Proofs.Variables
import Chip8.Proofs.Transfers
import Chip8.Proofs.Waiting
import Chip8.Proofs.Numbering
import Chip8.Proofs.Ranges
import Chip8.Proofs.Pictures
import Chip8.Proofs.Choices
import Chip8.Proofs.Account
