import Chip8.Main
import Chip8.Proofs.Instruction.Assembly
import Chip8.Proofs.Machine.Boundary
import Chip8.Proofs.Machine.Collisions
import Chip8.Proofs.Machine.Dialects
import Chip8.Proofs.Machine.Flags
import Chip8.Proofs.Machine.Journal
import Chip8.Proofs.Machine.Latch
import Chip8.Proofs.Machine.Overruns
import Chip8.Proofs.Machine.RoundTrips
import Chip8.Proofs.Machine.Safety
import Chip8.Proofs.Machine.Stray
import Chip8.Proofs.Machine.Subroutines
import Chip8.Proofs.Machine.Waiting
import Chip8.Proofs.Machine.Wraparound
import Chip8.Proofs.Report
import Chip8.Proofs.Session.Display
import Chip8.Proofs.Session.Laps
import Chip8.Proofs.Session.Rates
import Chip8.Proofs.Session.Resets
import Chip8.Proofs.Session.Service
import Chip8.Proofs.Session.Slices
import Chip8.Proofs.Session.Stepping
import Chip8.Proofs.Terminal.Expiry
import Chip8.Proofs.Terminal.Picture
import Chip8.Proofs.Terminal.Routing
import Chip8.Terminal.Program
