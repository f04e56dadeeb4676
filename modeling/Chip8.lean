import Chip8.CommandLine.Run
import Chip8.Main
import Chip8.Proofs.WellFormed
import Chip8.Showcase.Run
import Chip8.Proofs.Preservation
import Chip8.Proofs.Sprite
import Chip8.Proofs.Transfer
import Chip8.Proofs.Effect
import Chip8.Proofs.Blit
import Chip8.Proofs.Stepping
import Chip8.Proofs.Calls
import Chip8.Proofs.Invariant
import Chip8.Proofs.Lifecycle
import Chip8.Proofs.Totality
import Chip8.Proofs.Faulting
import Chip8.Proofs.Pace
import Chip8.Proofs.Beginning
import Chip8.Proofs.Ending
import Chip8.Proofs.CallStack
import Chip8.Proofs.KeyWait
import Chip8.Proofs.Driver
import Chip8.Proofs.Rate
import Chip8.Proofs.Countdown
import Chip8.Proofs.Rejection
import Chip8.Proofs.RandomStream
import Chip8.Proofs.Double
import Chip8.Proofs.Frames
import Chip8.Proofs.Assignment
import Chip8.Proofs.Runners
import Chip8.Proofs.Noninterference
import Chip8.Proofs.Halting
import Chip8.Proofs.RunLength
import Chip8.Proofs.Outcomes
import Chip8.Proofs.DrawOrder
import Chip8.Proofs.Pattern
import Chip8.Proofs.Footprint
import Chip8.Proofs.Flags
import Chip8.Proofs.Loading
import Chip8.Proofs.RoundTrip
import Chip8.Proofs.Dispatch
import Chip8.Proofs.Beeps
import Chip8.Proofs.DoubleOrder
import Chip8.Proofs.DoubleRange
import Chip8.Proofs.Backlog
import Chip8.Proofs.Keypad
import Chip8.Proofs.Decoding
import Chip8.Proofs.Pictures
import Chip8.Proofs.Rendering
import Chip8.Proofs.KeyTexts
import Chip8.Proofs.Causes
import Chip8.Proofs.Registration
