import TapeMachine.Machine.Core.Lemmas
import TapeMachine.Machine.Loop.Lemmas
import TapeMachine.Pacer.Bench
import TapeMachine.Main
import TapeMachine.Proofs.Lifecycle
import TapeMachine.Proofs.Stepping
import TapeMachine.Proofs.Pairing
import TapeMachine.Proofs.Seeker
import TapeMachine.Proofs.Structured.Block
import TapeMachine.Proofs.Structured.Meaning
import TapeMachine.Proofs.Structured.Simulation
import TapeMachine.Proofs.Reachable
import TapeMachine.Proofs.Halting
import TapeMachine.Proofs.Pacing
import TapeMachine.Proofs.Interleaving
import TapeMachine.Proofs.Ledger
import TapeMachine.Proofs.Ticking
import TapeMachine.Proofs.PanelModes
import TapeMachine.Proofs.Callbacks
import TapeMachine.Proofs.Nesting
import TapeMachine.Proofs.Interventions
import TapeMachine.Proofs.Strays
import TapeMachine.Proofs.Advancing
import TapeMachine.Proofs.Structured.Cancelling
import TapeMachine.Proofs.Exchanges
import TapeMachine.Proofs.Account
import TapeMachine.Proofs.TapeSizes
import TapeMachine.Proofs.Reading
import TapeMachine.Proofs.Restarting
import TapeMachine.Proofs.Commands
import TapeMachine.Proofs.Dialogue
import TapeMachine.Proofs.Locating
import TapeMachine.Proofs.PanelDisplay
import TapeMachine.Proofs.Tables
import TapeMachine.Proofs.Balance
import TapeMachine.Proofs.Unbalanced
import TapeMachine.Proofs.Statuses
import TapeMachine.Proofs.Endings
import TapeMachine.Proofs.Recording
import TapeMachine.Proofs.Breakpoints
import TapeMachine.Proofs.Lines
import TapeMachine.Proofs.Offsets
import TapeMachine.Proofs.StraightLines
import TapeMachine.Proofs.Copying
import TapeMachine.Proofs.Delivery
import TapeMachine.Proofs.Outcomes
import TapeMachine.Proofs.Mirroring
import TapeMachine.Proofs.Deadlines
import TapeMachine.Proofs.StateViews
import TapeMachine.Proofs.Magnitudes
import TapeMachine.Proofs.Speeds
