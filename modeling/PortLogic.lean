import PortLogic.Device.Simulated
import PortLogic.Engine.Run
import PortLogic.Number.Bits
import PortLogic.Proofs.Accounts
import PortLogic.Proofs.Agreement
import PortLogic.Proofs.Circles
import PortLogic.Proofs.Expr.Dispatch
import PortLogic.Proofs.Expr.Locality
import PortLogic.Proofs.Expr.Visits
import PortLogic.Proofs.Filling
import PortLogic.Proofs.Flush
import PortLogic.Proofs.Freshness
import PortLogic.Proofs.Func.Lookup
import PortLogic.Proofs.Hardware
import PortLogic.Proofs.Memory.Cycle
import PortLogic.Proofs.Memory.Delay
import PortLogic.Proofs.Memory.Held
import PortLogic.Proofs.Memory.Rate
import PortLogic.Proofs.Memory.Window
import PortLogic.Proofs.Number.Rounding
import PortLogic.Proofs.Quiet
import PortLogic.Proofs.Refusal
import PortLogic.Proofs.Rejection
import PortLogic.Proofs.Replay
import PortLogic.Proofs.Request
import PortLogic.Proofs.Restart
import PortLogic.Proofs.Saving
import PortLogic.Proofs.Settling
import PortLogic.Proofs.Slots
import PortLogic.Proofs.Smoothing
import PortLogic.Proofs.Sources
import PortLogic.Proofs.Valid
import PortLogic.Service
import PortLogic.Proofs.Expr.Position
import PortLogic.Proofs.Expr.Range
