/-
Lazy tasks, dispatch services and timers.
-/
import TaskDispatch.Proofs.FanIn.Exact
import TaskDispatch.Proofs.Frame.Wake
import TaskDispatch.Proofs.Hop.Landing
import TaskDispatch.Proofs.Timer.Cancellation
import TaskDispatch.Proofs.Timer.Promise
import TaskDispatch.Proofs.Timer.Sweep
import TaskDispatch.Proofs.Service.Stop
import TaskDispatch.Scenario.Run
import TaskDispatch.TestAttribute
import TaskDispatch.Trial.TimedWait
import TaskDispatch.Trial.TimerLoop
import TaskDispatch.Proofs.FanIn.Rank
import TaskDispatch.Proofs.Frame.Effort
import TaskDispatch.Proofs.Tree.Cost
import TaskDispatch.Proofs.Tree.Enabled
import TaskDispatch.Proofs.Tree.Progress
import TaskDispatch.Proofs.Tree.Still
import TaskDispatch.Proofs.Service.Reset
import TaskDispatch.Proofs.Cancellation.Circle
import TaskDispatch.Proofs.Cancellation.Runs
import TaskDispatch.Proofs.Timer.Loop
import TaskDispatch.Proofs.Timer.Order
import TaskDispatch.Proofs.Timer.Vigil
import TaskDispatch.Proofs.Timer.Chains
import TaskDispatch.Proofs.Timer.Firing
import TaskDispatch.Proofs.Tree.Descent
import TaskDispatch.Proofs.Tree.Confluence
import TaskDispatch.Proofs.Awaiter
import TaskDispatch.Proofs.Cancellation.Revocation
import TaskDispatch.Proofs.Timer.Fallback
import TaskDispatch.Proofs.FanIn.Election
import TaskDispatch.Proofs.Timer.Delivery
import TaskDispatch.Proofs.Task.Lodging
import TaskDispatch.Proofs.Task.Life
import TaskDispatch.Proofs.Task.Forward
import TaskDispatch.Proofs.Service.Conservation
import TaskDispatch.Proofs.Timer.Filter
import TaskDispatch.Proofs.Timer.Merge
import TaskDispatch.Proofs.Timer.TurnOrder
import TaskDispatch.Proofs.Transfer.Arrival
import TaskDispatch.Proofs.Slab.FiniteMap
import TaskDispatch.Proofs.Cell
import TaskDispatch.Proofs.Task.Replay
import TaskDispatch.Proofs.Task.Layers
import TaskDispatch.Proofs.Task.LayersAtWork
import TaskDispatch.Proofs.Task.Parting
import TaskDispatch.Proofs.Service.Site
import TaskDispatch.Proofs.Latch
import TaskDispatch.Proofs.TestAttribute
