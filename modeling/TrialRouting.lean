import TrialRouting.Main
import TrialRouting.Rehearsal.Course
import TrialRouting.Proofs.Plain
import TrialRouting.Proofs.Replay
import TrialRouting.Proofs.Replay.Queue
import TrialRouting.Proofs.Invocation
import TrialRouting.Proofs.Invocation.Disabled
import TrialRouting.Proofs.Register
import TrialRouting.Proofs.Cache
import TrialRouting.Proofs.Traffic
import TrialRouting.Proofs.Yields
import TrialRouting.Proofs.Traffic.Caller
import TrialRouting.Proofs.Traffic.Interleaving
import TrialRouting.Proofs.Traffic.SingleFlight
import TrialRouting.Proofs.Lookup
import TrialRouting.Proofs.Invocation.Scope
import TrialRouting.Proofs.Unfolding
import TrialRouting.Proofs.Unfolding.Guarded
import TrialRouting.Proofs.Replay.Turns
import TrialRouting.Proofs.Replay.Bound
import TrialRouting.Proofs.Invocation.Unfolding
import TrialRouting.Proofs.Invocation.Reports
import TrialRouting.Proofs.Invocation.Switches
import TrialRouting.Proofs.Invocation.Calls
import TrialRouting.Proofs.Cache.Index
import TrialRouting.Proofs.Cache.Sequential
import TrialRouting.Proofs.Traffic.Upkeep
import TrialRouting.Proofs.Traffic.Orphans
import TrialRouting.Proofs.Traffic.Phantoms
import TrialRouting.Proofs.Traffic.Heeding
import TrialRouting.Proofs.Traffic.Cancellation
import TrialRouting.Proofs.Traffic.Survivors
import TrialRouting.Proofs.Traffic.Retrying
import TrialRouting.Proofs.Invocation.Cancelled
import TrialRouting.Proofs.Drafts
import TrialRouting.Proofs.Simulation.Books
import TrialRouting.Proofs.Simulation.Scopes
import TrialRouting.Proofs.Attempt
import TrialRouting.Proofs.Replay.Closing
import TrialRouting.Proofs.Invocation.Stopping
import TrialRouting.Proofs.Spread
import TrialRouting.Proofs.Sticky
import TrialRouting.Proofs.Sticky.HashInput
import TrialRouting.Proofs.Attempt.Leaving
import TrialRouting.Proofs.Selection
import TrialRouting.Proofs.Replay.Exchange
import TrialRouting.Proofs.Invocation.Leaving
import TrialRouting.Proofs.Attempt.Nesting
import TrialRouting.Proofs.Invocation.Nesting
import TrialRouting.Proofs.Growth
import TrialRouting.Proofs.Attempt.Transparency
import TrialRouting.Proofs.Invocation.Transparency
import TrialRouting.Proofs.Invocation.Early
import TrialRouting.Proofs.KillSwitch
import TrialRouting.Proofs.Written
import TrialRouting.Proofs.Invocation.Metrics
import TrialRouting.Proofs.Registry
import TrialRouting.Proofs.Settings
