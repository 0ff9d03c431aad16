import Steward.Bench
import Steward.Loop.Rehearsal
import Steward.Main
import Steward.Queue.Desk
import Steward.Proofs.Deletion
import Steward.Proofs.Shift
import Steward.Proofs.Triggers
import Steward.Proofs.Hand
import Steward.Proofs.Refusal
import Steward.Proofs.Staleness
import Steward.Proofs.Discipline
import Steward.Proofs.Lasting
import Steward.Proofs.Patience
import Steward.Proofs.Bench
import Steward.Proofs.Removal
import Steward.Proofs.Account
import Steward.Proofs.Visit
import Steward.Proofs.Calls
import Steward.Proofs.Consent
import Steward.Proofs.Gate
import Steward.Proofs.Setback
import Steward.Proofs.Records
import Steward.Proofs.Announcements
import Steward.Proofs.Relay
import Steward.Proofs.Life
import Steward.Proofs.Undisturbed
import Steward.Proofs.Lifecycle
import Steward.Proofs.Attention
import Steward.Proofs.Versions
import Steward.Proofs.Traces
import Steward.Proofs.Rest
import Steward.Proofs.Parked
import Steward.Proofs.Completion
import Steward.Proofs.Pace
import Steward.Proofs.Apply
import Steward.Proofs.Layout
import Steward.Proofs.Deadlines
import Steward.Proofs.Summary
import Steward.Proofs.Independence
import Steward.Proofs.Outcome
import Steward.Proofs.Touch
import Steward.Proofs.Chronicle
import Steward.Proofs.Marker
import Steward.Proofs.Failures
import Steward.Proofs.Reactions
import Steward.Proofs.Readiness
import Steward.Proofs.Sleepers
