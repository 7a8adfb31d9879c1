import Smap.Workflow.Validation
import Smap.Workflow.LoopGuard
import Smap.Workflow.LiveSteps
import Smap.Workflow.Stalls
import Smap.Workflow.DryRun
import Smap.Workflow.Dispatch
import Smap.Auth.Reuse
import Smap.Auth.Revocation
import Smap.Auth.TrustedProxy
import Smap.Gates.Ballots
import Smap.Gates.Ports
import Smap.Chains.Calls
import Smap.Chains.Instructs
import Smap.Inbox.Delivery
import Smap.Uploads.Reservations
import Smap.Uploads.Finalisation
import Smap.Canvas.Persistence
import Smap.Tenancy.OriginalCreator
import Smap.Tenancy.Deletion
import Smap.Graph.Rollback
import Smap.Turns.Triggers
import Smap.Config.JsonMerge
import Smap.Context.Coverage
import Smap.Limits.SlidingWindow
import Smap.Limits.UsageBuckets
import Smap.Presence.Roster
import Smap.Chat.Merge
import Smap.Skills.Budget
import Smap.Skills.AuthoredDigest
import Smap.Turns.Markers
