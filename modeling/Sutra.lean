import Sutra.Executor.Inline
import Sutra.Executor.Coverage
import Sutra.Executor.Compensation
import Sutra.Executor.Transaction
import Sutra.Executor.Variables
import Sutra.Snapshot.Write
import Sutra.Dmn.HitPolicy
import Sutra.Feel.Intervals
import Sutra.Feel.Months
import Sutra.Feel.DurationText
import Sutra.Inbox.AtMostOnce
import Sutra.Intake.Redaction
import Sutra.Store.Alias
import Sutra.Store.Finality
import Sutra.Store.KeyQuery
import Sutra.Store.Projected
import Sutra.Store.Retention
import Sutra.Store.TimerFire
import Sutra.Capacity.Channel
import Sutra.Capacity.SessionEnd
import Sutra.Leadership.Election
import Sutra.Outbox.OneDelivery
import Sutra.Outbox.PullTask
import Sutra.Outbox.Withdrawal
import Sutra.Ack.Deferred
import Sutra.Call.DeadAttempt
import Sutra.Schedule.Budget
import Sutra.Migration.Moves
import Sutra.Chain.Keys
import Sutra.Snapshot.Patch
import Sutra.Snapshot.Typed
import Sutra.Codec.Tabular
import Sutra.Deploy.Candidate
import Sutra.Deploy.Reorder
import Sutra.Chain.Holds
import Sutra.Select.Routing
