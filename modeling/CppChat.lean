import CppChat.Foundation.Transition
import CppChat.Foundation.Table
import CppChat.Foundation.Transaction
import CppChat.LocalStore.Deliveries
import CppChat.ServerStore.ExactlyOnce
import CppChat.Session.SlotSafety
import CppChat.Login.Safety
import CppChat.Voice.Safety
import CppChat.LocalStore.Settlement
import CppChat.Sync.Agreement
import CppChat.Wire.Frames
import CppChat.Wire.LoginSnapshot
import CppChat.Foundation.Expiring
import CppChat.Foundation.Counter
import CppChat.Foundation.RowLocks
import CppChat.Foundation.Atomicity
import CppChat.Foundation.Faults
import CppChat.Verification.SingleUse
import CppChat.Verification.Validity
import CppChat.Verification.Ownership
import CppChat.Guard.Bound
import CppChat.Relations.GroupSafety
import CppChat.Relations.GroupCreation
import CppChat.Relations.ContactSafety
import CppChat.Resources.ReadyRecords
import CppChat.Executor.Safety
import CppChat.Voice.MediaRate
import CppChat.Threads.Completeness
import CppChat.Threads.Messages
import CppChat.LocalStore.Exporter
import CppChat.LocalStore.OwnMedia
import CppChat.Pools.Redis
import CppChat.Pools.MySql
import CppChat.Tcp.Correlation
import CppChat.Call.Safety
import CppChat.Update.Safety
import CppChat.Status.Selection
import CppChat.Organizer.Notes
import CppChat.Organizer.ReminderSafety
import CppChat.LocalStore.Drafts
import CppChat.Guard.Counters
import CppChat.Lists.CommonGroups
import CppChat.Heartbeat.Reconciliation
import CppChat.Texts.Safety
import CppChat.Deploy.Rollback
import CppChat.Foundation.InsertionOrder
import CppChat.Threads.Pending
import CppChat.Media.Wave
import CppChat.Relations.Tags
import CppChat.Attachments.Container
import CppChat.Stream.Delivery
import CppChat.Stream.Receive
import CppChat.Transfers.AgainstStore
import CppChat.Sending.Placeholder
import CppChat.Sending.Limits
