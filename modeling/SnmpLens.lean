import SnmpLens.Credentials.Custody
import SnmpLens.Credentials.Fields
import SnmpLens.Credentials.KeyCalls
import SnmpLens.Credentials.Saves
import SnmpLens.Credentials.Survive
import SnmpLens.Editor.Store
import SnmpLens.Editor.Typed
import SnmpLens.Events.Event
import SnmpLens.Events.Query
import SnmpLens.Events.Store
import SnmpLens.Events.Window
import SnmpLens.Lib.Attempt
import SnmpLens.Lib.Branching
import SnmpLens.Lib.Cursor
import SnmpLens.Lib.DepthFirst
import SnmpLens.Lib.Filepath
import SnmpLens.Lib.Fold
import SnmpLens.Lib.Glob
import SnmpLens.Lib.Hex
import SnmpLens.Lib.Json
import SnmpLens.Lib.Lines
import SnmpLens.Lib.Netip
import SnmpLens.Lib.Number
import SnmpLens.Lib.Prefix
import SnmpLens.Lib.Search
import SnmpLens.Lib.Substring
import SnmpLens.Lib.Textproto
import SnmpLens.Lib.Url
import SnmpLens.Mib.Cycle
import SnmpLens.Mib.Display
import SnmpLens.Mib.Guard
import SnmpLens.Monitor.Breach
import SnmpLens.Monitor.Dwell
import SnmpLens.Monitor.Incident
import SnmpLens.Monitor.Reachability
import SnmpLens.Monitor.Restart
import SnmpLens.Notify.Binding
import SnmpLens.Notify.Cascade
import SnmpLens.Notify.Cause
import SnmpLens.Notify.GivenUp
import SnmpLens.Notify.Lifecycle
import SnmpLens.Notify.Offered
import SnmpLens.Notify.Order
import SnmpLens.Notify.Reuse
import SnmpLens.Notify.Scrub
import SnmpLens.Poll.GetMany
import SnmpLens.Poll.WriteBack
import SnmpLens.Presets.Cost
import SnmpLens.Presets.Expanded
import SnmpLens.Render.Accepted
import SnmpLens.Render.Message
import SnmpLens.Render.Payload
import SnmpLens.Render.Redact
import SnmpLens.Router.Carried
import SnmpLens.Router.Refused
import SnmpLens.Router.Stopped
import SnmpLens.Sessions.Identity
import SnmpLens.Sessions.OneLoop
import SnmpLens.Simulator.Atomic
import SnmpLens.Simulator.Custom
import SnmpLens.Simulator.Merge
import SnmpLens.Simulator.Record
import SnmpLens.Simulator.Refused
import SnmpLens.Storage.DataPoints
import SnmpLens.Storage.Flush
import SnmpLens.Storage.History
import SnmpLens.Storage.Retention
import SnmpLens.Traps.Handle
import SnmpLens.Traps.Remembered
import SnmpLens.Traps.Store
import SnmpLens.Traps.Users
import SnmpLens.Updater.Authentic
import SnmpLens.Client.Opaque
import SnmpLens.Polling.Mirrored
import SnmpLens.Client.DebugLog
import SnmpLens.Router.Conserved
import SnmpLens.Lib.Rfc3339
import SnmpLens.Storage.Ranges
import SnmpLens.Events.Pages
import SnmpLens.Notify.Selection
import SnmpLens.Notify.Patterns
import SnmpLens.Render.Vanish
import SnmpLens.Lib.Rfc5424
import SnmpLens.Render.Syslog
import SnmpLens.Lib.Rfc5322
import SnmpLens.Render.Mail
import SnmpLens.Lib.Ber
import SnmpLens.Simulator.Ber
import SnmpLens.Simulator.Peek
import SnmpLens.Simulator.Boots
import SnmpLens.Lib.Mealy
import SnmpLens.Monitor.Overrun
import SnmpLens.Lib.Forest
import SnmpLens.Mib.Tree
import SnmpLens.Mib.Canonical
import SnmpLens.Mib.RoundTrip
import SnmpLens.Mib.Analyse
import SnmpLens.Mib.Duplicates
import SnmpLens.Lib.Binary64
import SnmpLens.Monitor.Counters
import SnmpLens.Presets.Objects
import SnmpLens.Render.Recipients
import SnmpLens.Lib.Bisect
import SnmpLens.Simulator.Fit
import SnmpLens.Lib.Rfc2047
import SnmpLens.Render.Subject
import SnmpLens.Lib.Trim
import SnmpLens.Presets.Encodable
import SnmpLens.Targets.Port
import SnmpLens.Targets.Readers
import SnmpLens.Lib.IpNet
import SnmpLens.Lib.IpText
import SnmpLens.Discovery.Expand
import SnmpLens.Simulator.Counter
import SnmpLens.Simulator.Faults
import SnmpLens.Simulator.Speeds
import SnmpLens.Simulator.Usm
import SnmpLens.Simulator.Gated
import SnmpLens.Lib.Rfc4180
import SnmpLens.Traps.Burst
import SnmpLens.Export.Csv
import SnmpLens.Editor.History
import SnmpLens.Polling.Palette
import SnmpLens.Editor.Search
import SnmpLens.Lib.Html
import SnmpLens.Editor.Tokenize
import SnmpLens.Editor.Window
import SnmpLens.Mib.Graph
import SnmpLens.Lib.SlashPath
import SnmpLens.Simulator.Archive
import SnmpLens.Simulator.Folders
import SnmpLens.Editor.Metrics
import SnmpLens.Autostart.Unix
import SnmpLens.Autostart.Darwin
import SnmpLens.Lib.Rounding
import SnmpLens.Simulator.Bucket
import SnmpLens.Simulator.Notifier
