import Fixure.RoundTrip
import Fixure.Framing
import Fixure.SessionRuns
import Fixure.Verdict
import Fixure.Outgoing
import Fixure.Detection
import Fixure.Scripted
import Fixure.Reception
import Fixure.Connections
import Fixure.Dictionary
import Fixure.Sections
import Fixure.Schema
import Fixure.Proxy
import Fixure.Groups
import Fixure.WrittenGroups
import Fixure.Strictness
import Fixure.Latency
import Fixure.Isolation
import Fixure.Validation
import Fixure.Forwarders
import Fixure.TestRequests
import Fixure.SequenceNumbers
import Fixure.ParseDsl
import Fixure.Rejection
import Fixure.Delimiters
import Fixure.Writing
import Fixure.FieldAccess
import Fixure.Comments
import Fixure.LookupTables
import Fixure.Documents
import Fixure.OutsideFields
import Fixure.OptionalGroups
import Fixure.SendingTime
import Fixure.Conservation
import Fixure.Delays
import Fixure.InMemory
import Fixure.Environments
import Fixure.Peer
import Fixure.Tcp
import Fixure.Duties
import Fixure.Progress
import Fixure.Delivery
import Fixure.Dialogue
import Fixure.Relay
import Fixure.Release
import Fixure.Recording

