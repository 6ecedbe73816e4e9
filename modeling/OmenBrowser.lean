import OmenBrowser.Server.CodecAlias
import OmenBrowser.Server.ScanExact
import OmenBrowser.Client.Resending
import OmenBrowser.Server.DurableCapacity
import OmenBrowser.Server.LiveAdmission
import OmenBrowser.Server.LiveReplay
import OmenBrowser.Server.LiveBanned
import OmenBrowser.Server.SilentReplays
import OmenBrowser.Server.IdentityBinding
import OmenBrowser.Server.RevisionLife
import OmenBrowser.Server.ReactionBounds
import OmenBrowser.Server.PinRuns
import OmenBrowser.Server.AuditSpending
import OmenBrowser.Server.SlowModeRuns
import OmenBrowser.Server.AuditPaging
import OmenBrowser.Protocol.BodyRoundTrips
import OmenBrowser.Server.StageDelivery
import OmenBrowser.Client.RoomCatalog
import OmenBrowser.Client.Fingerprints
import OmenBrowser.Client.ProjectionRuns
import OmenBrowser.Client.InlineReassembly
import OmenBrowser.Interface.Transmitter
import OmenBrowser.Browser.UpdateAdmission
import OmenBrowser.Messaging.TicketIntervals
import OmenBrowser.Browser.PartialLines
import OmenBrowser.Browser.FieldValues
import OmenBrowser.Browser.Descriptors
import OmenBrowser.Browser.ColumnWidths
import OmenBrowser.Client.MutationRetry
import OmenBrowser.Client.HistoryWindow
import OmenBrowser.Client.IntentRecovery
import OmenBrowser.Client.SequenceNumbers
import OmenBrowser.Client.LinkRetirement
import OmenBrowser.Server.UploadNames
import OmenBrowser.Messaging.HexText
import OmenBrowser.Messaging.OutboundOperation
