import FigmaDevMcp.Broker.AdmissionCap
import FigmaDevMcp.Broker.BackendReady
import FigmaDevMcp.Broker.Cleanup
import FigmaDevMcp.Broker.ElectionRuns
import FigmaDevMcp.Broker.IdleWait
import FigmaDevMcp.Broker.Pacing
import FigmaDevMcp.Broker.Sessions
import FigmaDevMcp.Main.Conservation
import FigmaDevMcp.Protocol.DeferredText
import FigmaDevMcp.Protocol.ForestBounds
import FigmaDevMcp.Protocol.Frames
import FigmaDevMcp.Protocol.MemberOrder
import FigmaDevMcp.Protocol.Reactions
import FigmaDevMcp.Read.Batches
import FigmaDevMcp.Read.ComponentCoverage
import FigmaDevMcp.Read.FontCoverage
import FigmaDevMcp.Read.ForestsSent
import FigmaDevMcp.Read.Hidden
import FigmaDevMcp.Read.Inspections
import FigmaDevMcp.Read.LookupBudget
import FigmaDevMcp.Read.Prepasses
import FigmaDevMcp.Read.SearchCursor
import FigmaDevMcp.Read.SettlesOnce
import FigmaDevMcp.Read.Styles
import FigmaDevMcp.Read.VariablesAccepted
import FigmaDevMcp.Read.Visibility
import FigmaDevMcp.Read.WalkCoverage
import FigmaDevMcp.Rpc.Correlation
import FigmaDevMcp.Tools.Base64
import FigmaDevMcp.Tools.Degrading
import FigmaDevMcp.Ui.CssInStep
import FigmaDevMcp.Ui.CssIndex
import FigmaDevMcp.Ui.FramesRead
import FigmaDevMcp.Ui.JpegScan
import FigmaDevMcp.Ui.ReferenceLaw
import FigmaDevMcp.Broker.CallsReturn
import FigmaDevMcp.Broker.CleanupFinal
import FigmaDevMcp.Read.BatchesSent
import FigmaDevMcp.Read.CursorsTaken
