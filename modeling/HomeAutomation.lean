import HomeAutomation.Flatmap.FiniteMap
import HomeAutomation.Buffer.Store
import HomeAutomation.Buffer.LastWriter
import HomeAutomation.Buffer.Snapshot
import HomeAutomation.Buffer.Capacity
import HomeAutomation.Lib.Broadcast
import HomeAutomation.Mqtt.Client
import HomeAutomation.Network.Basic
import HomeAutomation.Network.Convergence
import HomeAutomation.Buffer.Payload
import HomeAutomation.Buffer.Read
import HomeAutomation.Menu.Basic
import HomeAutomation.Temperature
import HomeAutomation.Menu.Readers
import HomeAutomation.Menu.Edit
import HomeAutomation.Menu.Override
import HomeAutomation.Menu.Countdown
import HomeAutomation.Outlet.Basic
import HomeAutomation.Outlet.Freshness
import HomeAutomation.CBuffer
import HomeAutomation.GoogleSheet.Basic
import HomeAutomation.GoogleSheet.Stream
import HomeAutomation.GoogleSheet.Response
import HomeAutomation.GoogleSheet.FirstPiece
import HomeAutomation.GoogleSheet.Cut
import HomeAutomation.Lib.Wildcard
import HomeAutomation.Mqtt.Levels
import HomeAutomation.GetUrl
import HomeAutomation.Occupancy.Basic
import HomeAutomation.Occupancy.ValidTime
import HomeAutomation.Mqtt.Session
import HomeAutomation.Lib.History
import HomeAutomation.Mqtt.SessionLaws
import HomeAutomation.Buffer.Malformed
import HomeAutomation.Outlet.LastPoll
import HomeAutomation.Menu.Shown
import HomeAutomation.Menu.Cancel
import HomeAutomation.Menu.Applies
import HomeAutomation.Menu.ButtonB
import HomeAutomation.Menu.Duration
import HomeAutomation.Outlet.PollRate
import HomeAutomation.GoogleSheet.Request
import HomeAutomation.TemperatureZone
import HomeAutomation.HttpLifecycle
import HomeAutomation.Buffer.ReadBack
import HomeAutomation.GoogleSheet.Connect
import HomeAutomation.GoogleSheet.Bounds
import HomeAutomation.GoogleSheet.Redirect
import HomeAutomation.Lib.Cells
import HomeAutomation.Flatmap.TrimMemory
import HomeAutomation.Flatmap.TrimSafe
import HomeAutomation.Buffer.Display
import HomeAutomation.Buffer.Growth
import HomeAutomation.Buffer.Heap
import HomeAutomation.Buffer.HeapRuns
import HomeAutomation.Lib.Locks
import HomeAutomation.Outlet.Tasks
import HomeAutomation.Outlet.Interleaved
import HomeAutomation.Buffer.Initialize
import HomeAutomation.GoogleSheet.Lines
import HomeAutomation.Mqtt.Subscriptions
import HomeAutomation.Network.Override
import HomeAutomation.Menu.Debounce
import HomeAutomation.Mqtt.BrokerUrl
import HomeAutomation.Outlet.Controls
