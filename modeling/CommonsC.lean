import CommonsC.Base.Transition
import CommonsC.Base.Bits
import CommonsC.Base.Emulation
import CommonsC.Base.BitParser
import CommonsC.Base.Lines
import CommonsC.Base.CString
import CommonsC.Base.Loop
import CommonsC.Base.Shift
import CommonsC.SpsParser.Bitstream
import CommonsC.SpsParser.Payload
import CommonsC.SpsParser.ExpGolomb
import CommonsC.SpsParser.Parser
import CommonsC.SpsParser.Syntax
import CommonsC.SpsParser.H264
import CommonsC.SpsParser.Hevc
import CommonsC.Executor.Model
import CommonsC.Executor.Control
import CommonsC.Executor.Lifecycle
import CommonsC.Executor.Finalization
import CommonsC.Executor.Shutdown
import CommonsC.Executor.Visibility
import CommonsC.GcdbUpdater.Model
import CommonsC.GcdbUpdater.Filter
import CommonsC.GridView.Model
import CommonsC.GridView.Pools
import CommonsC.GridView.Splices
import CommonsC.GridView.Update
import CommonsC.GridView.Window
import CommonsC.GridView.Recycle
import CommonsC.Base.Numeral
import CommonsC.Base.Strings
import CommonsC.Net.Sockaddr
import CommonsC.Net.Parse
import CommonsC.Net.Text
import CommonsC.Net.Hostport
import CommonsC.VersionInfo.Model
import CommonsC.VersionInfo.Constraints
import CommonsC.ModulesList.Model
import CommonsC.ModulesList.Select
import CommonsC.ModulesList.Parse
import CommonsC.GcdbUpdater.Header
import CommonsC.GcdbUpdater.Etag
import CommonsC.GcdbUpdater.RoundTrip
import CommonsC.GcdbUpdater.Transfer
import CommonsC.GcdbUpdater.Concurrent
import CommonsC.GcdbUpdater.Teardown
import CommonsC.Net.HostGrammar
import CommonsC.ArrayList.Model
import CommonsC.ArrayList.Refine
import CommonsC.EvMouse.Model
import CommonsC.EvMouse.SingleLoop
import CommonsC.GridView.Ownership
import CommonsC.SpsParser.Vui
import CommonsC.GridView.Fill
import CommonsC.GridView.Rows
import CommonsC.GridView.Events
import CommonsC.GridView.Focus
import CommonsC.GridView.Bindings
import CommonsC.GridView.Cells
import CommonsC.Base.Slide
import CommonsC.GridView.Follow
import CommonsC.Base.Traced
import CommonsC.SpsParser.Codes
import CommonsC.SpsParser.Sizes
import CommonsC.SpsParser.Trace
import CommonsC.SpsParser.TraceSpec
import CommonsC.SpsParser.Malformed
import CommonsC.Executor.Cancellation
import CommonsC.Executor.Wakeup
import CommonsC.Base.Files
import CommonsC.CopyFile.Std
import CommonsC.CopyFile.Sendfile
import CommonsC.Executor.Places
import CommonsC.LinkedList.Model
import CommonsC.Executor.Linked
import CommonsC.Executor.Fifo
import CommonsC.Net.Compare
import CommonsC.VersionInfo.Text
import CommonsC.ArrayList.Failure
import CommonsC.ModulesList.Assertions
import CommonsC.EvMouse.Consumed
import CommonsC.Refcounter.Model
import CommonsC.Refcounter.Release
import CommonsC.Base.Paths
import CommonsC.GamepadTouchpad.Model
import CommonsC.GamepadTouchpad.HidParent
import CommonsC.ArrayList.Growth
import CommonsC.LinkedList.Sequence
import CommonsC.ModulesList.StrList
import CommonsC.GamepadTouchpad.Grabbable
import CommonsC.GridView.Conservation
import CommonsC.Base.Liveness
import CommonsC.Executor.Progress
import CommonsC.Executor.Join
import CommonsC.Base.Revalidate
import CommonsC.GcdbUpdater.Freshness
import CommonsC.Lazy.Obtain
import CommonsC.Base.Descriptors
import CommonsC.EvMouse.Devices
import CommonsC.GamepadTouchpad.Grab
import CommonsC.Device.Process
import CommonsC.Base.Blocks
import CommonsC.ModulesList.Memory
import CommonsC.ModulesList.Leaks
import CommonsC.Base.Refines
import CommonsC.GridView.NodeGrid
import CommonsC.GridView.Refinement
import CommonsC.EvMouse.Dispatch
import CommonsC.EvMouse.Delivery
import CommonsC.Base.FlagMonitor
import CommonsC.CecSdl.Shutdown
import CommonsC.LunaSync.CallSync
import CommonsC.GridView.Tracks
import CommonsC.Base.Hex
import CommonsC.Base.Cursor
import CommonsC.Logging.Hexdump
