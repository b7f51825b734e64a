import Esp32Fx.Lib.Memory
import Esp32Fx.Lib.Transition
import Esp32Fx.Lib.Ledger
import Esp32Fx.Lib.CString
import Esp32Fx.Lib.Json
import Esp32Fx.Lib.JsonText
import Esp32Fx.Eink.Json
import Esp32Fx.Eink.Decode
import Esp32Fx.Native.Sink
import Esp32Fx.Native.SinkFacts
import Esp32Fx.Native.SinkRuns
import Esp32Fx.Native.Json
import Esp32Fx.Eink.Scan
import Esp32Fx.Protocol.Strings
import Esp32Fx.Eink.Client
import Esp32Fx.Eink.Lookup
import Esp32Fx.Protocol.Prompt
import Esp32Fx.Native.Streams
import Esp32Fx.Native.Request
import Esp32Fx.Native.RequestFacts
import Esp32Fx.Native.RequestSends
import Esp32Fx.Native.RequestRuns
import Esp32Fx.Native.StreamFacts
import Esp32Fx.Native.StreamTable
import Esp32Fx.Native.Headers
import Esp32Fx.Native.HeaderFacts
import Esp32Fx.Lib.LittleEndian
import Esp32Fx.Image.FlashPayload
import Esp32Fx.Lib.PyText
import Esp32Fx.Image.Partitions
import Esp32Fx.Lib.Splice
import Esp32Fx.Lib.Interrupted
import Esp32Fx.Tools.Host
import Esp32Fx.Tools.HostRules
import Esp32Fx.Tools.BackupFacts
import Esp32Fx.Tools.AccessFacts
import Esp32Fx.Tools.Deploy
import Esp32Fx.Image.Merge
import Esp32Fx.Runner.FlashModule
import Esp32Fx.Protocol.Responses
import Esp32Fx.Runner.Addresses
import Esp32Fx.Runner.Allocator
import Esp32Fx.Runner.FirstFit
import Esp32Fx.Runner.AllocatorFacts
import Esp32Fx.Runner.MetadataRuns
import Esp32Fx.Runner.LinearMemory
import Esp32Fx.Lib.Program
import Esp32Fx.Guest.Usize
import Esp32Fx.Guest.CompactAllocator
import Esp32Fx.Guest.CompactAllocatorFacts
import Esp32Fx.Guest.CompactArena
import Esp32Fx.Guest.CompactArenaFacts
import Esp32Fx.Guest.ArenaReserve
import Esp32Fx.ExampleTools.Args
import Esp32Fx.ExampleTools.ArgsGrammar
import Esp32Fx.Lib.Staging
import Esp32Fx.ExampleTools.ToolCall
import Esp32Fx.ExampleTools.ToolFacts
import Esp32Fx.ExampleTools.ReadFacts
import Esp32Fx.ExampleTools.RunTests
import Esp32Fx.ExampleTools.RunTestsFacts
import Esp32Fx.Lib.Leb128
import Esp32Fx.Wamr.Readonly
import Esp32Fx.Wamr.ReadonlyFacts
import Esp32Fx.Eink.Search
import Esp32Fx.Protocol.Decoders
import Esp32Fx.Einkctl.Framebuffer
import Esp32Fx.Einkctl.TextLines
import Esp32Fx.Einkctl.RenderText
import Esp32Fx.Einkctl.WrapFacts
import Esp32Fx.Lib.Regex
import Esp32Fx.Lib.Utf8
import Esp32Fx.Lib.Base64
import Esp32Fx.Tools.Serial
import Esp32Fx.Tools.SerialFacts
import Esp32Fx.Tools.DownloadFacts
import Esp32Fx.Tools.DeployFacts
import Esp32Fx.Einkctl.SanitizeFacts
import Esp32Fx.Einkctl.TabStops
import Esp32Fx.Lib.Stdio
import Esp32Fx.Einkctl.ReadText
import Esp32Fx.Tools.DownloadRoot
import Esp32Fx.Native.GatewayUrl
import Esp32Fx.Native.TrustRoots
import Esp32Fx.Runner.ModuleFile
import Esp32Fx.Runner.ModuleRuns
import Esp32Fx.Native.Contiguity
import Esp32Fx.Native.ContiguityRuns
import Esp32Fx.Eink.Transcript
import Esp32Fx.Eink.Supervisor
import Esp32Fx.Eink.SupervisorReads
import Esp32Fx.Eink.SupervisorFacts
import Esp32Fx.Eink.SupervisorSession
import Esp32Fx.Eink.SupervisorRuns
import Esp32Fx.Protocol.Transcript
import Esp32Fx.Lib.PyRegex
import Esp32Fx.Lib.PyReplace
import Esp32Fx.Tools.Overlay
import Esp32Fx.Tools.OverlayFacts
import Esp32Fx.Tools.OverlayTree
import Esp32Fx.Lib.PyJson
import Esp32Fx.Lib.PyJsonFacts
import Esp32Fx.Lib.PyJsonDepth
import Esp32Fx.Lib.PyJsonText
import Esp32Fx.Tools.ToolTrace
import Esp32Fx.Tools.ToolTraceFacts
import Esp32Fx.Lib.FileTree
import Esp32Fx.Board.FxSd
import Esp32Fx.Board.FxSdFacts
import Esp32Fx.Lib.Loop
import Esp32Fx.Einkctl.Panel
import Esp32Fx.Einkctl.PanelFacts
import Esp32Fx.Lib.Holdings
import Esp32Fx.Einkctl.PanelLines
import Esp32Fx.Einkctl.PanelRuns
import Esp32Fx.Einkctl.PanelHistory
