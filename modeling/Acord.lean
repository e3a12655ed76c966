import Acord.Lib.Transition
import Acord.Lib.Channel
import Acord.Lib.RequestLoop
import Acord.RedirectLoop
import Acord.Connections
import Acord.PumpClose
import Acord.PumpEncode
import Acord.PumpDecode
import Acord.Tunnel
import Acord.LocalReplies
import Acord.LoadProvider
import Acord.Handoff
import Acord.AssetPublish
import Acord.AssetRuns
import Acord.AssetContent
import Acord.AssetSessions
import Acord.AssetConfined
import Acord.AssetOutside
import Acord.Restarts
import Acord.SharedSolo
import Acord.ChunkView
import Acord.Codec
import Acord.DaemonProgress
import Acord.App
import Acord.AppProgress
import Acord.AppWork
import Acord.GeneratorOwner
import Acord.HttpOrder
import Acord.CommandLine
import Acord.AssetHome
import Acord.WsSessionHandlerWobj
