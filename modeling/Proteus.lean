import Proteus.MapRefinement
import Proteus.Runtime
import Proteus.GeneratedClient
import Proteus.ClientCalls
import Proteus.GeneratedServer
import Proteus.ServerReferences
import Proteus.Dispatch
import Proteus.RequestHandlingRSocket
import Proteus.RouterRuns
import Proteus.GeneratedServices
import Proteus.PayloadReleases
import Proteus.Lib.Logs
import Proteus.MeteredRuns
import Proteus.FrameDecoding
import Proteus.Javadoc
import Proteus.MetadataReuse
import Proteus.ProxyChains
import Proteus.JavaNames
import Proteus.RpcMetrics
import Proteus.MapOccupancy
import Proteus.MapLoad
import Proteus.MapFailures
import Proteus.MapNulls
import Proteus.BufferOwners
import Proteus.Lib.Segments
import Proteus.Splitting
import Proteus.DocLines
import Proteus.FnvHash
import Proteus.GeneratedFiles
import Proteus.ChainRepair
import Proteus.MapCompaction
import Proteus.ClientText
import Proteus.ServerText
import Proteus.GeneratedTexts
import Proteus.Lib.Mapping
import Proteus.RemoteCalls
import Proteus.ChannelPayloads
import Proteus.MapReentry
import Proteus.MapProbes
