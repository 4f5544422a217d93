import Cockpit.Common.PipeRoundTrip
import Cockpit.Common.TransportOrder
import Cockpit.Bridge.DBusRulesLive
import Cockpit.Bridge.RouterAnswers
import Cockpit.Bridge.RouterFenceRun
import Cockpit.Base1.PromisesSettle
import Cockpit.Base1.MetricsLossless
import Cockpit.Common.WebServerAnswers
import Cockpit.Common.FrameRead
import Cockpit.Base1.JoinData
import Cockpit.Storaged.Teardown
import Cockpit.Storaged.Partitions
import Cockpit.NetworkManager.Ip4
import Cockpit.Bridge.DBusIntrospection
import Cockpit.Bridge.DBusMeta
import Cockpit.Base1.ChannelsWire
import Cockpit.Base1.ChannelsDisconnect
import Cockpit.Ws.AuthStartups
import Cockpit.Ws.AuthThrottle
import Cockpit.Ws.Application
import Cockpit.Ws.ServiceRoutes
import Cockpit.Ws.ChannelResponseOnce
import Cockpit.Common.PipeClose
import Cockpit.Bridge.FsreplaceCleanup
import Cockpit.Base1.FileModify
import Cockpit.Base1.FileConflict
import Cockpit.Ssh.ConnectionString
import Cockpit.Ssh.RelayReports
import Cockpit.Ssh.RelayFrame
import Cockpit.Shell.RouterSources
import Cockpit.Bridge.PackagesReload
import Cockpit.Bridge.PathsTree
import Cockpit.Bridge.RouterNormal
import Cockpit.Bridge.RouterBridges
import Cockpit.Common.WebInjectBlocks
import Cockpit.Kubernetes.LoaderWatches
import Cockpit.Kubernetes.LoaderFaithful
import Cockpit.Kubernetes.WatchConverges
import Cockpit.Kubernetes.SelectRight
import Cockpit.Common.WebResponseHead
import Cockpit.Bridge.ChannelTimer
import Cockpit.WebSocket.Fragments
import Cockpit.Common.JsonPatch
import Cockpit.Common.Cookie
import Cockpit.Common.Accept
import Cockpit.Common.Template
import Cockpit.Common.JsonWrite
import Cockpit.Base1.Utf8Stream
import Cockpit.Ws.Checksums
import Cockpit.Bridge.DBusSignal
import Cockpit.Base1.FileReplace
import Cockpit.Base1.DBusListeners
import Cockpit.Base1.StreamBuffer
import Cockpit.Base1.LocationTotal
import Cockpit.Bridge.HttpStreamBodiless
import Cockpit.Bridge.HttpStreamRequest
import Cockpit.Ws.ServiceMessages
import Cockpit.Common.Version
import Cockpit.Base1.SeriesExpiry
import Cockpit.Base1.TransportFraming
import Cockpit.Base1.LaterQueue
