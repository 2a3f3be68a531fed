import PumaDev.Lib.Machine
import PumaDev.Lib.Registry
import PumaDev.Lib.Json
import PumaDev.Lib.JsonText
import PumaDev.Lib.Binary64
import PumaDev.Go.Filepath
import PumaDev.Go.Quote
import PumaDev.Go.Unmarshal
import PumaDev.Go.Os
import PumaDev.Lib.Channel
import PumaDev.LineBuffer
import PumaDev.Websockets.Hub
import PumaDev.Dev.RpcEvents
import PumaDev.Dev.Containment
import PumaDev.Dev.PoolProcesses
import PumaDev.Dev.PoolLaunch
import PumaDev.Websockets.HubSafety
import PumaDev.Go.World
import PumaDev.Dev.LookupRuns
import PumaDev.Dev.LinkIdentity
import PumaDev.Dev.PoolLookup
import PumaDev.Dev.SocketOverlap
import PumaDev.Dev.Domains
import PumaDev.Dev.Subdomains
import PumaDev.Dev.Serving
import PumaDev.Dev.PoolPurge
import PumaDev.Dev.Requests
import PumaDev.Dev.RequestSafety
import PumaDev.Websockets.HubDelivery
import PumaDev.Websockets.HubShutdown
import PumaDev.Dev.EventsDump
import PumaDev.Websockets.WritePump
import PumaDev.Dev.AppLog
import PumaDev.Dev.Status
import PumaDev.Dev.Listeners
import PumaDev.Dev.RpcApps
import PumaDev.Dev.RpcFind
import PumaDev.Dev.Ssl
import PumaDev.Dev.SslTrust
import PumaDev.Dev.SslServing
import PumaDev.Dev.RpcConsole
import PumaDev.Dev.HostSpelling
import PumaDev.Dev.SubdomainCalls
import PumaDev.Dev.LookupVariables
import PumaDev.Go.Url
import PumaDev.Dev.ProxyFile
import PumaDev.Dev.ProxyChecks
import PumaDev.Lib.Shell
import PumaDev.Dev.LaunchCommand
import PumaDev.Dev.RpcByDirectory
import PumaDev.Go.Duration
import PumaDev.Dev.RpcUpdate
import PumaDev.Watch
import PumaDev.Dev.CertCache
import PumaDev.Dev.Optional
import PumaDev.Dev.ConsoleIdle
import PumaDev.Lib.ShellCommand
import PumaDev.Dev.ConsoleCommand
import PumaDev.Dev.EventRouting
import PumaDev.LineBufferSlice
import PumaDev.Lib.Xml
import PumaDev.Lib.Plist
import PumaDev.Go.Flag
import PumaDev.Dev.LaunchAgent
import PumaDev.Dev.LaunchAgentText
import PumaDev.Dev.PlainSettings
import PumaDev.Dev.InstalledSettings
import PumaDev.Lib.Responder
import PumaDev.Websockets.Subscriptions
import PumaDev.Lib.JsonPrint
import PumaDev.Lib.JsonIndent
import PumaDev.Go.Marshal
import PumaDev.Go.DurationText
import PumaDev.Dev.InstalledTimeout
import PumaDev.Dev.RpcAnswers
import PumaDev.Dev.RpcService
import PumaDev.Dev.StatusPage
import PumaDev.Websockets.Page
import PumaDev.Lib.FileTreeGrowth
import PumaDev.Dev.LinkCommand
import PumaDev.Lib.Progress
import PumaDev.Websockets.HubProgress
import PumaDev.Dev.PurgeProgress
import PumaDev.Go.Place
import PumaDev.Dev.Forwarding
import PumaDev.Lib.JsonBlank
import PumaDev.Dev.EventFeed
import PumaDev.Dev.LinkedSite
import PumaDev.Dev.NameService
