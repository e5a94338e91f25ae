import Nsl.Framework.System
import Nsl.Framework.Simulation
import Nsl.Framework.DirLock
import Nsl.Framework.Boundary
import Nsl.Framework.StableMax
import Nsl.Framework.Blocks
import Nsl.Framework.Nesting
import Nsl.Framework.Window
import Nsl.Framework.Head
import Nsl.Framework.Chunked
import Nsl.Framework.Words
import Nsl.Framework.Shell
import Nsl.Framework.Forest
import Nsl.Framework.Url
import Nsl.Framework.Percent
import Nsl.Framework.Html
import Nsl.Framework.Markup
import Nsl.Framework.Paths
import Nsl.Rust.Text
import Nsl.Rust.Ascii
import Nsl.Rust.Lines
import Nsl.Rust.Http
import Nsl.Rust.Utf8
import Nsl.Rust.Json
import Nsl.Rust.Net
import Nsl.Rust.NetDisplay
import Nsl.Rust.JsonPrinted
import Nsl.Config.Domains
import Nsl.Config.Listen
import Nsl.Config.StateDir
import Nsl.Config.Layers
import Nsl.Cli.Overrides
import Nsl.Utils.Hostname
import Nsl.Utils.WellFormed
import Nsl.Utils.UrlNames
import Nsl.Utils.Label
import Nsl.Routes.Paths
import Nsl.Routes.Store
import Nsl.Routes.Mounts
import Nsl.Routes.Conflict
import Nsl.Routes.Lock
import Nsl.Platform.Process
import Nsl.Routes.Liveness
import Nsl.Routes.Unregister
import Nsl.Platform.Takeover
import Nsl.Platform.Signals
import Nsl.Platform.ProcessTree
import Nsl.Proxy.HostMatch
import Nsl.Proxy.Served
import Nsl.Proxy.FindRoute
import Nsl.Proxy.Handler
import Nsl.Proxy.Forwarding
import Nsl.Proxy.RawHead
import Nsl.Proxy.Upgrade
import Nsl.Proxy.Rejected
import Nsl.Proxy.Hops
import Nsl.Proxy.Agree
import Nsl.Proxy.HostCase
import Nsl.Proxy.Target
import Nsl.Proxy.ForwardedFor
import Nsl.Proxy.Poller
import Nsl.Proxy.Prune
import Nsl.Proxy.Lifecycle
import Nsl.Proxy.Cleanup
import Nsl.Proxy.Stop
import Nsl.Proxy.Startup
import Nsl.Proxy.Logs
import Nsl.Proxy.Recognise
import Nsl.Pages
import Nsl.Proxy.Response
import Nsl.Proxy.Serving
import Nsl.Routes.Save
import Nsl.Routes.OnDisk
import Nsl.Hosts.File
import Nsl.Hosts.Sync
import Nsl.Hosts.Resync
import Nsl.Hosts.Update
import Nsl.Certs.Generate
import Nsl.Certs.Sni
import Nsl.Certs.Chain
import Nsl.Certs.HostFiles
import Nsl.Certs.Expiry
import Nsl.Certs.Recovery
import Nsl.Certs.Trust
import Nsl.Discover.Project
import Nsl.Discover.Fallback
import Nsl.Run.Ports
import Nsl.Run.FreePort
import Nsl.Run.CommandLine
import Nsl.Run.Inject
import Nsl.Run.AppWords
import Nsl.Run.Session
import Nsl.Proxy.Arrival
import Nsl.Run.Again
import Nsl.Run.Ready
import Nsl.Serve.Listing
import Nsl.Serve.Redirect
import Nsl.Serve.Escaping
import Nsl.Serve.Links
import Nsl.Serve.Resolve
import Nsl.Serve.Browse
import Nsl.Serve.App
import Nsl.Status
