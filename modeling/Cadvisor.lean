import Cadvisor.Lib.Run
import Cadvisor.Lib.Slice
import Cadvisor.Lib.TaskPool
import Cadvisor.Lib.TreeWalk
import Cadvisor.Host.CgroupFs
import Cadvisor.Host.Watch
import Cadvisor.Host.Parse
import Cadvisor.Host.Cgroup
import Cadvisor.Host.Machine
import Cadvisor.Host.Fs
import Cadvisor.Manager.Store
import Cadvisor.Manager.Disks
import Cadvisor.Manager.Filesystems
import Cadvisor.Manager.Containers
import Cadvisor.Manager.Housekeeping
import Cadvisor.Manager.Sweep
import Cadvisor.Manager.Discovery
import Cadvisor.Manager.Tracking
import Cadvisor.Manager.Lifecycle
import Cadvisor.Manager.Announcements
import Cadvisor.Manager.Info
import Cadvisor.Metrics.Output
import Cadvisor.Metrics.Labels
import Cadvisor.Metrics.Collect
import Cadvisor.Metrics.Dimensions
import Cadvisor.Metrics.Series
import Cadvisor.Metrics.Exposition
import Cadvisor.Metrics.Reordering
import Cadvisor.Metrics.Expo
import Cadvisor.Api.V1
import Cadvisor.Api.Stream
import Cadvisor.Api.V2
import Cadvisor.Api.Subtrees
import Cadvisor.Secure.Watched
import Cadvisor.Secure.Tokens
import Cadvisor.Lib.Polling
import Cadvisor.Manager.Intervals
import Cadvisor.Api.Summary
import Cadvisor.Metrics.Groups
import Cadvisor.Lib.Fields
import Cadvisor.Host.Mountinfo
import Cadvisor.Manager.Partitions
import Cadvisor.Lib.Decimal
import Cadvisor.Metrics.Shortest
import Cadvisor.Lib.Serde
import Cadvisor.Model.RoundTrip
import Cadvisor.Lib.JsonText
import Cadvisor.Api.Request
import Cadvisor.Host.Checked
import Cadvisor.Manager.SpecRefresh
import Cadvisor.Manager.StorageDuration
import Cadvisor.Lib.Grouping
import Cadvisor.Manager.Rescans
import Cadvisor.Api.Dispatch
import Cadvisor.Host.DirUsage
import Cadvisor.Lib.Calendar
import Cadvisor.Model.Rfc3339
import Cadvisor.Host.Topology
import Cadvisor.Host.Cores
import Cadvisor.Api.Processes
import Cadvisor.Host.Diskstats
import Cadvisor.Manager.EnvWhitelist
import Cadvisor.Lib.Runs
import Cadvisor.Runtime.ContainerId
import Cadvisor.Main.Argv
import Cadvisor.Metrics.Scrape
import Cadvisor.Metrics.ReadBack
import Cadvisor.Suite.Checks
import Cadvisor.Api.Endpoints
import Cadvisor.Api.Server
import Cadvisor.Host.Kernel
import Cadvisor.Lib.Framing
import Cadvisor.Manager.OomAnnouncements
import Cadvisor.Suite.Follow
import Cadvisor.Api.Payloads
import Cadvisor.Api.RoundTrip
import Cadvisor.Suite.Client
import Cadvisor.Suite.Polls
import Cadvisor.Host.Proc
import Cadvisor.Manager.Sample
import Cadvisor.Suite.Find
import Cadvisor.Suite.Workloads
import Cadvisor.Suite.Launch
import Cadvisor.Suite.Report
