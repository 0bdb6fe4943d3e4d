import Wca.Py.Exec
import Wca.Py.Dict
import Wca.Py.Str
import Wca.Py.Float
import Wca.Runners.Allocation
import Wca.Reading
import Wca.Convergence
import Wca.Moves
import Wca.Wss
import Wca.Scheduler.FitRefinement
import Wca.Scheduler.Filtering
import Wca.KafkaStorage
import Wca.Prometheus
import Wca.Grouping
import Wca.Exposition
import Wca.Watching
import Wca.Extra.Balancing
import Wca.Extra.Options
import Wca.Extra.Pinning
import Wca.Cpuset
import Wca.TasksFiles
import Wca.Rows
import Wca.CacheMasks
import Wca.Bandwidth
import Wca.PartialRequests
import Wca.NumaPages
import Wca.Scheduler.Lifetimes
import Wca.Scheduler.Rescheduling
import Wca.GroupLeaks
import Wca.Scheduler.Evictions
import Wca.Scheduler.Choosing
import Wca.Scheduler.ClusterDataProvider
import Wca.Scheduler.ScoreRanges
import Wca.Scheduler.RegistryExposition
import Wca.Perf.Decoding
import Wca.Derived.Snapshots
import Wca.Metrics.Merging
import Wca.Metrics.Ratios
import Wca.Metrics.Series
import Wca.Extra.StaticAllocator
import Wca.Extra.Absence
import Wca.Resources
import Wca.Labels
import Wca.Dmidecode
import Wca.Delivery
import Wca.Cpuinfo
import Wca.Zoneinfo
import Wca.ConfigTypes
import Wca.Perf.EventNames
import Wca.Handling
import Wca.Settling
import Wca.Perf.Accounts
import Wca.Initialization
import Wca.Nodes
import Wca.Databases
import Wca.Detection
