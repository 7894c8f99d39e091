import HealthCheck.Go.Strings
import HealthCheck.Go.Maps
import HealthCheck.Go.Slices
import HealthCheck.Go.Inclusion
import HealthCheck.Go.Numerals
import HealthCheck.Net.Addresses
import HealthCheck.Api.Server
import HealthCheck.Api.Client
import HealthCheck.Api.Serial
import HealthCheck.Api.Tracks
import HealthCheck.Api.Interference
import HealthCheck.Runs
import HealthCheck.Interleaving
import HealthCheck.KeyedLists
import HealthCheck.Scanner
import HealthCheck.Go.Json
import HealthCheck.Objects
import HealthCheck.DownEpList
import HealthCheck.Poll
import HealthCheck.PollEntries
import HealthCheck.PollRuns
import HealthCheck.PollFailure
import HealthCheck.PollCoherence
import HealthCheck.PollStored
import HealthCheck.PollIsolation
import HealthCheck.Leases
import HealthCheck.LeaseMirror
import HealthCheck.SharedVip
import HealthCheck.Endpoints.Moves
import HealthCheck.Endpoints.Edits
import HealthCheck.Endpoints.Predicates
import HealthCheck.Endpoints.Comparison
import HealthCheck.Endpoints.Calls
import HealthCheck.Endpoints.Deletion
import HealthCheck.Endpoints.ExactDeletion
import HealthCheck.Endpoints.Conservation
import HealthCheck.Endpoints.Entries
import HealthCheck.Endpoints.Representation
import HealthCheck.Reconcile
import HealthCheck.PollStable
import HealthCheck.Recovery
import HealthCheck.Classification
import HealthCheck.OwnLbhc
import HealthCheck.Nginx.Peers
import HealthCheck.Nginx.Check
import HealthCheck.Nginx.Inet
import HealthCheck.Nginx.Upstream
import HealthCheck.Nginx.Labels
import HealthCheck.Nginx.LabelValues
import HealthCheck.Nginx.Accepted
import HealthCheck.Store.Jobs
import HealthCheck.Nginx.Files
import HealthCheck.Nginx.Requests
import HealthCheck.Nginx.Servers
import HealthCheck.Nginx.Reload
import HealthCheck.Nginx.Refinement
import HealthCheck.Nginx.Concurrent
import HealthCheck.Hysteresis
import HealthCheck.Owners
import HealthCheck.Fleet
import HealthCheck.Cluster
import HealthCheck.Nginx.RoundTrip
import HealthCheck.Nginx.Workers
import HealthCheck.Nginx.Exclusion
import HealthCheck.Nginx.Overlap
import HealthCheck.Nginx.Handlers
import HealthCheck.Nginx.Lifecycle
import HealthCheck.Nginx.StatusLine
import HealthCheck.Nginx.Segments
import HealthCheck.Nginx.HttpChecks
import HealthCheck.Nginx.HeadChecks
import HealthCheck.Nginx.Fastcgi
import HealthCheck.Nginx.FastcgiLines
import HealthCheck.Nginx.FastcgiRequests
import HealthCheck.Nginx.FastcgiChecks
import HealthCheck.Nginx.Cycles
import HealthCheck.Nginx.Inheritance
import HealthCheck.Nginx.Ledger
import HealthCheck.Nginx.Processes
import HealthCheck.Supervision
import HealthCheck.Restarts
import HealthCheck.ReloadVerdicts
import HealthCheck.Nginx.StatusJson
import HealthCheck.StatusPayload
import HealthCheck.Quiescence
import HealthCheck.DroppedUpdates
import HealthCheck.PodDeletion
import HealthCheck.PodLabels
import HealthCheck.ServicePods
import HealthCheck.PodServices
import HealthCheck.Endpoints.Placement
import HealthCheck.SwallowedConflicts
