import Polywan.Api
import Polywan.Api.Connections
import Polywan.Api.Service
import Polywan.Api.Sockets
import Polywan.Checkpoint
import Polywan.Checks
import Polywan.Checks.Traversed
import Polywan.Config
import Polywan.Config.Accept
import Polywan.Config.Check
import Polywan.Config.Overflow
import Polywan.Config.Raw
import Polywan.Config.Settings
import Polywan.Config.Validate
import Polywan.Daemon
import Polywan.Daemon.Active
import Polywan.Daemon.Checkpoint
import Polywan.Daemon.Conflict
import Polywan.Daemon.Evaluate
import Polywan.Daemon.Families
import Polywan.Daemon.Follow
import Polywan.Daemon.Generations
import Polywan.Daemon.Host
import Polywan.Daemon.Link
import Polywan.Daemon.Marks
import Polywan.Daemon.Notifications
import Polywan.Daemon.Pass
import Polywan.Daemon.Reasons
import Polywan.Daemon.Reread
import Polywan.Daemon.Restart
import Polywan.Daemon.Run
import Polywan.Daemon.Silent
import Polywan.Daemon.Uncertain
import Polywan.Discover
import Polywan.Discover.Advertised
import Polywan.Discover.Congr
import Polywan.Discover.Gateway
import Polywan.Discover.Paths
import Polywan.Discover.Sources
import Polywan.Duration
import Polywan.Duration.Grammar
import Polywan.Events
import Polywan.Events.Calendar
import Polywan.Events.Feed
import Polywan.Events.Queue
import Polywan.Health
import Polywan.Health.History
import Polywan.Kernel
import Polywan.Lib.Agree
import Polywan.Lib.BitField
import Polywan.Lib.Bpf
import Polywan.Lib.Calendar
import Polywan.Lib.Checksum
import Polywan.Lib.Collect
import Polywan.Lib.Fold
import Polywan.Lib.Numbered
import Polywan.Lib.Ordered
import Polywan.Lib.Prefix
import Polywan.Lib.Program
import Polywan.Lib.Restrict
import Polywan.Lib.Sum
import Polywan.Lib.Told
import Polywan.Lib.Until
import Polywan.Lib.Walk
import Polywan.Lib.Window
import Polywan.Lib.Words
import Polywan.Mail
import Polywan.Mail.Deadlines
import Polywan.Mail.Deeds
import Polywan.Mail.Life
import Polywan.Mail.Limit
import Polywan.Mail.Oldest
import Polywan.Mail.Removal
import Polywan.Manifest
import Polywan.Mark
import Polywan.Model
import Polywan.Netlink.Attributes
import Polywan.Netlink.Echo
import Polywan.Netlink.Identity
import Polywan.Netlink.Msg
import Polywan.Netlink.Nexthop
import Polywan.Nft
import Polywan.Nft.Assign
import Polywan.Nft.Lifecycle
import Polywan.Nft.Ownership
import Polywan.Observer
import Polywan.Observer.Complete
import Polywan.Observer.Confirm
import Polywan.Observer.Expiry
import Polywan.Persist
import Polywan.Persist.Atomic
import Polywan.Persist.Bindings
import Polywan.Persist.Lane
import Polywan.Persist.Order
import Polywan.Pinning
import Polywan.Plan
import Polywan.Plan.Artifacts
import Polywan.Plan.Members
import Polywan.Plan.Roles
import Polywan.Plan.Without
import Polywan.Probe
import Polywan.Probe.Capacity
import Polywan.Probe.Exchange
import Polywan.Probe.Icmp
import Polywan.Probe.Round
import Polywan.Probe.Rounds
import Polywan.Probe.Statistics
import Polywan.Reconcile
import Polywan.Reconcile.Converge
import Polywan.Reconcile.Diff
import Polywan.Reconcile.Effect
import Polywan.Reconcile.Execute
import Polywan.Reconcile.Families
import Polywan.Reconcile.Handover
import Polywan.Reconcile.Membership
import Polywan.Reconcile.Order
import Polywan.Reconcile.Partial
import Polywan.Reconcile.Pass
import Polywan.Reconcile.Recognise
import Polywan.Reconcile.Tables
import Polywan.Reconcile.Teardown
import Polywan.Reconcile.Withdrawals
import Polywan.Routing
import Polywan.Select
import Polywan.Sysctl
import Polywan.System
import Polywan.System.Replay
