import SaltOperator.Lib.Prog
import SaltOperator.Lib.System
import SaltOperator.Lib.Relational
import SaltOperator.Lib.Runs
import SaltOperator.Lib.Interrupted
import SaltOperator.Lib.Simulation
import SaltOperator.Lib.MergePatch
import SaltOperator.Lib.Changes
import SaltOperator.Lib.Lines
import SaltOperator.Lib.Convergence
import SaltOperator.Go.Text
import SaltOperator.Go.Duration
import SaltOperator.Go.DurationText
import SaltOperator.Api.Json
import SaltOperator.Api.SaltKeyConfig
import SaltOperator.Api.VirtualMachine
import SaltOperator.Runtime
import SaltOperator.Salt.Matcher
import SaltOperator.Salt.Client
import SaltOperator.Salt.Http
import SaltOperator.Controller.Effects
import SaltOperator.Controller.Connection
import SaltOperator.Controller.SaltKeyConfig
import SaltOperator.Controller.Enrolment
import SaltOperator.Controller.VirtualMachine
import SaltOperator.Controller.KeyAcceptance
import SaltOperator.Controller.Chain
import SaltOperator.Controller.Reconcile
import SaltOperator.Controller.UpdateFilter
import SaltOperator.Cluster.World
import SaltOperator.Cluster.Contract
import SaltOperator.Cluster.Alone
import SaltOperator.Cluster.Quiet
import SaltOperator.Cluster.PassRules
import SaltOperator.Cluster.ChainPasses
import SaltOperator.Cluster.Passes
import SaltOperator.Cluster.Sound
import SaltOperator.Cluster.Walk
import SaltOperator.Cluster.Induction
import SaltOperator.Cluster.Lifecycle
import SaltOperator.Cluster.KeyState
import SaltOperator.Cluster.AlonePass
import SaltOperator.Cluster.AloneChain
import SaltOperator.Cluster.Place
import SaltOperator.Cluster.Run
import SaltOperator.Properties.StatusAnnotations
import SaltOperator.Properties.Finalizer
import SaltOperator.Properties.Requeue
import SaltOperator.Properties.Retry
import SaltOperator.Properties.Acceptance
import SaltOperator.Properties.MinionIDs
import SaltOperator.Properties.Pillar
import SaltOperator.Properties.ChainStarts
import SaltOperator.Properties.KeyStatus
import SaltOperator.Properties.PreseedKeys
import SaltOperator.Properties.Deletion
import SaltOperator.Properties.Reconvergence
import SaltOperator.Properties.BulkRetry
import SaltOperator.Properties.Schedule
import SaltOperator.Properties.Wakeups
import SaltOperator.Properties.Matching
import SaltOperator.Properties.Intent
import SaltOperator.Properties.Envelopes
import SaltOperator.Properties.HighstateReports
import SaltOperator.Properties.TenantAnnotations
import SaltOperator.Properties.Enrolment
import SaltOperator.Properties.Finalization
import SaltOperator.Properties.Endpoints
import SaltOperator.Properties.KeySecrecy
import SaltOperator.Properties.Configs
import SaltOperator.Properties.Admission
import SaltOperator.Properties.Scavenging
import SaltOperator.Properties.UpdateFilter
import SaltOperator.Cluster.Scavenged
import SaltOperator.Properties.ScavengeRace
import SaltOperator.Properties.ScavengeApart
import SaltOperator.Lib.Lowering
import SaltOperator.Lib.Count
import SaltOperator.Salt.RaaSClient
import SaltOperator.Salt.Requests
import SaltOperator.Cluster.OverHttp
import SaltOperator.Properties.Requests
import SaltOperator.Properties.OneChange
import SaltOperator.Lib.ObjectStore
import SaltOperator.Lib.Play
import SaltOperator.Controller.ConfigReconcile
import SaltOperator.Controller.ConfigVerdict
import SaltOperator.Cluster.Configs
import SaltOperator.Properties.ConfigStatus
import SaltOperator.Properties.ConfigRest
import SaltOperator.Properties.KeyExposure
