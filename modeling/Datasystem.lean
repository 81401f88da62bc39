import Datasystem.Client.HashRingRefresher
import Datasystem.Cluster.EpochHistory
import Datasystem.Cluster.ExecutorBooking
import Datasystem.Cluster.FailureConfirmation
import Datasystem.Cluster.MembershipConvergence
import Datasystem.Cluster.MembershipValueCodec
import Datasystem.Cluster.SnapshotPublication
import Datasystem.Cluster.TaskStorage
import Datasystem.Coordinator.RecoverySafety
import Datasystem.Coordinator.StoreBackend
import Datasystem.Coordinator.StoreHistory
import Datasystem.Coordinator.TtlSystem
import Datasystem.Coordinator.WatchDelivery
import Datasystem.Master.CacheInvalidation
import Datasystem.Master.DeleteMarks
import Datasystem.Master.FailedCreate
import Datasystem.Master.HandoffSafety
import Datasystem.Master.HeavyOps
import Datasystem.Master.MetaPush
import Datasystem.Master.NestedRecovery
import Datasystem.Master.SubscriptionSafety
import Datasystem.Stream.SharedMemoryLocks
import Datasystem.Worker.DataLimiter
import Datasystem.Worker.EvictionList
import Datasystem.Worker.ForceEviction
import Datasystem.Worker.PolicyUpdate
