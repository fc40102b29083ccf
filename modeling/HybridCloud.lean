import HybridCloud.BLink.Proofs.RangeInvariant
import HybridCloud.BufferPool.Proofs.IdleEvictable
import HybridCloud.BufferPool.Proofs.OwnerCurrency
import HybridCloud.Dtx.ChainWalk
import HybridCloud.Dtx.WaitHistogram
import HybridCloud.Dtx.WorkloadCommit
import HybridCloud.LazyRelease.Proofs.LockCallsProofs
import HybridCloud.Logging.Proofs.PageChain
import HybridCloud.Sql.Planner
import HybridCloud.Sql.Proofs.Atomicity
import HybridCloud.Storage.Bitmap
import HybridCloud.Storage.Catalog
import HybridCloud.Storage.PageWait
import HybridCloud.Storage.Proofs.CreatePageProofs
import HybridCloud.Storage.Proofs.TableFilesProofs
import HybridCloud.Storage.Proofs.WriteBackProofs
import HybridCloud.Storage.RedoLayout
import HybridCloud.Storage.WalRepair
import HybridCloud.TwoPC.Proofs.NotifiedPrepare
