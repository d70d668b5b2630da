import DiffKV.Proofs.NotificationOrder
import DiffKV.Proofs.CrashOrder
import DiffKV.Proofs.GcIteration
import DiffKV.Proofs.MissedRecords
import DiffKV.Proofs.RewriteStops
import DiffKV.Proofs.WriteBuffer
import DiffKV.Proofs.WriteStall
import DiffKV.Proofs.Dangling
import DiffKV.Proofs.Discardable
import DiffKV.Proofs.Pinned
import DiffKV.Proofs.GcScheduler
import DiffKV.Proofs.DroppedFamilies
import DiffKV.Proofs.Snapshots
import DiffKV.Proofs.Unopened
import DiffKV.Proofs.RangeInspection
import DiffKV.Proofs.RangeAccounting
import DiffKV.Proofs.ForegroundErrors
import DiffKV.Proofs.KeyRange
import DiffKV.Proofs.BlobDecoder
import DiffKV.Proofs.GcScores
import DiffKV.Proofs.UnsortedFiles
import DiffKV.Proofs.TableAbandon
import DiffKV.Proofs.Scan
import DiffKV.Proofs.Lifetime
import DiffKV.Proofs.SortedRuns
import DiffKV.Proofs.BlobCache
import DiffKV.Proofs.Counters
import DiffKV.Proofs.IterateForPrev
