import Ukv.Sequence
import Ukv.Memory
import Ukv.Store.Basic
import Ukv.Store.Write
import Ukv.Store.Read
import Ukv.Store.Txn
import Ukv.Store.Run
import Ukv.Store.Head
import Ukv.Store.Conflicts
import Ukv.Store.Commit
import Ukv.Store.Isolation
import Ukv.Paths.Bucket
import Ukv.Paths.Update
import Ukv.Paths.Batch
import Ukv.Paths.Match
import Ukv.Paths.Upserts
import Ukv.Paths.ScanLoop
import Ukv.Paths.Reads
import Ukv.Paths.Remove
import Ukv.Paths.Refinement
import Ukv.Paths.Measure
import Ukv.Store.Wraparound
import Ukv.Store.Passes
import Ukv.Store.OwnWrites
import Ukv.Store.Snapshot
import Ukv.Store.Options
