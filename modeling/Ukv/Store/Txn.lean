import Ukv.Store.Read

/-!
Transactions. `ukv_txn_begin` takes the hint, or a fresh `++youngest_sequence` when the hint
is 0. `ukv_txn_commit` validates the recorded reads, then the buffered writes, reserves room
in every collection and imports the writes, stamping each with the transaction's own
sequence number. A failing check returns before anything is written; the import's node
allocations are outside any `try`.
-/
namespace Ukv

abbrev Buffer := AList (fun _ : LocatedKey => Bytes)

/-- `ukv_txn_begin` on an existing handle. The `size_t` hint becomes a `ssize_t`. -/
def ukvTxnBegin (db : Db) (hint : UInt64) : Db × Txn :=
  if hint ≠ 0 then (db, ⟨∅, ∅, wrap hint.toNat⟩)
  else (db.issue, ⟨∅, ∅, db.issue.youngestSequence⟩)

def requestedConflict (db : Db) (requested : Σ _ : LocatedKey, Int) : Option String :=
  match db.pairs requested.1 with
  | some entry => if entry.sequenceNumber ≠ requested.2 then some overwrittenMessage else none
  | none => none

def incomingConflict (db : Db) (sequence youngest : Int) (incoming : Σ _ : LocatedKey, Bytes) :
    Option String :=
  match db.pairs incoming.1 with
  | some entry =>
    if entry.sequenceNumber = sequence then some "Can't commit same entry more than once!"
    else if entryWasOverwritten entry.sequenceNumber sequence youngest then
      some "Incoming key collides with newer entry!"
    else none
  | none => none

/-- Step 4 of `ukv_txn_commit` from allocation `n`. An existing entry takes the buffered bytes
    and the transaction's sequence number while the buffer receives the old bytes; a new key
    moves its bytes into a node, and a failing node allocation escapes as `std::bad_alloc`. -/
def importValues (alloc : Alloc) (sequence : Int) (n : Nat) (db : Db) (buffer : Buffer) :
    List (Σ _ : LocatedKey, Bytes) → Db × Buffer × Option String
  | [] => (db, buffer, none)
  | ⟨loc, value⟩ :: rest =>
    match db.pairs loc with
    | some entry =>
      importValues alloc sequence n (db.put loc ⟨value, sequence⟩) (buffer.insert loc entry.data) rest
    | none =>
      if alloc n then
        importValues alloc sequence (n + 1) (db.put loc ⟨value, sequence⟩) (buffer.insert loc []) rest
      else (db, buffer.insert loc [], some "std::bad_alloc")

/-- `ukv_txn_commit`. Step 3 reserves in `db.unnamed` and then in every named collection,
    one allocation each. -/
def ukvTxnCommit (alloc : Alloc) (db : Db) (txn : Txn) : Db × Txn × Option String :=
  let youngest := db.youngestSequence
  match txn.requestedKeys.entries.findSome? (requestedConflict db) with
  | some error => (db, txn, some error)
  | none =>
    match txn.newValues.entries.findSome? (incomingConflict db txn.sequenceNumber youngest) with
    | some error => (db, txn, some error)
    | none =>
      if (List.range (db.named.length + 1)).all alloc then
        let imported := importValues alloc txn.sequenceNumber (db.named.length + 1) db
          txn.newValues txn.newValues.entries
        (imported.1, { txn with newValues := imported.2.1 }, imported.2.2)
      else (db, txn, some "Not enough memory!")

theorem ukvTxnCommit_cases (alloc : Alloc) (db : Db) (txn : Txn) :
    (∃ error, ukvTxnCommit alloc db txn = (db, txn, some error)) ∨
      ukvTxnCommit alloc db txn =
        let imported := importValues alloc txn.sequenceNumber (db.named.length + 1) db
          txn.newValues txn.newValues.entries
        (imported.1, { txn with newValues := imported.2.1 }, imported.2.2) := by
  dsimp only [ukvTxnCommit]
  split
  · exact .inl ⟨_, rfl⟩
  · split
    · exact .inl ⟨_, rfl⟩
    · split
      · exact .inr rfl
      · exact .inl ⟨_, rfl⟩

theorem ukvTxnCommit_of_requested_error {alloc : Alloc} {db : Db} {txn : Txn} {error : String}
    (stale : txn.requestedKeys.entries.findSome? (requestedConflict db) = some error) :
    ukvTxnCommit alloc db txn = (db, txn, some error) := by
  simp [ukvTxnCommit, stale]

theorem ukvTxnCommit_of_incoming_error {alloc : Alloc} {db : Db} {txn : Txn} {error : String}
    (fresh : txn.requestedKeys.entries.findSome? (requestedConflict db) = none)
    (collides : txn.newValues.entries.findSome?
      (incomingConflict db txn.sequenceNumber db.youngestSequence) = some error) :
    ukvTxnCommit alloc db txn = (db, txn, some error) := by
  simp [ukvTxnCommit, fresh, collides]

end Ukv
