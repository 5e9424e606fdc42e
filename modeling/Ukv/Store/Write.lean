import Ukv.Store.Basic

/-!
Batch writes. `_ukv_write_head` stamps each row with a fresh `++youngest_sequence`;
`_ukv_write_txn` buffers each row in the transaction. Both catch an allocation failure,
report it and break, so the rows before the failing one stay applied.
-/
namespace Ukv

def Db.view (db : Db) (loc : LocatedKey) : Option Bytes := (db.pairs loc).map SequencedValue.data

/-- One pass of `_ukv_write_head`'s loop body, `n` allocations into the call: the database,
    the allocations made, and whether the row completed. An existing entry is stamped before
    its bytes are assigned; a new entry's bytes are copied before the increment and its node
    is allocated after it. -/
def writeHeadRow (alloc : Alloc) (n : Nat) (db : Db) (loc : LocatedKey) (value : Bytes) :
    Db × Nat × Bool :=
  match db.pairs loc with
  | some entry =>
    let db := db.issue
    if alloc n then (db.put loc ⟨value, db.youngestSequence⟩, n + 1, true)
    else (db.put loc { entry with sequenceNumber := db.youngestSequence }, n + 1, false)
  | none =>
    if alloc n then
      let db := db.issue
      if alloc (n + 1) then (db.put loc ⟨value, db.youngestSequence⟩, n + 2, true)
      else (db, n + 2, false)
    else (db, n + 1, false)

/-- The loop of `_ukv_write_head` over its rows. Besides the database and the error it
    returns the loop index at exit: the number of rows completed. -/
def writeHeadLoop (alloc : Alloc) (n : Nat) (db : Db) :
    List (LocatedKey × Bytes) → Db × Nat × Option String
  | [] => (db, 0, none)
  | (loc, value) :: rows =>
    match writeHeadRow alloc n db loc value with
    | (db, n, true) =>
      let rest := writeHeadLoop alloc n db rows
      (rest.1, rest.2.1 + 1, rest.2.2)
    | (db, _, false) => (db, 0, some "Failed to put!")

def ukvWriteHead (alloc : Alloc) (db : Db) (batch : WriteBatch) : Db × Option String :=
  let result := writeHeadLoop alloc 0 db batch.rows
  (result.1, result.2.2)

/-- The loop of `_ukv_write_txn`: a row copies its bytes, and `insert_or_assign` allocates a
    node when the key is new to the transaction. -/
def writeTxnLoop (alloc : Alloc) (n : Nat) (values : AList (fun _ : LocatedKey => Bytes)) :
    List (LocatedKey × Bytes) → AList (fun _ : LocatedKey => Bytes) × Option String
  | [] => (values, none)
  | (loc, value) :: rows =>
    if alloc n then
      if loc ∈ values then writeTxnLoop alloc (n + 1) (values.insert loc value) rows
      else if alloc (n + 1) then writeTxnLoop alloc (n + 2) (values.insert loc value) rows
      else (values, some "Failed to put into transaction!")
    else (values, some "Failed to put into transaction!")

def ukvWriteTxn (alloc : Alloc) (txn : Txn) (batch : WriteBatch) : Txn × Option String :=
  let result := writeTxnLoop alloc 0 txn.newValues batch.rows
  ({ txn with newValues := result.1 }, result.2)

theorem writeHeadRow_cases (alloc : Alloc) (n : Nat) (db : Db) (loc : LocatedKey) (value : Bytes) :
    (writeHeadRow alloc n db loc value).1 = db ∨ (writeHeadRow alloc n db loc value).1 = db.issue ∨
      ∃ data, (data = value ∨ db.view loc = some data) ∧
        (writeHeadRow alloc n db loc value).1 = db.issue.put loc ⟨data, db.issue.youngestSequence⟩ := by
  cases h : db.pairs loc with
  | none =>
    simp only [writeHeadRow, h]
    split
    · split
      · exact .inr (.inr ⟨value, .inl rfl, rfl⟩)
      · exact .inr (.inl rfl)
    · exact .inl rfl
  | some entry =>
    simp only [writeHeadRow, h]
    split
    · exact .inr (.inr ⟨value, .inl rfl, rfl⟩)
    · exact .inr (.inr ⟨entry.data, .inr (by simp [Db.view, h]), rfl⟩)

end Ukv
