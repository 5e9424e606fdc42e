import Ukv.Store.Head

/-!
Where optimistic validation falls short. A commit stamps its writes with the sequence number
its transaction began with, not with a fresh one, so a transaction that began later sees them
below its own start: its overwrite checks at commit and at read time let them through. Reads
are validated at commit only through `requested_keys`, which no read path fills. A batch write
that fails on an allocation is not undone.
-/
namespace Ukv

def allocOk : Alloc := fun _ => true

def lostUpdateRun : List Op :=
  [.txnBegin 1 0, .txnBegin 2 0, .writeTxn 1 (.single 1 1) allocOk,
    .writeTxn 2 (.single 1 2) allocOk, .txnCommit 1 allocOk]

/-- Transaction 1's commit writes key 1 after transaction 2 began, and transaction 2's commit
    then reports no error and replaces that write. -/
theorem later_commit_overwrites_committed_update :
    (World.init.run (lostUpdateRun.take 4)).db.pairs ⟨0, 1⟩ = none ∧
    ((World.init.run (lostUpdateRun.take 4)).exec (.txnCommit 1 allocOk)).2 = none ∧
    (World.init.run lostUpdateRun).db.pairs ⟨0, 1⟩ = some ⟨[1], 1⟩ ∧
    ((World.init.run lostUpdateRun).exec (.txnCommit 2 allocOk)).2 = none ∧
    ((World.init.run lostUpdateRun).step (.txnCommit 2 allocOk)).db.pairs ⟨0, 1⟩ = some ⟨[2], 2⟩ := by
  decide

def staleReadRun : List Op :=
  [.txnBegin 1 0, .txnBegin 2 0, .writeTxn 1 (.single 1 1) allocOk, .txnCommit 1 allocOk]

/-- Key 1 is absent when transaction 2 begins, yet transaction 2 then reads it without an
    error and gets the byte transaction 1 committed. -/
theorem snapshot_read_sees_later_commit :
    (World.init.run (staleReadRun.take 2)).db.pairs ⟨0, 1⟩ = none ∧
    ((World.init.run staleReadRun).txns 2).newValues.lookup ⟨0, 1⟩ = none ∧
    ukvReadTxn allocOk (fun _ => 0) (World.init.run staleReadRun).db
        ((World.init.run staleReadRun).txns 2) ⟨[1], none, 0⟩ ⟨fun _ => 0, 0⟩ =
      .ok ⟨⟨writeBytes (fun _ => 0) 0 [1], 1⟩, [.arena 0], [1]⟩ := by
  refine ⟨by decide, by decide, rfl⟩

theorem World.step_requestedKeys (w : World) (op : Op) (t : Nat) :
    ((w.step op).txns t).requestedKeys = ∅ ∨ ((w.step op).txns t).requestedKeys = (w.txns t).requestedKeys := by
  cases op with
  | writeHead => exact .inr rfl
  | txnBegin t' hint =>
    by_cases same : t = t'
    · subst same
      left
      simp only [World.step, World.exec, Function.update_same, ukvTxnBegin]
      split <;> rfl
    · exact .inr (by simp only [World.step, World.exec, Function.update_noteq same])
  | writeTxn t' batch alloc =>
    right
    by_cases same : t = t'
    · subst same
      simp only [World.step, World.exec, Function.update_same, ukvWriteTxn]
    · simp only [World.step, World.exec, Function.update_noteq same]
  | txnCommit t' alloc =>
    right
    by_cases same : t = t'
    · subst same
      simp only [World.step, World.exec, Function.update_same]
      rcases ukvTxnCommit_cases alloc w.db (w.txns t) with ⟨_, result⟩ | result <;> rw [result]
    · simp only [World.step, World.exec, Function.update_noteq same]

theorem World.requestedKeys_run : ∀ (ops : List Op) {w : World}, (∀ t, (w.txns t).requestedKeys = ∅) →
    ∀ t, ((w.run ops).txns t).requestedKeys = ∅
  | [], _, empty => empty
  | op :: ops, w, empty =>
    World.requestedKeys_run ops fun t => (w.step_requestedKeys op t).elim id (·.trans (empty t))

def unvalidatedReadRun : List Op :=
  [.writeHead (.single 1 1) allocOk, .txnBegin 1 0]

def overwriteThenWrite : List Op :=
  [.writeHead (.single 1 2) allocOk, .writeTxn 1 (.single 2 3) allocOk]

/-- Reads are not validated at commit: no read path fills `requested_keys`, so after any run
    from a fresh database it is empty. A consistent read of key 1, a HEAD overwrite of key 1 and
    a write of key 2 in the same transaction still commit. -/
theorem commit_ignores_overwritten_read :
    (∀ (ops : List Op) (t : Nat), ((World.init.run ops).txns t).requestedKeys = ∅) ∧
    ukvReadTxn allocOk (fun _ => 0) (World.init.run unvalidatedReadRun).db
        ((World.init.run unvalidatedReadRun).txns 1) ⟨[1], none, consistentK⟩ ⟨fun _ => 0, 0⟩ =
      .ok ⟨⟨writeBytes (fun _ => 0) 0 [1], 1⟩, [.arena 0], [1]⟩ ∧
    (World.init.run (unvalidatedReadRun ++ overwriteThenWrite)).db.view ⟨0, 1⟩ = some [2] ∧
    ((World.init.run (unvalidatedReadRun ++ overwriteThenWrite)).exec (.txnCommit 1 allocOk)).2 = none ∧
    ((World.init.run (unvalidatedReadRun ++ overwriteThenWrite)).step (.txnCommit 1 allocOk)).db.view ⟨0, 2⟩ =
      some [3] :=
  ⟨fun ops => World.requestedKeys_run ops fun _ => rfl, rfl, by decide, by decide, by decide⟩

def twoNewKeysRun : List Op :=
  [.txnBegin 1 0, .writeTxn 1 ⟨⟨[1, 2], none, 0⟩, [[1], [2]], by simp⟩ allocOk]

/-- The reserve step and the first node allocation succeed and the second node allocation
    fails: the commit reports the failure with key 2 already imported and key 1 not. -/
theorem commit_fails_after_partial_import :
    (World.init.run twoNewKeysRun).db.pairs ⟨0, 2⟩ = none ∧
    ((World.init.run twoNewKeysRun).exec (.txnCommit 1 fun n => decide (n < 2))).2 =
      some "std::bad_alloc" ∧
    ((World.init.run twoNewKeysRun).step (.txnCommit 1 fun n => decide (n < 2))).db.pairs ⟨0, 2⟩ =
      some ⟨[2], 1⟩ ∧
    ((World.init.run twoNewKeysRun).step (.txnCommit 1 fun n => decide (n < 2))).db.pairs ⟨0, 1⟩ =
      none := by
  decide

def WriteBatch.twoRows (first second : UInt8) : WriteBatch :=
  ⟨⟨[1, 2], none, 0⟩, [[first], [second]], by simp⟩

/-- A HEAD write whose only allocation fails still takes a sequence number and stamps the existing
    entry with it; a transactional write whose third allocation fails keeps the first row buffered. -/
theorem failed_write_leaves_changes (db : Db) (key : Int) (byte : UInt8) (entry : SequencedValue) (txn : Txn)
    (first second : UInt8) :
    let head := ukvWriteHead (fun _ => false) (db.put ⟨0, key⟩ entry) (.single key byte)
    let buffered := ukvWriteTxn (fun n => decide (n < 2)) { txn with newValues := ∅ } (.twoRows first second)
    head.2 = some "Failed to put!" ∧ head.1.issued = db.issued + 1 ∧
      head.1.pairs ⟨0, key⟩ = some { entry with sequenceNumber := wrap (db.issued + 1) } ∧
      buffered.2 = some "Failed to put into transaction!" ∧ buffered.1.newValues.lookup ⟨0, 1⟩ = some [first] := by
  have head : ukvWriteHead (fun _ => false) (db.put ⟨0, key⟩ entry) (.single key byte) =
      ((db.put ⟨0, key⟩ entry).issue.put ⟨0, key⟩ { entry with sequenceNumber := wrap (db.issued + 1) },
        some "Failed to put!") := by
    simp [ukvWriteHead, WriteBatch.single, WriteBatch.rows, Places.locatedKey, collectionAt, writeHeadLoop,
      writeHeadRow, Db.put_pairs, Db.youngestSequence]
  dsimp only
  rw [head]
  refine ⟨rfl, rfl, by simp [Db.put_pairs], rfl, ?_⟩
  simp [ukvWriteTxn, WriteBatch.twoRows, WriteBatch.rows, Places.locatedKey, collectionAt, writeTxnLoop,
    -AList.insert_empty, AList.lookup_insert]

end Ukv
