import Ukv.Store.Write

/-!
Batch reads. The measure paths report lengths only. The full paths size the found rows in a
first pass, replace the export arena when it is too small, and copy the rows into it in a
second pass. The transactional paths answer a row buffered in the transaction from the
buffer and check every other found row against the overwrite interval.
-/
namespace Ukv

structure Arena where
  tape : Mem
  length : Nat

inductive ValPtr
  | null
  | arena (offset : Nat)
  | buffered (loc : LocatedKey)
  deriving DecidableEq, Repr

/-- The outputs of a full read: the arena and, per row, `c_values[i]` and `c_lengths[i]`. -/
structure Exported where
  arena : Arena
  values : List ValPtr
  lengths : List Nat

def valLen (len : Nat) : Nat := len % 2 ^ 32

def overwrittenMessage : String :=
  "Requested key was already overwritten since the start of the transaction!"

def ukvMeasureHead (db : Db) (places : Places) : List Nat :=
  places.located.map fun loc =>
    match db.pairs loc with
    | some entry => valLen entry.data.length
    | none => 0

def headTotal (db : Db) : List LocatedKey → Nat
  | [] => 0
  | loc :: locs =>
    match db.pairs loc with
    | some entry => entry.data.length + headTotal db locs
    | none => headTotal db locs

/-- Step 2 of both full reads: a fresh allocation of `total` bytes replaces the arena when
    `grow` holds. -/
def reserveArena (alloc : Alloc) (fresh : Mem) (arena : Arena) (grow : Bool) (total : Nat) :
    Except String Arena :=
  if grow then
    if alloc 0 then .ok ⟨fresh, total⟩ else .error "Failed to allocate memory for exports!"
  else .ok arena

def exportHead (db : Db) (tape : Mem) (offset : Nat) :
    List LocatedKey → Mem × List ValPtr × List Nat
  | [] => (tape, [], [])
  | loc :: locs =>
    match db.pairs loc with
    | some entry =>
      let rest := exportHead db (writeBytes tape offset entry.data)
        (offset + entry.data.length) locs
      (rest.1, .arena offset :: rest.2.1, valLen entry.data.length :: rest.2.2)
    | none =>
      let rest := exportHead db tape offset locs
      (rest.1, .null :: rest.2.1, 0 :: rest.2.2)

def ukvReadHead (alloc : Alloc) (fresh : Mem) (db : Db) (places : Places) (arena : Arena) :
    Except String Exported := do
  let total := headTotal db places.located
  let arena ← reserveArena alloc fresh arena (decide (total > arena.length)) total
  let out := exportHead db arena.tape 0 places.located
  return ⟨⟨out.1, arena.length⟩, out.2.1, out.2.2⟩

/-- `_ukv_measure_txn`, against `youngest_sequence` as loaded at its start. -/
def measureTxn (db : Db) (txn : Txn) (youngest : Int) : List LocatedKey → Except String (List Nat)
  | [] => .ok []
  | loc :: locs =>
    match txn.newValues.lookup loc with
    | some value => (measureTxn db txn youngest locs).map (valLen value.length :: ·)
    | none =>
      match db.pairs loc with
      | some entry =>
        if entryWasOverwritten entry.sequenceNumber txn.sequenceNumber youngest then
          .error overwrittenMessage
        else (measureTxn db txn youngest locs).map (valLen entry.data.length :: ·)
      | none => (measureTxn db txn youngest locs).map (0 :: ·)

def ukvMeasureTxn (db : Db) (txn : Txn) (places : Places) : Except String (List Nat) :=
  measureTxn db txn db.youngestSequence places.located

def txnTotal (db : Db) (txn : Txn) (youngest : Int) : List LocatedKey → Except String Nat
  | [] => .ok 0
  | loc :: locs =>
    match txn.newValues.lookup loc with
    | some _ => txnTotal db txn youngest locs
    | none =>
      match db.pairs loc with
      | some entry =>
        if entryWasOverwritten entry.sequenceNumber txn.sequenceNumber youngest then
          .error overwrittenMessage
        else (txnTotal db txn youngest locs).map (entry.data.length + ·)
      | none => txnTotal db txn youngest locs

def exportTxn (db : Db) (txn : Txn) (tape : Mem) (offset : Nat) :
    List LocatedKey → Mem × List ValPtr × List Nat
  | [] => (tape, [], [])
  | loc :: locs =>
    match txn.newValues.lookup loc with
    | some value =>
      let rest := exportTxn db txn tape offset locs
      (rest.1, .buffered loc :: rest.2.1, valLen value.length :: rest.2.2)
    | none =>
      match db.pairs loc with
      | some entry =>
        let rest := exportTxn db txn (writeBytes tape offset entry.data)
          (offset + entry.data.length) locs
        (rest.1, .arena offset :: rest.2.1, valLen entry.data.length :: rest.2.2)
      | none =>
        let rest := exportTxn db txn tape offset locs
        (rest.1, .null :: rest.2.1, 0 :: rest.2.2)

def ukvReadTxn (alloc : Alloc) (fresh : Mem) (db : Db) (txn : Txn) (places : Places)
    (arena : Arena) : Except String Exported := do
  let total ← txnTotal db txn db.youngestSequence places.located
  let arena ← reserveArena alloc fresh arena (decide (total ≥ arena.length)) total
  let out := exportTxn db txn arena.tape 0 places.located
  return ⟨⟨out.1, arena.length⟩, out.2.1, out.2.2⟩

inductive ReadResult
  | measured (lengths : List Nat)
  | exported (out : Exported)

/-- `ukv_read`: `values` says whether `c_values` is non-null. -/
def ukvRead (alloc : Alloc) (fresh : Mem) (db : Db) (txn : Option Txn) (places : Places)
    (arena : Arena) (values : Bool) : Except String ReadResult :=
  match values, txn with
  | false, some txn => (ukvMeasureTxn db txn places).map .measured
  | false, none => .ok (.measured (ukvMeasureHead db places))
  | true, some txn => (ukvReadTxn alloc fresh db txn places arena).map .exported
  | true, none => (ukvReadHead alloc fresh db places arena).map .exported

def Exported.bytes (out : Exported) (txn : Txn) (i : Nat) : Option Bytes :=
  match out.values.getD i .null with
  | .null => none
  | .arena offset => some (readBytes out.arena.tape offset (out.lengths.getD i 0))
  | .buffered loc => (txn.newValues.lookup loc).map (·.take (out.lengths.getD i 0))

theorem exportHead_length (db : Db) (locs : List LocatedKey) :
    ∀ tape offset, (exportHead db tape offset locs).2.1.length = locs.length ∧
      (exportHead db tape offset locs).2.2.length = locs.length := by
  induction locs with
  | nil => intro _ _; simp [exportHead]
  | cons loc locs ih =>
    intro tape offset
    simp only [exportHead]
    split <;> simp [ih]

end Ukv
