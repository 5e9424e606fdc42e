import Mathlib.Data.List.AList
import Ukv.Sequence
import Ukv.Memory

/-!
The in-memory store of `ukv_stl_embedded.cpp`. A collection handle is a number, 0 being the
null handle that `collection_at` resolves to `db.unnamed`; an entry is addressed by its
resolved collection and key. `youngest_sequence` starts at 0 and changes only by `++`, so it
is kept as the count of increments and read through `wrap`.
-/
namespace Ukv

structure LocatedKey where
  collection : Nat
  key : Int
  deriving DecidableEq, Repr

structure SequencedValue where
  data : Bytes
  sequenceNumber : Int
  deriving DecidableEq, Repr

/-- `db_t`: the entries of `unnamed` and of every named collection, the handles of the named
    collections in `named`'s iteration order, and the number of `++youngest_sequence` so far. -/
structure Db where
  pairs : LocatedKey → Option SequencedValue
  named : List Nat
  issued : Nat

namespace Db

def youngestSequence (db : Db) : Int := wrap db.issued

def issue (db : Db) : Db := { db with issued := db.issued + 1 }

def put (db : Db) (loc : LocatedKey) (entry : SequencedValue) : Db :=
  { db with pairs := Function.update db.pairs loc (some entry) }

@[simp] theorem issue_pairs (db : Db) : db.issue.pairs = db.pairs := rfl
@[simp] theorem issue_named (db : Db) : db.issue.named = db.named := rfl
@[simp] theorem issue_issued (db : Db) : db.issue.issued = db.issued + 1 := rfl
@[simp] theorem put_issued (db : Db) loc e : (db.put loc e).issued = db.issued := rfl
@[simp] theorem put_named (db : Db) loc e : (db.put loc e).named = db.named := rfl

theorem put_pairs (db : Db) (loc loc' : LocatedKey) (e : SequencedValue) :
    (db.put loc e).pairs loc' = if loc' = loc then some e else db.pairs loc' := by
  simp [put, Function.update_apply]

end Db

def Db.empty : Db := ⟨fun _ => none, [], 0⟩

/-- `txn_t`: the keys read with the sequence seen, the buffered writes, and the sequence
    number taken at `ukv_txn_begin`. The maps are `AList`s; their entry order stands for the
    unspecified iteration order of `std::unordered_map`. -/
structure Txn where
  requestedKeys : AList (fun _ : LocatedKey => Int)
  newValues : AList (fun _ : LocatedKey => Bytes)
  sequenceNumber : Int

def Txn.empty : Txn := ⟨∅, ∅, 0⟩

def consistentK : UInt64 := (1 : UInt64) <<< 0
def colocatedK : UInt64 := (1 : UInt64) <<< 1
/-- `collection_at`: a null array or a null handle is `db.unnamed`; under `colocated_k`
    every row takes row 0's handle. -/
def collectionAt (collections : Option (List Nat)) (i : Nat) (options : UInt64) : Nat :=
  match collections with
  | none => 0
  | some handles => handles.getD (if options &&& colocatedK ≠ 0 then 0 else i) 0

structure Places where
  keys : List Int
  collections : Option (List Nat)
  options : UInt64

namespace Places

def locatedKey (places : Places) (i : Nat) : LocatedKey :=
  ⟨collectionAt places.collections i places.options, places.keys.getD i 0⟩

def located (places : Places) : List LocatedKey :=
  (List.range places.keys.length).map places.locatedKey

@[simp] theorem located_length (places : Places) : places.located.length = places.keys.length := by
  simp [located]

end Places

/-- A write batch: the places and, per row, the bytes `[c_values[i], c_values[i] + c_lengths[i])`.
    A length is a `ukv_val_len_t`, an unsigned 32-bit word. -/
structure WriteBatch extends Places where
  values : List Bytes
  lengths_fit : ∀ v ∈ values, v.length < 2 ^ 32

def WriteBatch.rows (batch : WriteBatch) : List (LocatedKey × Bytes) :=
  (List.range batch.keys.length).map fun i => (batch.locatedKey i, batch.values.getD i [])

theorem WriteBatch.rows_fit (batch : WriteBatch) : ∀ row ∈ batch.rows, row.2.length < 2 ^ 32 := by
  intro row member
  simp only [WriteBatch.rows, List.mem_map, List.mem_range] at member
  obtain ⟨i, _, rfl⟩ := member
  simp only [List.getD_eq_getElem?_getD]
  cases h : batch.values[i]? with
  | none => simp
  | some v => exact batch.lengths_fit v (List.getElem?_mem h)

/-- Allocation outcomes of one call: its `n`-th allocation succeeds iff `alloc n`; a failing
    one throws `std::bad_alloc`. -/
abbrev Alloc := Nat → Bool

end Ukv
