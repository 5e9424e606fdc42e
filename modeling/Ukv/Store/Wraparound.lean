import Ukv.Store.Txn

/-!
`youngest_sequence` wraps at `INT64_MAX`. The overwrite test compares signed values, yet it
decides the cyclic interval from the transaction's number to the youngest one, so the conflict
checks of the reads and of the commit come out the same when every sequence number is offset
alike.
-/
namespace Ukv

def SequencedValue.shift (d : Int) (entry : SequencedValue) : SequencedValue :=
  { entry with sequenceNumber := wrap (entry.sequenceNumber + d) }

def Db.shift (d : Int) (db : Db) : Db :=
  { db with pairs := fun loc => (db.pairs loc).map (SequencedValue.shift d) }

def Txn.shift (d : Int) (txn : Txn) : Txn :=
  { txn with
    requestedKeys := ⟨txn.requestedKeys.entries.map fun s => ⟨s.1, wrap (s.2 + d)⟩, by
      simpa [List.NodupKeys, List.keys, Function.comp_def] using txn.requestedKeys.nodupKeys⟩
    sequenceNumber := wrap (txn.sequenceNumber + d) }

@[simp] theorem Db.shift_pairs (d : Int) (db : Db) (loc : LocatedKey) :
    (db.shift d).pairs loc = (db.pairs loc).map (SequencedValue.shift d) := rfl

@[simp] theorem Txn.shift_newValues (d : Int) (txn : Txn) : (txn.shift d).newValues = txn.newValues := rfl

@[simp] theorem Txn.shift_sequenceNumber (d : Int) (txn : Txn) :
    (txn.shift d).sequenceNumber = wrap (txn.sequenceNumber + d) := rfl

def Db.SequencesInRange (db : Db) : Prop := ∀ loc entry, db.pairs loc = some entry → InRange entry.sequenceNumber

def Txn.SequencesInRange (txn : Txn) : Prop := InRange txn.sequenceNumber ∧ ∀ s ∈ txn.requestedKeys.entries, InRange s.2

section Shift

variable (d : Int) {db : Db} {txn : Txn} {youngest : Int}

theorem measureTxn_shift (hdb : db.SequencesInRange) (htxn : txn.SequencesInRange) (hy : InRange youngest) :
    ∀ locs, measureTxn (db.shift d) (txn.shift d) (wrap (youngest + d)) locs = measureTxn db txn youngest locs
  | [] => rfl
  | loc :: locs => by
    have rest := measureTxn_shift hdb htxn hy locs
    simp only [measureTxn, Txn.shift_newValues, Db.shift_pairs]
    cases txn.newValues.lookup loc with
    | some value => simp only [rest]
    | none =>
      cases found : db.pairs loc with
      | none => simp only [Option.map_none', rest]
      | some entry =>
        simp only [Option.map_some', SequencedValue.shift, Txn.shift_sequenceNumber,
          entryWasOverwritten_shift (hdb loc entry found) htxn.1 hy, rest]

theorem txnTotal_shift (hdb : db.SequencesInRange) (htxn : txn.SequencesInRange) (hy : InRange youngest) :
    ∀ locs, txnTotal (db.shift d) (txn.shift d) (wrap (youngest + d)) locs = txnTotal db txn youngest locs
  | [] => rfl
  | loc :: locs => by
    have rest := txnTotal_shift hdb htxn hy locs
    simp only [txnTotal, Txn.shift_newValues, Db.shift_pairs]
    cases txn.newValues.lookup loc with
    | some value => exact rest
    | none =>
      cases found : db.pairs loc with
      | none => exact rest
      | some entry =>
        simp only [Option.map_some', SequencedValue.shift, Txn.shift_sequenceNumber,
          entryWasOverwritten_shift (hdb loc entry found) htxn.1 hy, rest]

theorem findSome?_congr {α β : Type} {f g : α → Option β} :
    ∀ {l : List α}, (∀ a ∈ l, f a = g a) → l.findSome? f = l.findSome? g
  | [], _ => rfl
  | a :: l, same => by
    simp only [List.findSome?, same a (List.mem_cons_self _ _),
      findSome?_congr fun b member => same b (List.mem_cons_of_mem _ member)]

theorem requestedConflicts_shift (hdb : db.SequencesInRange) (htxn : txn.SequencesInRange) :
    (txn.shift d).requestedKeys.entries.findSome? (requestedConflict (db.shift d)) =
      txn.requestedKeys.entries.findSome? (requestedConflict db) := by
  rw [Txn.shift, List.findSome?_map]
  refine findSome?_congr fun s member => ?_
  simp only [Function.comp_apply, requestedConflict, Db.shift_pairs]
  cases found : db.pairs s.1 with
  | none => rfl
  | some entry =>
    simp only [Option.map_some', SequencedValue.shift, ne_eq,
      wrap_add_inj (hdb s.1 entry found) (htxn.2 s member)]

theorem incomingConflicts_shift (hdb : db.SequencesInRange) (htxn : txn.SequencesInRange)
    (hy : InRange youngest) :
    (txn.shift d).newValues.entries.findSome?
        (incomingConflict (db.shift d) (txn.shift d).sequenceNumber (wrap (youngest + d))) =
      txn.newValues.entries.findSome? (incomingConflict db txn.sequenceNumber youngest) := by
  refine findSome?_congr fun incoming _ => ?_
  simp only [incomingConflict, Db.shift_pairs, Txn.shift_sequenceNumber]
  cases found : db.pairs incoming.1 with
  | none => rfl
  | some entry =>
    simp only [Option.map_some', SequencedValue.shift, wrap_add_inj (hdb incoming.1 entry found) htxn.1,
      entryWasOverwritten_shift (hdb incoming.1 entry found) htxn.1 hy]

end Shift

/-- For 64-bit sequence numbers, `entry_was_overwritten e t y` holds exactly when `e` lies on the
    cyclic interval from `t` to `y`; so offsetting every sequence number of the database and of a
    transaction alike, with the wrap of `++`, leaves every conflict check of `_ukv_measure_txn`,
    of `_ukv_read_txn`'s sizing pass and of `ukv_txn_commit`'s validation as it was. -/
theorem entry_was_overwritten_on_cyclic_interval :
    (∀ e t y : Int, InRange e → InRange t → InRange y →
      (entryWasOverwritten e t y = true ↔ (e - t) % 2 ^ 64 ≤ (y - t) % 2 ^ 64)) ∧
    ∀ (d : Int) (db : Db) (txn : Txn) (youngest : Int), db.SequencesInRange → txn.SequencesInRange →
      InRange youngest →
      (∀ locs, measureTxn (db.shift d) (txn.shift d) (wrap (youngest + d)) locs = measureTxn db txn youngest locs) ∧
      (∀ locs, txnTotal (db.shift d) (txn.shift d) (wrap (youngest + d)) locs = txnTotal db txn youngest locs) ∧
      (txn.shift d).requestedKeys.entries.findSome? (requestedConflict (db.shift d)) =
        txn.requestedKeys.entries.findSome? (requestedConflict db) ∧
      (txn.shift d).newValues.entries.findSome?
          (incomingConflict (db.shift d) (txn.shift d).sequenceNumber (wrap (youngest + d))) =
        txn.newValues.entries.findSome? (incomingConflict db txn.sequenceNumber youngest) :=
  ⟨fun _ _ _ => entryWasOverwritten_iff_emod, fun d _ _ _ hdb htxn hy =>
    ⟨measureTxn_shift d hdb htxn hy, txnTotal_shift d hdb htxn hy, requestedConflicts_shift d hdb htxn,
      incomingConflicts_shift d hdb htxn hy⟩⟩

end Ukv
