import Ukv.Store.Head

/-!
The read paths against each other. With `c_values` null `ukv_read` only measures; otherwise it
sizes the found rows in a first pass and copies them in a second. The measure path fails exactly
when the sizing pass does and reports the lengths the copy pass reports, and the copy pass copies
exactly the rows the sizing pass counted, one after another from offset 0. A HEAD read is a read
in a transaction that buffers nothing.
-/
namespace Ukv

theorem except_map_eq_error {ε α β : Type} {f : α → β} {x : Except ε α} {e : ε} :
    x.map f = .error e ↔ x = .error e := by
  cases x <;> simp [Except.map]

theorem except_map_eq_ok {ε α β : Type} {f : α → β} {x : Except ε α} {b : β} :
    x.map f = .ok b ↔ ∃ a, x = .ok a ∧ f a = b := by
  cases x <;> simp [Except.map]

section Passes

variable (db : Db) (txn : Txn) (youngest : Int)

theorem measureTxn_eq_error_iff : ∀ (locs : List LocatedKey) (error : String),
    measureTxn db txn youngest locs = .error error ↔ txnTotal db txn youngest locs = .error error
  | [], _ => by simp [measureTxn, txnTotal]
  | loc :: locs, error => by
    have rest := measureTxn_eq_error_iff locs error
    rcases buffered : txn.newValues.lookup loc with _ | value <;> rcases found : db.pairs loc with _ | entry <;>
      simp only [measureTxn, txnTotal, buffered, found, except_map_eq_error, rest]
    split <;> simp only [Except.error.injEq, except_map_eq_error, rest]

theorem measureTxn_of_txnTotal : ∀ (locs : List LocatedKey) (total : Nat) (tape : Mem) (offset : Nat),
    txnTotal db txn youngest locs = .ok total →
      measureTxn db txn youngest locs = .ok (exportTxn db txn tape offset locs).2.2
  | [], _, _, _, _ => rfl
  | loc :: locs, total, tape, offset, sized => by
    rcases buffered : txn.newValues.lookup loc with _ | value <;> rcases found : db.pairs loc with _ | entry <;>
      simp only [txnTotal, buffered, found] at sized <;> simp only [measureTxn, exportTxn, buffered, found]
    · rw [measureTxn_of_txnTotal locs total tape offset sized]; rfl
    · split at sized
      · cases sized
      · next fresh =>
        cases sizedRest : txnTotal db txn youngest locs with
        | error e => rw [sizedRest] at sized; cases sized
        | ok rest => rw [if_neg fresh, measureTxn_of_txnTotal locs rest _ _ sizedRest]; rfl
    all_goals rw [measureTxn_of_txnTotal locs total tape offset sized]; rfl

end Passes

theorem exportHead_lengths (db : Db) : ∀ (locs : List LocatedKey) (tape : Mem) (offset : Nat),
    (exportHead db tape offset locs).2.2 =
      locs.map fun loc => match db.pairs loc with
        | some entry => valLen entry.data.length
        | none => 0
  | [], _, _ => rfl
  | loc :: locs, tape, offset => by
    simp only [exportHead, List.map_cons]
    cases db.pairs loc <;> simp only [exportHead_lengths]

theorem ukvReadHead_eq_ok {alloc : Alloc} {fresh : Mem} {db : Db} {places : Places} {arena : Arena}
    {out : Exported} (read : ukvReadHead alloc fresh db places arena = .ok out) :
    ∃ grown, reserveArena alloc fresh arena (decide (headTotal db places.located > arena.length))
        (headTotal db places.located) = .ok grown ∧
      out = ⟨⟨(exportHead db grown.tape 0 places.located).1, grown.length⟩,
        (exportHead db grown.tape 0 places.located).2.1, (exportHead db grown.tape 0 places.located).2.2⟩ := by
  simp only [ukvReadHead] at read
  cases reserve : reserveArena alloc fresh arena
      (decide (headTotal db places.located > arena.length)) (headTotal db places.located) with
  | error _ => simp [reserve] at read
  | ok grown => simp only [reserve] at read; cases read; exact ⟨grown, rfl, rfl⟩

theorem ukvReadTxn_eq_ok {alloc : Alloc} {fresh : Mem} {db : Db} {txn : Txn} {places : Places}
    {arena : Arena} {out : Exported} (read : ukvReadTxn alloc fresh db txn places arena = .ok out) :
    ∃ total grown, txnTotal db txn db.youngestSequence places.located = .ok total ∧
      reserveArena alloc fresh arena (decide (total ≥ arena.length)) total = .ok grown ∧
      out = ⟨⟨(exportTxn db txn grown.tape 0 places.located).1, grown.length⟩,
        (exportTxn db txn grown.tape 0 places.located).2.1, (exportTxn db txn grown.tape 0 places.located).2.2⟩ := by
  simp only [ukvReadTxn] at read
  cases sized : txnTotal db txn db.youngestSequence places.located with
  | error _ => simp [sized, bind, Except.bind] at read
  | ok total =>
    cases reserve : reserveArena alloc fresh arena (decide (total ≥ arena.length)) total with
    | error _ => simp [sized, reserve, bind, Except.bind] at read
    | ok grown =>
      simp only [sized, reserve, bind, Except.bind, pure, Except.pure] at read
      cases read
      exact ⟨total, grown, rfl, reserve, rfl⟩

theorem ukvReadHead_lengths {alloc : Alloc} {fresh : Mem} {db : Db} {places : Places} {arena : Arena}
    {out : Exported} (read : ukvReadHead alloc fresh db places arena = .ok out) :
    out.lengths = ukvMeasureHead db places := by
  obtain ⟨grown, -, rfl⟩ := ukvReadHead_eq_ok read
  exact exportHead_lengths db places.located grown.tape 0

theorem ukvReadTxn_lengths {alloc : Alloc} {fresh : Mem} {db : Db} {txn : Txn} {places : Places}
    {arena : Arena} {out : Exported} (read : ukvReadTxn alloc fresh db txn places arena = .ok out) :
    ukvMeasureTxn db txn places = .ok out.lengths := by
  obtain ⟨total, grown, sized, -, rfl⟩ := ukvReadTxn_eq_ok read
  exact measureTxn_of_txnTotal db txn _ places.located total grown.tape 0 sized

/-- `ukv_read` with `c_values` null fails exactly when the full read's sizing pass meets an
    overwritten row, and otherwise reports, row by row, the lengths a successful full read
    returns. -/
theorem measure_path_agrees_with_full_read (alloc : Alloc) (fresh : Mem) (db : Db) (txn : Option Txn)
    (places : Places) (arena : Arena) :
    (∀ error, ukvRead alloc fresh db txn places arena false = .error error ↔
      ∃ t, txn = some t ∧ txnTotal db t db.youngestSequence places.located = .error error) ∧
    ∀ out, ukvRead alloc fresh db txn places arena true = .ok (.exported out) →
      ukvRead alloc fresh db txn places arena false = .ok (.measured out.lengths) := by
  cases txn with
  | none =>
    refine ⟨fun _ => by simp [ukvRead], fun out read => ?_⟩
    cases head : ukvReadHead alloc fresh db places arena with
    | error _ => simp [ukvRead, head, Except.map] at read
    | ok exported =>
      simp only [ukvRead, head, Except.map, Except.ok.injEq, ReadResult.exported.injEq] at read
      rw [← read, ukvRead, ukvReadHead_lengths head]
  | some t =>
    refine ⟨fun error => ?_, fun out read => ?_⟩
    · simp only [ukvRead, except_map_eq_error, ukvMeasureTxn, measureTxn_eq_error_iff, Option.some.injEq,
        exists_eq_left']
    · cases full : ukvReadTxn alloc fresh db t places arena with
      | error _ => simp [ukvRead, full, Except.map] at read
      | ok exported =>
        simp only [ukvRead, full, Except.map, Except.ok.injEq, ReadResult.exported.injEq] at read
        rw [ukvRead, ukvReadTxn_lengths full, ← read]; rfl

/-- Where a read answers a row from: the transaction's buffer, the store, or nowhere. -/
inductive RowSource
  | buffered (value : Bytes)
  | stored (data : Bytes)
  | missing

namespace RowSource

def bytes : RowSource → Option Bytes
  | buffered value => some value
  | stored data => some data
  | missing => none

def copied : RowSource → Nat
  | buffered _ => 0
  | stored data => data.length
  | missing => 0

@[simp] theorem copied_buffered (value : Bytes) : (buffered value).copied = 0 := rfl
@[simp] theorem copied_stored (data : Bytes) : (stored data).copied = data.length := rfl
@[simp] theorem copied_missing : missing.copied = 0 := rfl

end RowSource

def rowSource (db : Db) (txn : Txn) (loc : LocatedKey) : RowSource :=
  match txn.newValues.lookup loc with
  | some value => .buffered value
  | none =>
    match db.pairs loc with
    | some entry => .stored entry.data
    | none => .missing

def RowCopied (tape : Mem) (loc : LocatedKey) (ptr : ValPtr) (len offset : Nat) : RowSource → Prop
  | .buffered value => ptr = .buffered loc ∧ len = valLen value.length
  | .stored data => ptr = .arena offset ∧ len = valLen data.length ∧ readBytes tape offset data.length = data
  | .missing => ptr = .null ∧ len = 0

theorem lookup_empty_newValues (loc : LocatedKey) : Txn.empty.newValues.lookup loc = none :=
  AList.lookup_empty loc

theorem exportHead_eq_exportTxn (db : Db) : ∀ (locs : List LocatedKey) (tape : Mem) (offset : Nat),
    exportHead db tape offset locs = exportTxn db .empty tape offset locs
  | [], _, _ => rfl
  | loc :: locs, tape, offset => by
    simp only [exportHead, exportTxn, lookup_empty_newValues]
    cases db.pairs loc <;> simp only [exportHead_eq_exportTxn]

theorem headTotal_eq_sum (db : Db) : ∀ locs : List LocatedKey,
    headTotal db locs = (locs.map fun loc => (rowSource db .empty loc).copied).sum
  | [] => rfl
  | loc :: locs => by
    simp only [headTotal, rowSource, lookup_empty_newValues, List.map_cons, List.sum_cons, headTotal_eq_sum]
    cases db.pairs loc <;> simp only [RowSource.copied_buffered, RowSource.copied_stored, RowSource.copied_missing, Nat.zero_add]

theorem txnTotal_eq_sum (db : Db) (txn : Txn) (youngest : Int) : ∀ (locs : List LocatedKey) (total : Nat),
    txnTotal db txn youngest locs = .ok total →
      total = (locs.map fun loc => (rowSource db txn loc).copied).sum
  | [], _, sized => by cases sized; rfl
  | loc :: locs, total, sized => by
    rw [List.map_cons, List.sum_cons, rowSource]
    rcases buffered : txn.newValues.lookup loc with _ | value <;> rcases found : db.pairs loc with _ | entry <;>
      simp only [txnTotal, buffered, found] at sized <;> simp only [RowSource.copied_buffered, RowSource.copied_stored, RowSource.copied_missing, Nat.zero_add]
    all_goals try exact txnTotal_eq_sum db txn youngest locs total sized
    split at sized
    · cases sized
    · cases sizedRest : txnTotal db txn youngest locs with
      | error e => rw [sizedRest] at sized; cases sized
      | ok rest =>
        rw [sizedRest] at sized
        cases sized
        rw [txnTotal_eq_sum db txn youngest locs rest sizedRest]

theorem exportTxn_below (db : Db) (txn : Txn) (locs : List LocatedKey) :
    ∀ tape offset a, a < offset → (exportTxn db txn tape offset locs).1 a = tape a := by
  induction locs with
  | nil => intro tape offset a _; rfl
  | cons loc locs ih =>
    intro tape offset a below
    simp only [exportTxn]
    split
    · exact ih _ _ a below
    · split
      · rw [ih _ _ a (by omega), writeBytes_outside _ _ _ _ (.inl below)]
      · exact ih _ _ a below

theorem exportTxn_rows (db : Db) (txn : Txn) (locs : List LocatedKey) :
    ∀ tape offset i (h : i < locs.length),
      let out := exportTxn db txn tape offset locs
      RowCopied out.1 locs[i] (out.2.1.getD i .null) (out.2.2.getD i 0)
        (offset + ((locs.map fun loc => (rowSource db txn loc).copied).take i).sum) (rowSource db txn locs[i]) := by
  induction locs with
  | nil => intro _ _ i h; simp at h
  | cons loc locs ih =>
    intro tape offset i h
    cases i with
    | zero =>
      simp only [exportTxn, List.getElem_cons_zero, List.take_zero, List.sum_nil, Nat.add_zero, rowSource]
      rcases buffered : txn.newValues.lookup loc with _ | value <;> rcases found : db.pairs loc with _ | entry <;>
        simp only [RowCopied, List.getD_cons_zero, and_self, true_and]
      exact (readBytes_congr fun j _ => exportTxn_below db txn locs _ _ (offset + j) (by omega)).trans
        (readBytes_writeBytes_self tape offset entry.data)
    | succ i =>
      have rest := fun tape offset => ih tape offset i (by simpa using h)
      simp only [List.map_cons, List.take_succ_cons, List.sum_cons, List.getElem_cons_succ] at rest ⊢
      simp only [exportTxn]
      rcases buffered : txn.newValues.lookup loc with _ | value <;> rcases found : db.pairs loc with _ | entry <;>
        simp only [rowSource, buffered, found, RowSource.copied_buffered, RowSource.copied_stored,
          RowSource.copied_missing, Nat.zero_add, List.getD_cons_succ]
      all_goals first | exact rest tape offset | rw [← Nat.add_assoc]; exact rest _ _

theorem RowCopied.bytes_eq {out : Exported} {db : Db} {txn : Txn} {loc : LocatedKey} {i offset : Nat}
    (dbFits : db.Fits) (bufferFits : BufferFits txn.newValues)
    (row : RowCopied out.arena.tape loc (out.values.getD i .null) (out.lengths.getD i 0) offset
      (rowSource db txn loc)) :
    out.bytes txn i = (rowSource db txn loc).bytes := by
  unfold rowSource at row ⊢
  rcases buffered : txn.newValues.lookup loc with _ | value <;> rcases found : db.pairs loc with _ | entry <;>
    simp only [buffered, found, RowCopied] at row <;> simp only [RowSource.bytes]
  · simp only [Exported.bytes, row.1]
  · obtain ⟨ptr, len, bytes⟩ := row
    simp only [Exported.bytes, ptr, len]
    rw [valLen, Nat.mod_eq_of_lt (dbFits loc entry found), bytes]
  all_goals
    obtain ⟨ptr, len⟩ := row
    simp only [Exported.bytes, ptr, len, buffered, Option.map_some']
    rw [valLen, Nat.mod_eq_of_lt (bufferFits loc value buffered), List.take_length]

theorem reserveArena_covers {alloc : Alloc} {fresh : Mem} {arena grown : Arena} {grow : Bool} {total : Nat}
    (kept : grow = false → total ≤ arena.length) (reserve : reserveArena alloc fresh arena grow total = .ok grown) :
    total ≤ grown.length := by
  unfold reserveArena at reserve
  cases grow with
  | false => cases reserve; exact kept rfl
  | true =>
    rw [if_pos rfl] at reserve
    split at reserve
    · cases reserve; exact le_refl total
    · cases reserve

/-- What the copy pass leaves for rows `locs` answered from `source`: the arena has room for
    every copy, the copies lie end to end from offset 0 in row order, and each row's slice, read
    with `txn`'s buffer, is the row's bytes. -/
def CopiedInOrder (source : LocatedKey → RowSource) (locs : List LocatedKey) (txn : Txn)
    (out : Exported) : Prop :=
  (locs.map fun loc => (source loc).copied).sum ≤ out.arena.length ∧
  ∀ i (h : i < locs.length),
    RowCopied out.arena.tape locs[i] (out.values.getD i .null) (out.lengths.getD i 0)
      ((locs.map fun loc => (source loc).copied).take i).sum (source locs[i]) ∧
    out.bytes txn i = (source locs[i]).bytes

theorem exportTxn_copiedInOrder {db : Db} {txn : Txn} {locs : List LocatedKey} {grown : Arena}
    (dbFits : db.Fits) (bufferFits : BufferFits txn.newValues)
    (covers : (locs.map fun loc => (rowSource db txn loc).copied).sum ≤ grown.length) :
    CopiedInOrder (rowSource db txn) locs txn ⟨⟨(exportTxn db txn grown.tape 0 locs).1, grown.length⟩,
      (exportTxn db txn grown.tape 0 locs).2.1, (exportTxn db txn grown.tape 0 locs).2.2⟩ := by
  refine ⟨covers, fun i h => ?_⟩
  have row := exportTxn_rows db txn locs grown.tape 0 i h
  rw [Nat.zero_add] at row
  exact ⟨row, RowCopied.bytes_eq dbFits bufferFits row⟩

theorem bufferFits_empty : BufferFits Txn.empty.newValues := fun loc _ found => by
  rw [lookup_empty_newValues] at found
  cases found

/-- Both full reads size and copy every row from the same source. `total_bytes` is the sum of
    the stored rows' lengths and fits the arena the read returns; the copies lie end to end from
    offset 0 in row order; and each row's slice is the bytes the row answers. -/
theorem read_passes_agree :
    (∀ alloc fresh db places arena out, db.Fits → ukvReadHead alloc fresh db places arena = .ok out →
      headTotal db places.located = (places.located.map fun loc => (rowSource db .empty loc).copied).sum ∧
      CopiedInOrder (rowSource db .empty) places.located .empty out) ∧
    ∀ alloc fresh db txn places arena out, db.Fits → BufferFits txn.newValues →
      ukvReadTxn alloc fresh db txn places arena = .ok out →
      txnTotal db txn db.youngestSequence places.located =
        .ok (places.located.map fun loc => (rowSource db txn loc).copied).sum ∧
      CopiedInOrder (rowSource db txn) places.located txn out := by
  refine ⟨fun alloc fresh db places arena out dbFits read => ?_,
    fun alloc fresh db txn places arena out dbFits bufferFits read => ?_⟩
  · obtain ⟨grown, reserve, rfl⟩ := ukvReadHead_eq_ok read
    have total := headTotal_eq_sum db places.located
    have covers := reserveArena_covers (fun kept => by simpa using kept) reserve
    simp only [exportHead_eq_exportTxn]
    exact ⟨total, exportTxn_copiedInOrder dbFits bufferFits_empty (total ▸ covers)⟩
  · obtain ⟨total, grown, sized, reserve, rfl⟩ := ukvReadTxn_eq_ok read
    have covers := reserveArena_covers (fun kept => by simp at kept; omega) reserve
    obtain rfl := txnTotal_eq_sum db txn _ places.located total sized
    exact ⟨sized, exportTxn_copiedInOrder dbFits bufferFits covers⟩

def bufferedReadRun : List Op :=
  [.writeHead (.single 5 7) fun _ => true, .txnBegin 0 0, .writeTxn 0 (.single 6 9) fun _ => true]

theorem read_passes_agree_after_buffered_write :
    (∃ out, ukvReadHead (fun _ => true) (fun _ => 0) (World.init.run bufferedReadRun).db ⟨[5, 6], none, 0⟩
        ⟨fun _ => 0, 0⟩ = .ok out ∧
      headTotal (World.init.run bufferedReadRun).db [⟨0, 5⟩, ⟨0, 6⟩] =
        ([⟨0, 5⟩, ⟨0, 6⟩].map fun loc => (rowSource (World.init.run bufferedReadRun).db .empty loc).copied).sum ∧
      CopiedInOrder (rowSource (World.init.run bufferedReadRun).db .empty) [⟨0, 5⟩, ⟨0, 6⟩] .empty out) ∧
    ∃ out, ukvReadTxn (fun _ => true) (fun _ => 0) (World.init.run bufferedReadRun).db
        ((World.init.run bufferedReadRun).txns 0) ⟨[5, 6], none, 0⟩ ⟨fun _ => 0, 0⟩ = .ok out ∧
      txnTotal (World.init.run bufferedReadRun).db ((World.init.run bufferedReadRun).txns 0)
          (World.init.run bufferedReadRun).db.youngestSequence [⟨0, 5⟩, ⟨0, 6⟩] =
        .ok ([⟨0, 5⟩, ⟨0, 6⟩].map fun loc =>
          (rowSource (World.init.run bufferedReadRun).db ((World.init.run bufferedReadRun).txns 0) loc).copied).sum ∧
      CopiedInOrder (rowSource (World.init.run bufferedReadRun).db ((World.init.run bufferedReadRun).txns 0))
        [⟨0, 5⟩, ⟨0, 6⟩] ((World.init.run bufferedReadRun).txns 0) out :=
  have fits := World.init_fits.run bufferedReadRun
  ⟨⟨_, rfl, read_passes_agree.1 (fun _ => true) (fun _ => 0) _ ⟨[5, 6], none, 0⟩ ⟨fun _ => 0, 0⟩ _ fits.1 rfl⟩,
    ⟨_, rfl, read_passes_agree.2 (fun _ => true) (fun _ => 0) _ _ ⟨[5, 6], none, 0⟩ ⟨fun _ => 0, 0⟩ _ fits.1
      (fits.2 0) rfl⟩⟩

end Ukv
