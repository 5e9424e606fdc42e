import Ukv.Store.Run

/-!
`ukv_txn_commit` as a transition of the database and the transaction handle. It succeeds
exactly when no recorded read and no buffered write conflicts and every allocation it makes is
granted; it then stamps every buffered key with the transaction's sequence number, and the
`std::swap` of its import leaves each key's previous bytes in the handle's buffer.
-/
namespace Ukv

/-- What a successful commit makes of the database: each buffered key holds its buffered bytes
    stamped with `sequence`, and nothing else changes. -/
def Db.applyBuffer (db : Db) (buffer : Buffer) (sequence : Int) : Db :=
  { db with
    pairs := fun loc =>
      match buffer.lookup loc with
      | some value => some ⟨value, sequence⟩
      | none => db.pairs loc }

def newKeys (db : Db) (entries : List (Σ _ : LocatedKey, Bytes)) : List LocatedKey :=
  entries.keys.filter fun loc => (db.pairs loc).isNone

theorem Db.ext {a b : Db} (pairs : ∀ loc, a.pairs loc = b.pairs loc) (named : a.named = b.named)
    (issued : a.issued = b.issued) : a = b := by
  obtain ⟨pa, na, ia⟩ := a
  obtain ⟨pb, nb, ib⟩ := b
  cases funext pairs
  cases named
  cases issued
  rfl

theorem findSome?_entries_eq_none {β : Type} {p : (Σ _ : LocatedKey, β) → Option String}
    {s : AList (fun _ : LocatedKey => β)} :
    s.entries.findSome? p = none ↔ ∀ loc b, s.lookup loc = some b → p ⟨loc, b⟩ = none := by
  rw [List.findSome?_eq_none_iff]
  exact ⟨fun h loc b found => h _ (AList.mem_lookup_iff.mp found),
    fun h e member => h e.1 e.2 (AList.mem_lookup_iff.mpr member)⟩

theorem requestedConflict_eq_none {db : Db} {loc : LocatedKey} {seen : Int} :
    requestedConflict db ⟨loc, seen⟩ = none ↔ ∀ entry, db.pairs loc = some entry → entry.sequenceNumber = seen := by
  unfold requestedConflict
  cases db.pairs loc <;> simp

theorem incomingConflict_eq_none {db : Db} {sequence youngest : Int} {loc : LocatedKey} {value : Bytes} :
    incomingConflict db sequence youngest ⟨loc, value⟩ = none ↔ ∀ entry, db.pairs loc = some entry →
      entry.sequenceNumber ≠ sequence ∧ entryWasOverwritten entry.sequenceNumber sequence youngest = false := by
  unfold incomingConflict
  cases db.pairs loc with
  | none => simp
  | some entry => by_cases same : entry.sequenceNumber = sequence <;> simp [same]

theorem all_range_iff (alloc : Alloc) (n : Nat) : (List.range (n + 1)).all alloc = true ↔ ∀ j ≤ n, alloc j = true := by
  simp [List.all_eq_true, Nat.lt_succ_iff]

theorem importValues_cons (alloc : Alloc) (sequence : Int) (n : Nat) (db : Db) (buffer : Buffer) (loc : LocatedKey)
    (value : Bytes) (rest : List (Σ _ : LocatedKey, Bytes)) :
    importValues alloc sequence n db buffer (⟨loc, value⟩ :: rest) =
      if (db.pairs loc).isSome || alloc n then
        importValues alloc sequence (if (db.pairs loc).isSome then n else n + 1) (db.put loc ⟨value, sequence⟩)
          (buffer.insert loc (((db.pairs loc).map (·.data)).getD [])) rest
      else (db, buffer.insert loc [], some "std::bad_alloc") := by
  rw [importValues]
  cases db.pairs loc with
  | some entry => rfl
  | none => cases alloc n <;> rfl

theorem newKeys_cons_put {db : Db} {loc : LocatedKey} {value : Bytes} {rest : List (Σ _ : LocatedKey, Bytes)}
    (fresh : loc ∉ rest.keys) (entry : SequencedValue) :
    newKeys db (⟨loc, value⟩ :: rest) =
      (if (db.pairs loc).isNone then [loc] else []) ++ newKeys (db.put loc entry) rest := by
  have same : newKeys (db.put loc entry) rest = newKeys db rest :=
    List.filter_congr fun loc' member => by
      rw [Db.put_pairs, if_neg fun (eq : loc' = loc) => fresh (eq ▸ member)]
  rw [same, newKeys, List.keys_cons, List.filter_cons]
  split <;> rfl

theorem importValues_ok_iff (alloc : Alloc) (sequence : Int) :
    ∀ (entries : List (Σ _ : LocatedKey, Bytes)) (n : Nat) (db : Db) (buffer : Buffer), entries.NodupKeys →
      ((importValues alloc sequence n db buffer entries).2.2 = none ↔
        ∀ j < (newKeys db entries).length, alloc (n + j) = true)
  | [], _, _, _, _ => by simp [importValues, newKeys]
  | ⟨loc, value⟩ :: rest, n, db, buffer, distinct => by
    obtain ⟨fresh, distinct⟩ := List.nodupKeys_cons.mp distinct
    rw [importValues_cons, newKeys_cons_put fresh ⟨value, sequence⟩]
    cases held : db.pairs loc with
    | some entry =>
      simp only [Option.isSome_some, Bool.true_or, if_true, Option.isNone_some, List.nil_append]
      exact importValues_ok_iff alloc sequence rest n _ _ distinct
    | none =>
      simp only [Option.isSome_none, Bool.false_or, Option.isNone_none, if_true, if_false, List.singleton_append,
        List.length_cons, Nat.forall_lt_succ_left, Nat.add_zero, Bool.false_eq_true, Option.map_none', Option.getD_none]
      cases granted : alloc n with
      | false => simp
      | true =>
        rw [if_pos rfl, importValues_ok_iff alloc sequence rest (n + 1) _ _ distinct, eq_self_iff_true, true_and]
        exact forall₂_congr fun m _ => by rw [Nat.add_right_comm, Nat.add_assoc]

theorem importValues_of_ok (alloc : Alloc) (sequence : Int) :
    ∀ (entries : List (Σ _ : LocatedKey, Bytes)) (n : Nat) (db : Db) (buffer : Buffer), entries.NodupKeys →
      (importValues alloc sequence n db buffer entries).2.2 = none →
      (∀ loc, (importValues alloc sequence n db buffer entries).1.pairs loc =
        match entries.dlookup loc with
        | some value => some ⟨value, sequence⟩
        | none => db.pairs loc) ∧
      (importValues alloc sequence n db buffer entries).1.named = db.named ∧
      (importValues alloc sequence n db buffer entries).1.issued = db.issued ∧
      ∀ loc, (importValues alloc sequence n db buffer entries).2.1.lookup loc =
        if loc ∈ entries.keys then some (((db.pairs loc).map (·.data)).getD []) else buffer.lookup loc
  | [], _, _, _, _, _ => ⟨fun _ => rfl, rfl, rfl, fun _ => by simp [importValues]⟩
  | ⟨loc, value⟩ :: rest, n, db, buffer, distinct, ok => by
    obtain ⟨fresh, distinct⟩ := List.nodupKeys_cons.mp distinct
    rw [importValues_cons] at ok ⊢
    split at ok
    · next granted =>
      rw [if_pos granted]
      obtain ⟨pairs, named, issued, swapped⟩ := importValues_of_ok alloc sequence rest _ _ _ distinct ok
      refine ⟨fun loc' => ?_, named, issued, fun loc' => ?_⟩
      · rw [pairs, Db.put_pairs]
        by_cases same : loc' = loc
        · subst same
          rw [List.dlookup_eq_none.mpr fresh, List.dlookup_cons_eq, if_pos rfl]
        · rw [List.dlookup_cons_ne _ _ same, if_neg same]
      · rw [swapped, Db.put_pairs]
        by_cases same : loc' = loc
        · subst same
          simp only [fresh, if_false, List.keys_cons, List.mem_cons_self, if_true, AList.lookup_insert]
        · simp only [same, if_false, AList.lookup_insert_ne same, List.keys_cons, List.mem_cons, false_or]
    · cases ok

theorem requestedConflicts_eq_none {db : Db} {txn : Txn} :
    txn.requestedKeys.entries.findSome? (requestedConflict db) = none ↔ ∀ loc seen,
      txn.requestedKeys.lookup loc = some seen → ∀ entry, db.pairs loc = some entry → entry.sequenceNumber = seen := by
  simp only [findSome?_entries_eq_none, requestedConflict_eq_none]

theorem incomingConflicts_eq_none {db : Db} {txn : Txn} {youngest : Int} :
    txn.newValues.entries.findSome? (incomingConflict db txn.sequenceNumber youngest) = none ↔ ∀ loc value,
      txn.newValues.lookup loc = some value → ∀ entry, db.pairs loc = some entry →
        entry.sequenceNumber ≠ txn.sequenceNumber ∧
          entryWasOverwritten entry.sequenceNumber txn.sequenceNumber youngest = false := by
  simp only [findSome?_entries_eq_none, incomingConflict_eq_none]

/-- What `ukv_txn_commit` checks and allocates: no recorded read has changed, no buffered key
    holds an entry stamped since the transaction began, and every reserve and node allocation is
    granted. -/
structure CommitChecks (alloc : Alloc) (db : Db) (txn : Txn) : Prop where
  recordedReads : ∀ loc seen, txn.requestedKeys.lookup loc = some seen →
    ∀ entry, db.pairs loc = some entry → entry.sequenceNumber = seen
  bufferedWrites : ∀ loc value, txn.newValues.lookup loc = some value → ∀ entry, db.pairs loc = some entry →
    entry.sequenceNumber ≠ txn.sequenceNumber ∧
      entryWasOverwritten entry.sequenceNumber txn.sequenceNumber db.youngestSequence = false
  reserve : ∀ j ≤ db.named.length, alloc j = true
  nodes : ∀ j < (newKeys db txn.newValues.entries).length, alloc (db.named.length + 1 + j) = true

theorem ukvTxnCommit_ok_iff (alloc : Alloc) (db : Db) (txn : Txn) :
    (ukvTxnCommit alloc db txn).2.2 = none ↔ CommitChecks alloc db txn := by
  dsimp only [ukvTxnCommit]
  rcases stale : txn.requestedKeys.entries.findSome? (requestedConflict db) with _ | error
  · rcases collides : txn.newValues.entries.findSome? (incomingConflict db txn.sequenceNumber db.youngestSequence)
      with _ | error
    · by_cases reserved : (List.range (db.named.length + 1)).all alloc = true
      · simp only [reserved, if_true]
        exact (importValues_ok_iff alloc _ _ _ db txn.newValues txn.newValues.nodupKeys).trans
          ⟨fun nodes => ⟨requestedConflicts_eq_none.mp stale, incomingConflicts_eq_none.mp collides,
            (all_range_iff alloc _).mp reserved, nodes⟩, fun checks => checks.nodes⟩
      · simp only [reserved, Bool.false_eq_true, if_false, reduceCtorEq, false_iff]
        exact fun checks => reserved ((all_range_iff alloc _).mpr checks.reserve)
    · simp only [reduceCtorEq, false_iff]
      exact fun checks => absurd (incomingConflicts_eq_none.mpr checks.bufferedWrites) (by simp [collides])
  · simp only [reduceCtorEq, false_iff]
    exact fun checks => absurd (requestedConflicts_eq_none.mpr checks.recordedReads) (by simp [stale])

theorem ukvTxnCommit_of_ok {alloc : Alloc} {db : Db} {txn : Txn} (done : (ukvTxnCommit alloc db txn).2.2 = none) :
    (ukvTxnCommit alloc db txn).1 = db.applyBuffer txn.newValues txn.sequenceNumber ∧
      (ukvTxnCommit alloc db txn).2.1.requestedKeys = txn.requestedKeys ∧
      (ukvTxnCommit alloc db txn).2.1.sequenceNumber = txn.sequenceNumber ∧
      ∀ loc, (ukvTxnCommit alloc db txn).2.1.newValues.lookup loc =
        (txn.newValues.lookup loc).map fun _ => ((db.pairs loc).map (·.data)).getD [] := by
  have checks := (ukvTxnCommit_ok_iff alloc db txn).mp done
  dsimp only [ukvTxnCommit] at done ⊢
  rw [requestedConflicts_eq_none.mpr checks.recordedReads, incomingConflicts_eq_none.mpr checks.bufferedWrites,
    if_pos ((all_range_iff alloc _).mpr checks.reserve)] at done ⊢
  obtain ⟨pairs, named, issued, swapped⟩ :=
    importValues_of_ok alloc _ _ _ db txn.newValues txn.newValues.nodupKeys done
  refine ⟨Db.ext pairs named issued, rfl, rfl, fun loc => (swapped loc).trans ?_⟩
  by_cases member : loc ∈ txn.newValues.entries.keys
  · obtain ⟨value, found⟩ := Option.isSome_iff_exists.mp (List.dlookup_isSome.mpr member)
    rw [if_pos member, show txn.newValues.lookup loc = some value from found]
    rfl
  · rw [if_neg member, show txn.newValues.lookup loc = none from List.dlookup_eq_none.mpr member]
    rfl

/-- `ukv_txn_commit` succeeds exactly when its checks pass and its allocations are granted; it
    then stamps each buffered key with its bytes and the transaction's number, changes nothing
    else, and leaves in the buffer the bytes each key held before. -/
theorem txn_commit_transition (alloc : Alloc) (db : Db) (txn : Txn) :
    ((ukvTxnCommit alloc db txn).2.2 = none ↔ CommitChecks alloc db txn) ∧
    ((ukvTxnCommit alloc db txn).2.2 = none →
      (ukvTxnCommit alloc db txn).1 = db.applyBuffer txn.newValues txn.sequenceNumber ∧
      (ukvTxnCommit alloc db txn).2.1.requestedKeys = txn.requestedKeys ∧
      (ukvTxnCommit alloc db txn).2.1.sequenceNumber = txn.sequenceNumber ∧
      ∀ loc, (ukvTxnCommit alloc db txn).2.1.newValues.lookup loc =
        (txn.newValues.lookup loc).map fun _ => ((db.pairs loc).map (·.data)).getD []) :=
  ⟨ukvTxnCommit_ok_iff alloc db txn, ukvTxnCommit_of_ok⟩

/-- A handle whose commit applied a non-empty buffer cannot be committed again: every buffered
    key now holds an entry of the handle's own sequence number, so the second commit, with any
    allocator, reports an error from its checks and changes neither the database nor the
    handle. -/
theorem txn_commit_rejects_second_commit (alloc alloc' : Alloc) (db : Db) (txn : Txn)
    (committed : (ukvTxnCommit alloc db txn).2.2 = none) (nonempty : txn.newValues.entries ≠ []) :
    ∃ error, ukvTxnCommit alloc' (ukvTxnCommit alloc db txn).1 (ukvTxnCommit alloc db txn).2.1 =
      ((ukvTxnCommit alloc db txn).1, (ukvTxnCommit alloc db txn).2.1, some error) := by
  obtain ⟨applied, -, sequence, swapped⟩ := ukvTxnCommit_of_ok committed
  obtain ⟨⟨loc, value⟩, member⟩ := List.exists_mem_of_ne_nil _ nonempty
  have buffered : txn.newValues.lookup loc = some value := AList.mem_lookup_iff.mpr member
  have stamped : (ukvTxnCommit alloc db txn).1.pairs loc = some ⟨value, txn.sequenceNumber⟩ := by
    rw [applied]
    simp only [Db.applyBuffer, buffered]
  have collides : (ukvTxnCommit alloc db txn).2.1.newValues.entries.findSome?
      (incomingConflict (ukvTxnCommit alloc db txn).1 (ukvTxnCommit alloc db txn).2.1.sequenceNumber
        (ukvTxnCommit alloc db txn).1.youngestSequence) ≠ none := fun none => by
    have still := incomingConflicts_eq_none.mp none loc _ (by rw [swapped, buffered]; rfl) _ stamped
    exact still.1 sequence.symm
  rcases stale : (ukvTxnCommit alloc db txn).2.1.requestedKeys.entries.findSome?
      (requestedConflict (ukvTxnCommit alloc db txn).1) with _ | error
  · obtain ⟨error, hit⟩ := Option.ne_none_iff_exists'.mp collides
    exact ⟨error, ukvTxnCommit_of_incoming_error stale hit⟩
  · exact ⟨error, ukvTxnCommit_of_requested_error stale⟩

def oneKeyTxn : Txn := ⟨∅, (∅ : Buffer).insert ⟨0, 1⟩ [1], 1⟩

theorem txn_commit_rejects_second_commit_of_one_key :
    (ukvTxnCommit (fun _ => true) Db.empty oneKeyTxn).2.2 = none ∧ oneKeyTxn.newValues.entries ≠ [] ∧
    ∃ error, ukvTxnCommit (fun _ => true) (ukvTxnCommit (fun _ => true) Db.empty oneKeyTxn).1
        (ukvTxnCommit (fun _ => true) Db.empty oneKeyTxn).2.1 =
      ((ukvTxnCommit (fun _ => true) Db.empty oneKeyTxn).1, (ukvTxnCommit (fun _ => true) Db.empty oneKeyTxn).2.1,
        some error) :=
  have committed : (ukvTxnCommit (fun _ => true) Db.empty oneKeyTxn).2.2 = none := rfl
  have nonempty : oneKeyTxn.newValues.entries ≠ [] := by decide
  ⟨committed, nonempty, txn_commit_rejects_second_commit _ _ _ _ committed nonempty⟩

end Ukv
