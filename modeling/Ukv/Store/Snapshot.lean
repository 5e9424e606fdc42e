import Ukv.Store.OwnWrites

/-!
What the overwrite check of a transactional read catches. `_ukv_write_head` stamps every entry
it touches with a fresh `++youngest_sequence`, so once a transaction has begun with hint 0, each
entry touched since carries a number between the transaction's and the youngest one, and
`entry_was_overwritten` flags it. A read that returns without an error therefore finds every row
outside the transaction's buffer as it stood when the transaction began, whatever HEAD writes
ran in between. Commits are left out: they stamp with their transaction's own number, which may
be older, and pass the check.
-/
namespace Ukv

/-- Every entry of `db` is as in `base`, or carries a number issued after `base`'s last. -/
def Db.StampedSince (base db : Db) : Prop :=
  base.issued ≤ db.issued ∧ ∀ loc, db.pairs loc = base.pairs loc ∨
    ∃ entry k, db.pairs loc = some entry ∧ base.issued < k ∧ k ≤ db.issued ∧ entry.sequenceNumber = wrap k

def Op.isCommit : Op → Bool
  | .txnCommit _ _ => true
  | _ => false

namespace Db.StampedSince

variable {base db : Db}

theorem refl (base : Db) : base.StampedSince base := ⟨le_rfl, fun _ => .inl rfl⟩

theorem issue (h : base.StampedSince db) : base.StampedSince db.issue :=
  ⟨h.1.trans (Nat.le_succ _), fun loc => (h.2 loc).imp id fun ⟨entry, k, found, after, below, stamp⟩ =>
    ⟨entry, k, found, after, below.trans (Nat.le_succ _), stamp⟩⟩

theorem putFresh (h : base.StampedSince db) (loc : LocatedKey) (data : Bytes) :
    base.StampedSince (db.issue.put loc ⟨data, db.issue.youngestSequence⟩) := by
  refine ⟨h.issue.1, fun loc' => ?_⟩
  rw [Db.put_pairs]
  split
  · exact .inr ⟨_, db.issued + 1, rfl, Nat.lt_succ_of_le h.1, le_rfl, rfl⟩
  · exact h.issue.2 loc'

end Db.StampedSince

section Stamps

variable {base : Db}

theorem writeHeadRow_stampedSince (alloc : Alloc) (n : Nat) {db : Db} (loc : LocatedKey) (value : Bytes)
    (h : base.StampedSince db) : base.StampedSince (writeHeadRow alloc n db loc value).1 := by
  rcases writeHeadRow_cases alloc n db loc value with same | same | ⟨data, -, same⟩ <;> rw [same]
  · exact h
  · exact h.issue
  · exact h.putFresh loc data

theorem writeHeadLoop_stampedSince (alloc : Alloc) (rows : List (LocatedKey × Bytes)) :
    ∀ n db, base.StampedSince db → base.StampedSince (writeHeadLoop alloc n db rows).1 := by
  induction rows with
  | nil => intro _ _ h; exact h
  | cons row rows ih =>
    intro n db h
    obtain ⟨loc, value⟩ := row
    have step := writeHeadRow_stampedSince alloc n loc value h
    simp only [writeHeadLoop]
    split
    · next db' n' found => rw [found] at step; exact ih n' db' step
    · next db' _ found => rw [found] at step; exact step

theorem World.step_stampedSince {t : Nat} {w : World} {op : Op} (h : base.StampedSince w.db)
    (noCommit : op.isCommit = false) (keepsOpen : op.KeepsOpen t) :
    base.StampedSince (w.step op).db ∧ ((w.step op).txns t).sequenceNumber = (w.txns t).sequenceNumber := by
  cases op with
  | writeHead batch alloc => exact ⟨writeHeadLoop_stampedSince alloc batch.rows 0 w.db h, rfl⟩
  | txnBegin t' hint =>
    simp only [World.step, World.exec, Function.update_noteq (Ne.symm keepsOpen), and_true]
    unfold ukvTxnBegin
    split
    · exact h
    · exact h.issue
  | writeTxn t' batch alloc =>
    refine ⟨h, ?_⟩
    simp only [World.step, World.exec, Function.update_apply]
    split
    · next same => subst same; rfl
    · rfl
  | txnCommit => cases noCommit

theorem World.run_stampedSince {t : Nat} : ∀ {w : World} {ops : List Op}, base.StampedSince w.db →
    (∀ op ∈ ops, op.isCommit = false ∧ op.KeepsOpen t) →
    base.StampedSince (w.run ops).db ∧ ((w.run ops).txns t).sequenceNumber = (w.txns t).sequenceNumber
  | _, [], h, _ => ⟨h, rfl⟩
  | w, op :: ops, h, calls => by
    have first := World.step_stampedSince h (calls op (List.mem_cons_self op ops)).1
      (calls op (List.mem_cons_self op ops)).2
    have rest := World.run_stampedSince first.1 fun op' member => calls op' (List.mem_cons_of_mem op member)
    exact ⟨rest.1, rest.2.trans first.2⟩

end Stamps

theorem measureTxn_tail_ok {db : Db} {txn : Txn} {youngest : Int} {loc : LocatedKey} {locs : List LocatedKey}
    {lengths : List Nat} (measured : measureTxn db txn youngest (loc :: locs) = .ok lengths) :
    ∃ lengths', measureTxn db txn youngest locs = .ok lengths' := by
  simp only [measureTxn] at measured
  repeat' split at measured
  all_goals first
    | cases measured
    | exact (except_map_eq_ok.mp measured).imp fun _ found => found.1

theorem measureTxn_not_overwritten (db : Db) (txn : Txn) (youngest : Int) :
    ∀ (locs : List LocatedKey) (lengths : List Nat), measureTxn db txn youngest locs = .ok lengths →
      ∀ loc ∈ locs, txn.newValues.lookup loc = none → ∀ entry, db.pairs loc = some entry →
        entryWasOverwritten entry.sequenceNumber txn.sequenceNumber youngest = false
  | [], _, _, _, member, _, _, _ => by cases member
  | loc :: locs, lengths, measured, loc', member, unbuffered, entry, found => by
    rcases List.mem_cons.mp member with rfl | later
    · -- the first row is checked against the youngest number before anything is measured
      simp only [measureTxn, unbuffered, found] at measured
      split at measured
      · cases measured
      · next fresh => exact Bool.eq_false_iff.mpr fresh
    · obtain ⟨lengths', rest⟩ := measureTxn_tail_ok measured
      exact measureTxn_not_overwritten db txn youngest locs lengths' rest loc' later unbuffered entry found

/-- Transactional reads are snapshot reads against HEAD writes: after `t` begins with hint 0 and
    any calls but commits, with fewer than `2^63` numbers issued, a read in `t` that returns finds
    every row outside `t`'s buffer as it stood when `t` began. -/
theorem txn_read_sees_no_later_head_write (w : World) (t : Nat) (ops : List Op)
    (calls : ∀ op ∈ ops, op.isCommit = false ∧ op.KeepsOpen t)
    (few : (w.run (.txnBegin t 0 :: ops)).db.issued < 2 ^ 63) (alloc : Alloc) (fresh : Mem) (places : Places)
    (arena : Arena) (values : Bool) (result : ReadResult)
    (read : ukvRead alloc fresh (w.run (.txnBegin t 0 :: ops)).db (some ((w.run (.txnBegin t 0 :: ops)).txns t))
      places arena values = .ok result) :
    ∀ loc ∈ places.located, ((w.run (.txnBegin t 0 :: ops)).txns t).newValues.lookup loc = none →
      (w.run (.txnBegin t 0 :: ops)).db.pairs loc = (w.step (.txnBegin t 0)).db.pairs loc := by
  obtain ⟨since, sequence⟩ := World.run_stampedSince (Db.StampedSince.refl (w.step (.txnBegin t 0)).db) calls
  rw [World.run_cons] at few read ⊢
  have begun : ((w.step (.txnBegin t 0)).txns t).sequenceNumber = wrap (w.step (.txnBegin t 0)).db.issued := by
    simp only [World.step, World.exec, Function.update_same, ukvTxnBegin]; rfl
  obtain ⟨lengths, measured⟩ : ∃ lengths, ukvMeasureTxn (((w.step (.txnBegin t 0)).run ops).db)
      (((w.step (.txnBegin t 0)).run ops).txns t) places = .ok lengths := by
    cases values
    · obtain ⟨lengths, measured, -⟩ := except_map_eq_ok.mp read
      exact ⟨lengths, measured⟩
    · obtain ⟨out, read', -⟩ := except_map_eq_ok.mp read
      exact ⟨_, ukvReadTxn_lengths read'⟩
  intro loc member unbuffered
  rcases since.2 loc with same | ⟨entry, k, found, after, below, stamp⟩
  · exact same
  · -- an entry touched since the begin is flagged, and the read could not have returned
    have flagged := measureTxn_not_overwritten _ _ _ _ lengths measured loc member unbuffered entry found
    rw [stamp, sequence, begun, Db.youngestSequence, wrap_natCast_of_lt (by omega),
      wrap_natCast_of_lt (by omega), wrap_natCast_of_lt few, ← Bool.not_eq_true, entryWasOverwritten_of_le
        (by exact_mod_cast since.1)] at flagged
    exact absurd ⟨by exact_mod_cast after.le, by exact_mod_cast below⟩ flagged

def headWriteRun : List Op := [.writeHead (.single 2 2) (fun _ => true)]

theorem txn_read_sees_no_later_head_write_of_one_row :
    (∀ op ∈ headWriteRun, op.isCommit = false ∧ op.KeepsOpen 1) ∧
    (World.init.run (.txnBegin 1 0 :: headWriteRun)).db.issued < 2 ^ 63 ∧
    ukvRead (fun _ => true) (fun _ => 0) (World.init.run (.txnBegin 1 0 :: headWriteRun)).db
      (some ((World.init.run (.txnBegin 1 0 :: headWriteRun)).txns 1)) ⟨[1], none, 0⟩ ⟨fun _ => 0, 0⟩ false =
      .ok (.measured [0]) ∧
    (World.init.run (.txnBegin 1 0 :: headWriteRun)).db.pairs ⟨0, 1⟩ =
      (World.init.step (.txnBegin 1 0)).db.pairs ⟨0, 1⟩ :=
  have calls : ∀ op ∈ headWriteRun, op.isCommit = false ∧ op.KeepsOpen 1 := by
    simp only [headWriteRun, List.mem_singleton, forall_eq]
    exact ⟨rfl, trivial⟩
  have few : (World.init.run (.txnBegin 1 0 :: headWriteRun)).db.issued < 2 ^ 63 := by decide
  have read : ukvRead (fun _ => true) (fun _ => 0) (World.init.run (.txnBegin 1 0 :: headWriteRun)).db
      (some ((World.init.run (.txnBegin 1 0 :: headWriteRun)).txns 1)) ⟨[1], none, 0⟩ ⟨fun _ => 0, 0⟩ false =
      .ok (.measured [0]) := rfl
  ⟨calls, few, read, txn_read_sees_no_later_head_write World.init 1 headWriteRun calls few _ _ _ _ false _ read
    ⟨0, 1⟩ (by decide) rfl⟩

end Ukv
