import Ukv.Store.Txn

/-!
The store as a system of clients. Every call but `ukv_txn_begin` holds the database lock for
its whole run and `ukv_txn_begin` only increments `youngest_sequence` atomically, so an
interleaving of calls on one database is a sequence of steps of `World`. Reads change neither
the database nor a transaction; they are functions of a world. Every sequence number the store
or a transaction holds was issued: it is `wrap k` for a count `k` of increments made so far.
-/
namespace Ukv

def WriteBatch.single (key : Int) (byte : UInt8) : WriteBatch :=
  ⟨⟨[key], none, 0⟩, [[byte]], by simp⟩

/-- The database and every transaction handle. -/
structure World where
  db : Db
  txns : Nat → Txn

def World.init : World := ⟨Db.empty, fun _ => Txn.empty⟩

/-- The calls that change a world. -/
inductive Op
  | writeHead (batch : WriteBatch) (alloc : Alloc)
  | txnBegin (txn : Nat) (hint : UInt64)
  | writeTxn (txn : Nat) (batch : WriteBatch) (alloc : Alloc)
  | txnCommit (txn : Nat) (alloc : Alloc)

namespace World

def exec (w : World) : Op → World × Option String
  | .writeHead batch alloc =>
    let r := ukvWriteHead alloc w.db batch
    (⟨r.1, w.txns⟩, r.2)
  | .txnBegin t hint =>
    let r := ukvTxnBegin w.db hint
    (⟨r.1, Function.update w.txns t r.2⟩, none)
  | .writeTxn t batch alloc =>
    let r := ukvWriteTxn alloc (w.txns t) batch
    (⟨w.db, Function.update w.txns t r.1⟩, r.2)
  | .txnCommit t alloc =>
    let r := ukvTxnCommit alloc w.db (w.txns t)
    (⟨r.1, Function.update w.txns t r.2.1⟩, r.2.2)

def step (w : World) (op : Op) : World := (w.exec op).1

def run (w : World) : List Op → World
  | [] => w
  | op :: ops => (w.step op).run ops

@[simp] theorem run_nil (w : World) : w.run [] = w := rfl
@[simp] theorem run_cons (w : World) (op : Op) (ops : List Op) :
    w.run (op :: ops) = (w.step op).run ops := rfl

end World

def Op.HintIssued (w : World) : Op → Prop
  | .txnBegin _ hint => hint = 0 ∨ (hint.toNat : Int) ≤ w.db.youngestSequence
  | _ => True

def World.HintsIssued (w : World) : List Op → Prop
  | [] => True
  | op :: ops => op.HintIssued w ∧ (w.step op).HintsIssued ops

def Issued (issued : Nat) (sequence : Int) : Prop := ∃ k ≤ issued, sequence = wrap k

def Db.Stamped (db : Db) : Prop :=
  ∀ loc entry, db.pairs loc = some entry → Issued db.issued entry.sequenceNumber

def World.Stamped (w : World) : Prop :=
  w.db.Stamped ∧ ∀ t, Issued w.db.issued (w.txns t).sequenceNumber

theorem Issued.mono {a b : Nat} {s : Int} (h : Issued a s) (grows : a ≤ b) : Issued b s := by
  obtain ⟨k, below, same⟩ := h
  exact ⟨k, below.trans grows, same⟩

theorem issued_youngest (db : Db) : Issued db.issued db.youngestSequence :=
  ⟨db.issued, le_rfl, rfl⟩

theorem Db.Stamped.issue {db : Db} (h : db.Stamped) : db.issue.Stamped :=
  fun loc e found => (h loc e found).mono (by simp)

theorem Db.Stamped.put {db : Db} {loc : LocatedKey} {e : SequencedValue} (h : db.Stamped)
    (stamp : Issued db.issued e.sequenceNumber) : (db.put loc e).Stamped := by
  intro loc' e' found
  rw [Db.put_pairs] at found
  split at found
  · cases found; simpa using stamp
  · simpa using h loc' e' found

theorem writeHeadRow_stamped (alloc : Alloc) (n : Nat) (db : Db) (loc : LocatedKey)
    (value : Bytes) (h : db.Stamped) :
    (writeHeadRow alloc n db loc value).1.Stamped ∧
      db.issued ≤ (writeHeadRow alloc n db loc value).1.issued := by
  rcases writeHeadRow_cases alloc n db loc value with same | same | ⟨_, -, same⟩ <;> rw [same]
  · exact ⟨h, le_rfl⟩
  · exact ⟨h.issue, by simp⟩
  · exact ⟨h.issue.put (issued_youngest db.issue), by simp⟩

theorem writeHeadLoop_stamped (alloc : Alloc) (rows : List (LocatedKey × Bytes)) :
    ∀ n db, db.Stamped →
      (writeHeadLoop alloc n db rows).1.Stamped ∧ db.issued ≤ (writeHeadLoop alloc n db rows).1.issued := by
  induction rows with
  | nil => intro n db h; exact ⟨h, le_rfl⟩
  | cons row rows ih =>
    intro n db h
    obtain ⟨loc, value⟩ := row
    have step := writeHeadRow_stamped alloc n db loc value h
    simp only [writeHeadLoop]
    split
    · next db' n' found =>
      rw [found] at step
      have rest := ih n' db' step.1
      exact ⟨rest.1, step.2.trans rest.2⟩
    · next db' _ found =>
      rw [found] at step
      exact step

theorem importValues_stamped (alloc : Alloc) (sequence : Int) (entries : List (Σ _ : LocatedKey, Bytes)) :
    ∀ n db buffer, db.Stamped → Issued db.issued sequence →
      (importValues alloc sequence n db buffer entries).1.Stamped ∧
        (importValues alloc sequence n db buffer entries).1.issued = db.issued := by
  induction entries with
  | nil => intro n db buffer h _; exact ⟨h, rfl⟩
  | cons entry entries ih =>
    intro n db buffer h stamp
    obtain ⟨loc, value⟩ := entry
    simp only [importValues]
    split
    · simpa using ih _ _ _ (h.put stamp) stamp
    · split
      · simpa using ih _ _ _ (h.put stamp) stamp
      · exact ⟨h, rfl⟩

theorem ukvTxnCommit_stamped (alloc : Alloc) (db : Db) (txn : Txn) (h : db.Stamped)
    (stamp : Issued db.issued txn.sequenceNumber) :
    (ukvTxnCommit alloc db txn).1.Stamped ∧ (ukvTxnCommit alloc db txn).1.issued = db.issued ∧
      (ukvTxnCommit alloc db txn).2.1.sequenceNumber = txn.sequenceNumber := by
  rcases ukvTxnCommit_cases alloc db txn with ⟨_, same⟩ | imported
  · rw [same]; exact ⟨h, rfl, rfl⟩
  · have stamped := importValues_stamped alloc txn.sequenceNumber txn.newValues.entries
      (db.named.length + 1) db txn.newValues h stamp
    rw [imported]; exact ⟨stamped.1, stamped.2, rfl⟩

theorem ukvTxnBegin_stamped {db : Db} {hint : UInt64} (h : db.Stamped)
    (given : hint = 0 ∨ (hint.toNat : Int) ≤ db.youngestSequence) :
    (ukvTxnBegin db hint).1.Stamped ∧ db.issued ≤ (ukvTxnBegin db hint).1.issued ∧
      Issued (ukvTxnBegin db hint).1.issued (ukvTxnBegin db hint).2.sequenceNumber := by
  unfold ukvTxnBegin
  split
  · next nonzero =>
    have below : (hint.toNat : Int) ≤ db.issued :=
      (given.resolve_left nonzero).trans (wrap_natCast_le db.issued)
    exact ⟨h, le_rfl, hint.toNat, by exact_mod_cast below, rfl⟩
  · exact ⟨h.issue, by simp, issued_youngest db.issue⟩

theorem World.Stamped.step {w : World} {op : Op} (h : w.Stamped) (hint : op.HintIssued w) :
    (w.step op).Stamped ∧ w.db.issued ≤ (w.step op).db.issued := by
  obtain ⟨stamped, txns⟩ := h
  cases op with
  | writeHead batch alloc =>
    have loop := writeHeadLoop_stamped alloc batch.rows 0 w.db stamped
    exact ⟨⟨loop.1, fun t => (txns t).mono loop.2⟩, loop.2⟩
  | txnBegin t hint =>
    have begin := ukvTxnBegin_stamped stamped hint
    refine ⟨⟨begin.1, fun t' => ?_⟩, begin.2.1⟩
    simp only [World.step, World.exec, Function.update_apply]
    split
    · exact begin.2.2
    · exact (txns t').mono begin.2.1
  | writeTxn t batch alloc =>
    refine ⟨⟨stamped, fun t' => ?_⟩, le_rfl⟩
    simp only [World.step, World.exec, Function.update_apply]
    split
    · next same => subst same; exact txns _
    · exact txns t'
  | txnCommit t alloc =>
    have commit := ukvTxnCommit_stamped alloc w.db (w.txns t) stamped (txns t)
    refine ⟨⟨commit.1, fun t' => ?_⟩, commit.2.1.ge⟩
    simp only [World.step, World.exec, Function.update_apply, commit.2.1]
    split
    · next same => subst same; rw [commit.2.2]; exact txns _
    · exact txns t'

theorem World.Stamped.run {w : World} {ops : List Op} (h : w.Stamped) (hints : w.HintsIssued ops) :
    (w.run ops).Stamped := by
  induction ops generalizing w with
  | nil => exact h
  | cons op ops ih => exact ih (h.step hints.1).1 hints.2

theorem World.init_stamped : World.init.Stamped := by
  refine ⟨(fun _ _ absent => nomatch absent), fun _ => ⟨0, le_rfl, ?_⟩⟩
  simp [World.init, Txn.empty, wrap]

/-- In every state reached by calls whose begin hints are 0 or already issued, with fewer than
    `2^63` sequence numbers issued, no entry carries a number above `youngest_sequence`. -/
theorem sequence_le_youngest (ops : List Op) (hints : World.init.HintsIssued ops)
    (few : (World.init.run ops).db.issued < 2 ^ 63) (loc : LocatedKey) (entry : SequencedValue)
    (present : (World.init.run ops).db.pairs loc = some entry) :
    entry.sequenceNumber ≤ (World.init.run ops).db.youngestSequence := by
  obtain ⟨k, below, stamp⟩ := (World.init_stamped.run hints).1 loc entry present
  rw [stamp, Db.youngestSequence, wrap_natCast_of_lt (by omega), wrap_natCast_of_lt few]
  exact_mod_cast below

theorem sequence_le_youngest_after_write_and_begin :
    World.init.HintsIssued [.writeHead (.single 5 7) fun _ => true, .txnBegin 1 0] ∧
    (World.init.run [.writeHead (.single 5 7) fun _ => true, .txnBegin 1 0]).db.issued < 2 ^ 63 ∧
    (World.init.run [.writeHead (.single 5 7) fun _ => true, .txnBegin 1 0]).db.pairs ⟨0, 5⟩ =
      some ⟨[7], 1⟩ ∧
    (1 : Int) ≤ (World.init.run [.writeHead (.single 5 7) fun _ => true, .txnBegin 1 0]).db.youngestSequence :=
  have hints : World.init.HintsIssued [.writeHead (.single 5 7) fun _ => true, .txnBegin 1 0] :=
    ⟨trivial, .inl rfl, trivial⟩
  have few : (World.init.run [.writeHead (.single 5 7) fun _ => true, .txnBegin 1 0]).db.issued <
    2 ^ 63 := by decide
  have present : (World.init.run [.writeHead (.single 5 7) fun _ => true, .txnBegin 1 0]).db.pairs
    ⟨0, 5⟩ = some ⟨[7], 1⟩ := by decide
  ⟨hints, few, present, sequence_le_youngest _ hints few _ _ present⟩

end Ukv
