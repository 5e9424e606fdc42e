import Ukv.Store.Commit
import Ukv.Store.OwnWrites

/-!
Isolation of a transaction's buffer. `_ukv_write_txn` writes only into its handle's
`new_values`, and no call of another client reads that map: HEAD reads and writes see `db`,
another transaction sees its own buffer and `db`, and only `ukv_txn_commit` of the handle moves
the buffer into `db`. Until that commit, dropping the handle's writes from an interleaving
changes nothing another client can observe; a commit that succeeds then publishes, for each key,
the last value the transaction wrote since it began.
-/
namespace Ukv

def Op.writesInto (t : Nat) : Op → Bool
  | .writeTxn t' _ _ => t' == t
  | _ => false

def Op.commits (t : Nat) : Op → Bool
  | .txnCommit t' _ => t' == t
  | _ => false

namespace World

def repliesOff (t : Nat) (w : World) : List Op → List (Option String)
  | [] => []
  | op :: ops => (if op.writesInto t then [] else [(w.exec op).2]) ++ (w.step op).repliesOff t ops

/-- Two worlds that agree on the database and on every transaction but `t`. -/
def AgreeOff (t : Nat) (w w' : World) : Prop :=
  w.db = w'.db ∧ ∀ t', t' ≠ t → w.txns t' = w'.txns t'

variable {t : Nat}

theorem AgreeOff.trans {w w' w'' : World} (first : AgreeOff t w w') (second : AgreeOff t w' w'') :
    AgreeOff t w w'' :=
  ⟨first.1.trans second.1, fun t' other => (first.2 t' other).trans (second.2 t' other)⟩

theorem AgreeOff.update {w w' : World} (agree : AgreeOff t w w') (db : Db) (t' : Nat) (txn : Txn) :
    AgreeOff t ⟨db, Function.update w.txns t' txn⟩ ⟨db, Function.update w'.txns t' txn⟩ := by
  refine ⟨rfl, fun t'' other => ?_⟩
  by_cases same : t'' = t'
  · subst same; simp only [Function.update_same]
  · simp only [Function.update_noteq same, agree.2 t'' other]

theorem agreeOff_step_of_writesInto (w : World) {op : Op} (writes : op.writesInto t = true) :
    AgreeOff t w (w.step op) := by
  cases op with
  | writeTxn t' batch alloc =>
    have same : t' = t := by simpa [Op.writesInto] using writes
    subst same
    exact ⟨rfl, fun t'' other => (Function.update_noteq other _ _).symm⟩
  | _ => cases writes

theorem AgreeOff.exec {w w' : World} (agree : AgreeOff t w w') {op : Op} (reads : op.writesInto t = false)
    (open' : op.commits t = false) : (w.exec op).2 = (w'.exec op).2 ∧ AgreeOff t (w.step op) (w'.step op) := by
  obtain ⟨db, txns⟩ := agree
  cases op with
  | writeHead batch alloc => exact ⟨by simp only [World.exec, db], ⟨by simp only [step, World.exec, db], txns⟩⟩
  | txnBegin t' hint =>
    refine ⟨rfl, ?_⟩
    simp only [step, World.exec, db]
    exact AgreeOff.update ⟨db, txns⟩ _ t' _
  | writeTxn t' batch alloc =>
    have other : t' ≠ t := by simpa [Op.writesInto] using reads
    simp only [step, World.exec, txns t' other, db]
    exact ⟨trivial, AgreeOff.update ⟨db, txns⟩ _ t' _⟩
  | txnCommit t' alloc =>
    have other : t' ≠ t := by simpa [Op.commits] using open'
    simp only [step, World.exec, txns t' other, db]
    exact ⟨trivial, AgreeOff.update ⟨db, txns⟩ _ t' _⟩

/-- A run without a commit of `t`, from two worlds that agree off `t`, with `t`'s writes dropped
    on one side, ends in worlds that agree off `t` and reports the same errors to every other
    call. -/
theorem AgreeOff.run : ∀ (ops : List Op) {w w' : World}, AgreeOff t w w' → (∀ op ∈ ops, op.commits t = false) →
    AgreeOff t (w.run (ops.filter fun op => !op.writesInto t)) (w'.run ops) ∧
      w.repliesOff t (ops.filter fun op => !op.writesInto t) = w'.repliesOff t ops
  | [], _, _, agree, _ => ⟨agree, rfl⟩
  | op :: ops, w, w', agree, open' => by
    have rest := fun {w w' : World} (agree : AgreeOff t w w') =>
      AgreeOff.run ops agree fun op' member => open' op' (List.mem_cons_of_mem op member)
    cases writes : op.writesInto t
    · -- a call of another client runs on both sides
      obtain ⟨replied, agree'⟩ := agree.exec writes (open' op (List.mem_cons_self op ops))
      simp only [List.filter_cons, writes, Bool.not_false, if_true, run_cons, repliesOff, if_false, replied]
      exact ⟨(rest agree').1, congrArg _ (rest agree').2⟩
    · -- a write into `t` runs on the full side only
      simp only [List.filter_cons, writes, Bool.not_true, Bool.false_eq_true, if_false, run_cons, repliesOff,
        if_true, List.nil_append]
      exact rest (agree.trans (agreeOff_step_of_writesInto w' writes))

end World

/-- No dirty reads. In any interleaving in which transaction `t` is not committed, the writes
    buffered into `t` are invisible to every other client: without them the run reaches the same
    database and the same other transactions, every other call reports the same error, and every
    read through HEAD or another transaction returns the same result. -/
theorem uncommitted_writes_are_invisible (w : World) (t : Nat) (ops : List Op)
    (uncommitted : ∀ op ∈ ops, op.commits t = false) :
    (w.run (ops.filter fun op => !op.writesInto t)).db = (w.run ops).db ∧
    (∀ t', t' ≠ t → (w.run (ops.filter fun op => !op.writesInto t)).txns t' = (w.run ops).txns t') ∧
    w.repliesOff t (ops.filter fun op => !op.writesInto t) = w.repliesOff t ops ∧
    ∀ reader : Option Nat, reader ≠ some t → ∀ alloc fresh places arena values,
      ukvRead alloc fresh (w.run (ops.filter fun op => !op.writesInto t)).db
          (reader.map (w.run (ops.filter fun op => !op.writesInto t)).txns) places arena values =
        ukvRead alloc fresh (w.run ops).db (reader.map (w.run ops).txns) places arena values := by
  obtain ⟨⟨db, txns⟩, replies⟩ := World.AgreeOff.run ops ⟨rfl, fun _ _ => rfl⟩ uncommitted
  refine ⟨db, txns, replies, fun reader other alloc fresh places arena values => ?_⟩
  rcases reader with _ | t'
  · simp only [Option.map_none', db]
  · simp only [Option.map_some', db, txns t' fun same => other (congrArg some same)]

def uncommittedRun : List Op :=
  [.txnBegin 1 0, .writeTxn 1 (.single 1 1) (fun _ => true), .writeHead (.single 2 2) (fun _ => true)]

theorem uncommitted_writes_are_invisible_of_one_write :
    (∀ op ∈ uncommittedRun, op.commits 1 = false) ∧
      (World.init.run (uncommittedRun.filter fun op => !op.writesInto 1)).db = (World.init.run uncommittedRun).db :=
  have uncommitted : ∀ op ∈ uncommittedRun, op.commits 1 = false := by decide
  ⟨uncommitted, (uncommitted_writes_are_invisible World.init 1 uncommittedRun uncommitted).1⟩

end Ukv
