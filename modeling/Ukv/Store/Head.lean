import Ukv.Store.Run

/-!
HEAD reads after a single-threaded run. What a HEAD read observes is, for every located key,
the last write the run applied to it: the rows a HEAD batch completed before any failure, and
the write set of every commit that reported no error. Values travel with `ukv_val_len_t`
lengths, so every one of them fits 32 bits.
-/
namespace Ukv

/-- The writes a call applies to HEAD. -/
def World.applied (w : World) : Op → List (LocatedKey × Bytes)
  | .writeHead batch alloc => batch.rows.take (writeHeadLoop alloc 0 w.db batch.rows).2.1
  | .txnCommit t _ => (w.txns t).newValues.entries.map fun e => (e.1, e.2)
  | _ => []

def Fits (value : Bytes) : Prop := value.length < 2 ^ 32

def Db.Fits (db : Db) : Prop := ∀ loc entry, db.pairs loc = some entry → Ukv.Fits entry.data

def BufferFits (buffer : Buffer) : Prop := ∀ loc value, buffer.lookup loc = some value → Fits value

def World.Fits (w : World) : Prop := w.db.Fits ∧ ∀ t, BufferFits (w.txns t).newValues

theorem Db.Fits.put {db : Db} {loc : LocatedKey} {e : SequencedValue} (h : db.Fits)
    (fits : Ukv.Fits e.data) : (db.put loc e).Fits := by
  intro loc' e' found
  rw [Db.put_pairs] at found
  split at found
  · cases found; exact fits
  · exact h loc' e' found

theorem BufferFits.insert {buffer : Buffer} {loc : LocatedKey} {value : Bytes} (h : BufferFits buffer)
    (fits : Fits value) : BufferFits (buffer.insert loc value) := by
  intro loc' value' found
  by_cases same : loc' = loc
  · subst same; rw [AList.lookup_insert] at found; cases found; exact fits
  · rw [AList.lookup_insert_ne same] at found; exact h loc' value' found

theorem BufferFits.entry {buffer : Buffer} (h : BufferFits buffer) {e : Σ _ : LocatedKey, Bytes}
    (member : e ∈ buffer.entries) : Fits e.2 :=
  h e.1 e.2 (AList.mem_lookup_iff.mpr member)

theorem writeHeadRow_fits (alloc : Alloc) (n : Nat) (db : Db) (loc : LocatedKey) (value : Bytes)
    (h : db.Fits) (fits : Fits value) : (writeHeadRow alloc n db loc value).1.Fits := by
  rcases writeHeadRow_cases alloc n db loc value with same | same | ⟨data, kept, same⟩ <;> rw [same]
  · exact h
  · exact h
  · refine h.put (kept.elim (· ▸ fits) fun found => ?_)
    obtain ⟨entry, present, rfl⟩ := Option.map_eq_some'.mp found
    exact h loc entry present

theorem writeHeadLoop_fits (alloc : Alloc) (rows : List (LocatedKey × Bytes))
    (fits : ∀ row ∈ rows, Fits row.2) : ∀ n db, db.Fits → (writeHeadLoop alloc n db rows).1.Fits := by
  induction rows with
  | nil => intro _ _ h; exact h
  | cons row rows ih =>
    intro n db h
    obtain ⟨loc, value⟩ := row
    have rest := ih fun row member => fits row (List.mem_cons_of_mem _ member)
    have row_fits := writeHeadRow_fits alloc n db loc value h (fits _ (List.mem_cons_self _ _))
    simp only [writeHeadLoop]
    split
    · next db' n' found => rw [found] at row_fits; exact rest n' db' row_fits
    · next db' _ found => rw [found] at row_fits; exact row_fits

theorem writeTxnLoop_fits (alloc : Alloc) (rows : List (LocatedKey × Bytes))
    (fits : ∀ row ∈ rows, Fits row.2) :
    ∀ n buffer, BufferFits buffer → BufferFits (writeTxnLoop alloc n buffer rows).1 := by
  induction rows with
  | nil => intro _ _ h; exact h
  | cons row rows ih =>
    intro n buffer h
    obtain ⟨loc, value⟩ := row
    have rest := ih fun row member => fits row (List.mem_cons_of_mem _ member)
    have inserted : BufferFits (buffer.insert loc value) := h.insert (fits _ (List.mem_cons_self _ _))
    simp only [writeTxnLoop]
    split
    · split
      · exact rest _ _ inserted
      · split
        · exact rest _ _ inserted
        · exact h
    · exact h

theorem importValues_fits (alloc : Alloc) (sequence : Int) (entries : List (Σ _ : LocatedKey, Bytes))
    (fits : ∀ e ∈ entries, Fits e.2) :
    ∀ n db buffer, db.Fits → BufferFits buffer →
      (importValues alloc sequence n db buffer entries).1.Fits ∧
        BufferFits (importValues alloc sequence n db buffer entries).2.1 := by
  induction entries with
  | nil => intro _ _ _ h b; exact ⟨h, b⟩
  | cons entry entries ih =>
    intro n db buffer h b
    obtain ⟨loc, value⟩ := entry
    have rest := ih fun e member => fits e (List.mem_cons_of_mem _ member)
    have this : Fits value := fits _ (List.mem_cons_self _ _)
    have empty : Fits [] := by simp [Fits]
    simp only [importValues]
    split
    · next old found => exact rest _ _ _ (h.put this) (b.insert (h loc old found))
    · split
      · exact rest _ _ _ (h.put this) (b.insert empty)
      · exact ⟨h, b.insert empty⟩

theorem World.Fits.step {w : World} (h : w.Fits) (op : Op) : (w.step op).Fits := by
  obtain ⟨db, buffers⟩ := h
  have update : ∀ t txn, BufferFits txn.newValues →
      ∀ t', BufferFits (Function.update w.txns t txn t').newValues := by
    intro t txn fits t'
    by_cases same : t' = t
    · subst same; simpa using fits
    · simpa [Function.update_noteq same] using buffers t'
  cases op with
  | writeHead batch alloc =>
    exact ⟨writeHeadLoop_fits alloc batch.rows batch.rows_fit 0 w.db db, buffers⟩
  | txnBegin t hint =>
    refine ⟨?_, update t _ ?_⟩
    · simp only [World.step, World.exec, ukvTxnBegin]
      split
      · exact db
      · exact fun loc e found => db loc e found
    · simp only [ukvTxnBegin]
      split <;> exact fun _ _ absent => nomatch absent
  | writeTxn t batch alloc =>
    exact ⟨db, update t _ (writeTxnLoop_fits alloc batch.rows batch.rows_fit 0 _ (buffers t))⟩
  | txnCommit t alloc =>
    have imported := importValues_fits alloc (w.txns t).sequenceNumber (w.txns t).newValues.entries
      (fun e member => (buffers t).entry member) ((w.db.named.length + 1)) w.db (w.txns t).newValues
      db (buffers t)
    simp only [World.step, World.exec]
    rcases ukvTxnCommit_cases alloc w.db (w.txns t) with ⟨_, same⟩ | commit
    · rw [same]; exact ⟨db, update t _ (buffers t)⟩
    · rw [commit]; exact ⟨imported.1, update t _ imported.2⟩

theorem World.Fits.run {w : World} (h : w.Fits) (ops : List Op) : (w.run ops).Fits := by
  induction ops generalizing w with
  | nil => exact h
  | cons op ops ih => exact ih (h.step op)

theorem World.init_fits : World.init.Fits :=
  ⟨(fun _ _ absent => nomatch absent), fun _ _ _ absent => nomatch absent⟩

end Ukv
