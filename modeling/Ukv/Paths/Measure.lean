import Ukv.Paths.Reads

/-!
`ukv_paths_read` with and without values. Both make the same allocations and read the same tape;
without values the export loop moves nothing, so it searches every bucket as the Store wrote it.
Over buckets of distinct names the two report the same rows and the same closing offset.
-/
namespace Ukv

theorem exportPaths_total (tape : Nat) (copy : Bool) : ∀ (pairs : List (Bytes × View)) (mem : Mem) (exported : Nat),
    (exportPaths tape copy (mem, exported) pairs).2.1 =
      (exportPaths tape copy (mem, exported) pairs).2.2.foldl
        (fun offset row => if row.present then (offset + row.length) % 2 ^ 32 else offset) exported
  | [], _, _ => rfl
  | (path, bucket) :: pairs, mem, exported => by
    rw [exportPaths]
    split
    · next val _ =>
      dsimp only
      have rest := exportPaths_total tape copy pairs
        (if copy then memmove mem (tape + exported) val.ptr val.len else mem) ((exported + val.len) % 2 ^ 32)
      generalize exportPaths tape copy _ pairs = r at rest ⊢
      obtain ⟨_, _, _⟩ := r
      simpa only [List.foldl_cons, if_true, Nat.add_mod_mod] using rest
    · dsimp only
      have rest := exportPaths_total tape copy pairs mem exported
      generalize exportPaths tape copy _ pairs = r at rest ⊢
      obtain ⟨_, _, _⟩ := r
      simpa only [List.foldl_cons, Bool.false_eq_true, if_false] using rest

section Measure

variable (hash : Bytes → Int) (store : BucketStore) (members : LocatedKey → List (Bytes × Bytes)) (tape : Nat)

theorem exportPaths_measures : ∀ (places : List PathPlace) (addr exported : Nat) (mem : Mem),
    (∀ p ∈ places, Encodes ((store.lookup (p.bucket hash)).getD []) (members (p.bucket hash))) →
    (∀ p ∈ places, ((members (p.bucket hash)).map (·.1)).Nodup) →
    Holds mem addr (tapeBytes store (places.map (·.bucket hash))) →
    exported + (tapeBytes store (places.map (·.bucket hash))).length < 2 ^ 32 →
    (exportPaths tape false (mem, exported)
        ((places.map (·.path)).zip (readTape store addr (places.map (·.bucket hash))))).2.2 =
      foundRows exported (places.map fun p => bucketValue (members (p.bucket hash)) p.path)
  | [], _, _, _, _, _, _, _ => rfl
  | p :: places, addr, exported, mem, stored, distinct, held, fits => by
    simp only [List.map_cons, tapeBytes_cons, holds_append, List.length_append] at held fits
    obtain ⟨here, rest⟩ := held
    have bucket : Encodes (readBytes mem addr ((store.lookup (p.bucket hash)).getD []).length)
        (members (p.bucket hash)) := by
      rw [here]; exact stored p (List.mem_cons_self _ _)
    have stored' := fun q member => stored q (List.mem_cons_of_mem p member)
    have distinct' := fun q member => distinct q (List.mem_cons_of_mem p member)
    simp only [List.map_cons, List.zip_cons_cons, readTape]
    rw [exportPaths]
    by_cases present : p.path ∈ (members (p.bucket hash)).map (·.1)
    · -- a value found counts towards the offsets of the rows after it
      obtain ⟨k, hk, named⟩ := List.getElem_of_mem present
      rw [List.length_map] at hk
      rw [List.getElem_map] at named
      obtain ⟨ptr, found, -, above, inside⟩ := @Encodes.findInBucket_value mem ⟨addr, _⟩ _ bucket k hk
        (distinct p (List.mem_cons_self _ _)) _ named
      dsimp only at above inside
      have valued := bucketValue_of_getElem hk (distinct p (List.mem_cons_self _ _)) named
      generalize (members (p.bucket hash))[k].2 = v at found above inside valued
      have rows := exportPaths_measures places _ (exported + v.length) mem stored' distinct' rest (by omega)
      generalize (places.map (·.path)).zip _ = pairs at rows ⊢
      simp only [found, Bool.false_eq_true, if_false, Nat.mod_eq_of_lt (show exported + v.length < 2 ^ 32 by omega)]
        at rows ⊢
      generalize exportPaths tape false _ pairs = r at rows ⊢
      obtain ⟨_, _, _⟩ := r
      rw [valued, foundRows, ← rows, Nat.mod_eq_of_lt (show v.length < 2 ^ 32 by omega)]
    · -- an absent path adds a missing row and nothing to the offset
      have found : findInBucket mem (some ⟨addr, _⟩) p.path = BucketMember.default :=
        Encodes.findInBucket_absent bucket present
      have rows := exportPaths_measures places _ exported mem stored' distinct' rest (by omega)
      generalize (places.map (·.path)).zip _ = pairs at rows ⊢
      rw [found]
      generalize exportPaths tape false _ pairs = r at rows ⊢
      obtain ⟨_, _, _⟩ := r
      rw [bucketValue_of_absent present, foundRows, ← rows]
      rfl

end Measure

/-- Over buckets of distinct names whose tape fits the offsets, a read without values reports the
    same rows and the same closing offset as a read with values, or fails as it does. -/
theorem paths_read_measure_agrees (hash : Bytes → Int) (store : BucketStore) (arena : StlArena)
    (places : List PathPlace) (members : LocatedKey → List (Bytes × Bytes))
    (stored : ∀ p ∈ places, Encodes ((store.lookup (p.bucket hash)).getD []) (members (p.bucket hash)))
    (distinct : ∀ p ∈ places, ((members (p.bucket hash)).map (·.1)).Nodup)
    (fits : (tapeBytes store (places.map (·.bucket hash))).length < 2 ^ 32) :
    (ukvPathsRead hash store arena places false).map (fun out => (out.rows, out.total)) =
      (ukvPathsRead hash store arena places true).map (fun out => (out.rows, out.total)) := by
  unfold ukvPathsRead StlArena.readBuckets
  rcases arena.allocate (8 * places.length) 8 with _ | ⟨_, arena'⟩
  · rfl
  dsimp only
  rw [if_pos fits]
  generalize arena'.allocate _ 1 = allocated
  rcases allocated with _ | ⟨addr, arena''⟩
  · rfl
  dsimp only
  have held := holds_writeBytes arena''.mem addr (tapeBytes store (places.map (·.bucket hash)))
  have plain := exportPaths_measures hash store members addr places _ 0 _ stored distinct held
    (by simpa using fits)
  obtain ⟨mem', total, rows, run, -, reported, -⟩ := exportPaths_reads hash store members addr
    places _ 0 _ stored distinct held (Nat.add_zero _).le (by simpa using fits)
  generalize (places.map (·.path)).zip _ = pairs at plain run ⊢
  generalize writeBytes _ _ _ = mem at plain run ⊢
  have copyTotal := exportPaths_total addr true pairs mem 0
  have plainTotal := exportPaths_total addr false pairs mem 0
  rw [run] at copyTotal ⊢
  generalize exportPaths addr false _ _ = r at plain plainTotal ⊢
  obtain ⟨_, _, _⟩ := r
  dsimp only at plain plainTotal copyTotal ⊢
  rw [plainTotal, copyTotal, plain, reported]
  rfl

theorem paths_read_measure_agrees_of_one_member :
    (ukvPathsRead (fun path => path.length) oneBucketStore (StlArena.holding []) [⟨0, [97]⟩, ⟨0, [98, 98]⟩]
        false).map (fun out => (out.rows, out.total)) =
      (ukvPathsRead (fun path => path.length) oneBucketStore (StlArena.holding []) [⟨0, [97]⟩, ⟨0, [98, 98]⟩]
        true).map (fun out => (out.rows, out.total)) :=
  paths_read_measure_agrees (fun path => path.length) oneBucketStore (StlArena.holding [])
    [⟨0, [97]⟩, ⟨0, [98, 98]⟩] (fun loc => if loc = ⟨0, 1⟩ then [([97], [1])] else [])
    (by decide) (by decide) (by decide)

end Ukv
