import Ukv.Paths.Upserts

/-!
`ukv_paths_read` over buckets that hold distinct names. Each path's bucket is read into its own
stretch of one tape, and the values found are moved, one after another, to the start of the
tape. A value moved never reaches a bucket not yet searched, so every path reads back as the
value its bucket holds under it.
-/
namespace Ukv

/-- What a bucket's members hold under `path`: the value of the first member of that name. -/
def bucketValue (members : List (Bytes × Bytes)) (path : Bytes) : Option Bytes :=
  (members.find? (·.1 = path)).map (·.2)

theorem bucketValue_of_absent {members : List (Bytes × Bytes)} {path : Bytes}
    (absent : path ∉ members.map (·.1)) : bucketValue members path = none := by
  simp only [bucketValue, Option.map_eq_none', List.find?_eq_none, decide_eq_true_eq]
  exact fun m member named => absent (List.mem_map.mpr ⟨m, member, named⟩)

theorem bucketValue_of_getElem : ∀ {members : List (Bytes × Bytes)} {k : Nat} (hk : k < members.length),
    (members.map (·.1)).Nodup → ∀ {path : Bytes}, members[k].1 = path →
      bucketValue members path = some members[k].2
  | m :: _, 0, _, _, _, named => by
    have first : m.1 = _ := named
    simp [bucketValue, first]
  | m :: rest, k + 1, hk, distinct, path, named => by
    rw [List.map_cons, List.nodup_cons] at distinct
    have hk' : k < rest.length := Nat.lt_of_succ_lt_succ hk
    have other : m.1 ≠ path := fun same =>
      distinct.1 (same ▸ List.mem_map.mpr ⟨rest[k], List.getElem_mem _, named⟩)
    simpa [bucketValue, other] using bucketValue_of_getElem hk' distinct.2 named

theorem Encodes.findInBucket_value {mem : Mem} {view : View} {members : List (Bytes × Bytes)}
    (h : Encodes (readBytes mem view.ptr view.len) members) {k : Nat} (hk : k < members.length)
    (distinct : (members.map (·.1)).Nodup) {key : Bytes} (named : members[k].1 = key) :
    ∃ ptr, (findInBucket mem (some view) key).value = some ⟨ptr, members[k].2.length⟩ ∧
      Holds mem ptr members[k].2 ∧ view.ptr ≤ ptr ∧ ptr + members[k].2.length ≤ view.ptr + view.len := by
  obtain ⟨addr, len⟩ := view
  rcases h with ⟨-, rfl⟩ | ⟨bytes, fit, few⟩
  · exact absurd hk (Nat.not_lt_zero k)
  have : len = (encodeBucket members).length := by simpa using congrArg List.length bytes
  subst this
  have held : Holds mem addr (encodeBucket members) := bytes
  rw [findInBucket_encoded_at held fit few hk distinct named]
  have length := encodeBucket_length members
  simp only [encodeBucket, holds_append, List.length_append, u32Bytes_length, flatten_u32Bytes_length,
    List.length_map, length_flatten_map] at held
  obtain ⟨value, inside⟩ := held.2.getElem_flatten (by simpa using hk)
  simp only [List.getElem_map, List.map_take, List.map_map, Function.comp_def, length_flatten_map, counterSize]
    at value inside
  simp only [List.map_take, counterSize] at length ⊢
  have start : addr + 4 + members.length * 2 * 4 + (members.map (·.1.length)).sum =
      addr + (4 + 4 * members.length + 4 * members.length + (members.map (·.1.length)).sum) := by omega
  exact ⟨_, rfl, by rwa [start], by omega, by omega⟩

def foundRows (exported : Nat) : List (Option Bytes) → List PathRow
  | [] => []
  | some v :: values => ⟨true, exported, v.length⟩ :: foundRows (exported + v.length) values
  | none :: values => ⟨false, exported, lengthMissing⟩ :: foundRows exported values

theorem foundRows_getElem? : ∀ (values : List (Option Bytes)) (exported i : Nat) (hi : i < values.length),
    (foundRows exported values)[i]? = some ⟨values[i].isSome,
      exported + ((values.take i).map fun v => (v.map List.length).getD 0).sum,
      (values[i].map List.length).getD lengthMissing⟩
  | some v :: values, exported, 0, _ => by simp [foundRows]
  | none :: values, exported, 0, _ => by simp [foundRows]
  | some v :: values, exported, i + 1, hi => by
    rw [foundRows, List.getElem?_cons_succ, foundRows_getElem? values _ i (Nat.lt_of_succ_lt_succ hi)]
    simp [Nat.add_assoc]
  | none :: values, exported, i + 1, hi => by
    rw [foundRows, List.getElem?_cons_succ, foundRows_getElem? values _ i (Nat.lt_of_succ_lt_succ hi)]
    simp

section Export

variable (hash : Bytes → Int) (store : BucketStore) (members : LocatedKey → List (Bytes × Bytes)) (tape : Nat)

theorem exportPaths_reads : ∀ (places : List PathPlace) (addr exported : Nat) (mem : Mem),
    (∀ p ∈ places, Encodes ((store.lookup (p.bucket hash)).getD []) (members (p.bucket hash))) →
    (∀ p ∈ places, ((members (p.bucket hash)).map (·.1)).Nodup) →
    Holds mem addr (tapeBytes store (places.map (·.bucket hash))) → tape + exported ≤ addr →
    exported + (tapeBytes store (places.map (·.bucket hash))).length < 2 ^ 32 →
    ∃ mem' total rows, exportPaths tape true (mem, exported)
        ((places.map (·.path)).zip (readTape store addr (places.map (·.bucket hash)))) = (mem', total, rows) ∧
      rows.map (fun row => if row.present then some (readBytes mem' (tape + row.offset) row.length) else none) =
        places.map (fun p => bucketValue (members (p.bucket hash)) p.path) ∧
      rows = foundRows exported (places.map fun p => bucketValue (members (p.bucket hash)) p.path) ∧
      ∀ a < tape + exported, mem' a = mem a
  | [], _, _, mem, _, _, _, _, _ => ⟨mem, _, [], rfl, rfl, rfl, fun _ _ => rfl⟩
  | p :: places, addr, exported, mem, stored, distinct, held, room, fits => by
    simp only [List.map_cons, tapeBytes_cons, holds_append, List.length_append] at held fits
    obtain ⟨here, rest⟩ := held
    have bucket : Encodes (readBytes mem addr ((store.lookup (p.bucket hash)).getD []).length)
        (members (p.bucket hash)) := by
      rw [here]; exact stored p (List.mem_cons_self _ _)
    have stored' := fun q member => stored q (List.mem_cons_of_mem p member)
    have distinct' := fun q member => distinct q (List.mem_cons_of_mem p member)
    simp only [List.map_cons, List.zip_cons_cons, readTape]
    rw [exportPaths]
    by_cases present : p.path ∈ (members (p.bucket hash)).map (·.1)
    · -- the value found is moved behind the values exported so far, below the buckets not yet searched
      obtain ⟨k, hk, named⟩ := List.getElem_of_mem present
      rw [List.length_map] at hk
      rw [List.getElem_map] at named
      obtain ⟨ptr, found, value, above, inside⟩ := @Encodes.findInBucket_value mem ⟨addr, _⟩ _ bucket k hk
        (distinct p (List.mem_cons_self _ _)) _ named
      dsimp only at above inside
      have valued := bucketValue_of_getElem hk (distinct p (List.mem_cons_self _ _)) named
      generalize (members (p.bucket hash))[k].2 = v at found value above inside valued
      obtain ⟨mem', total, rows, run, values, reported, frame⟩ := exportPaths_reads places _ (exported + v.length)
        (writeBytes mem (tape + exported) v) stored' distinct' (rest.write _ _ (.inr (by omega))) (by omega)
        (by omega)
      have small : (exported + v.length) % 2 ^ 32 = exported + v.length := Nat.mod_eq_of_lt (by omega)
      have fit : v.length % 2 ^ 32 = v.length := Nat.mod_eq_of_lt (by omega)
      generalize (places.map (·.path)).zip _ = pairs at run ⊢
      have moved : readBytes mem ptr v.length = v := value
      simp only [found, memmove, if_true, moved, small, run]
      refine ⟨mem', total, _, rfl, ?_, by rw [valued, foundRows, reported, fit], fun a below =>
        (frame a (by omega)).trans (writeBytes_outside _ _ _ _ (.inl below))⟩
      have exported' : readBytes mem' (tape + exported) v.length = v :=
        (holds_writeBytes mem (tape + exported) v).frame fun a _ hi => frame a (by omega)
      simp only [List.map_cons, values, valued, fit, if_true, exported']
    · -- an absent path leaves the memory and the output offset as they were
      have found : findInBucket mem (some ⟨addr, _⟩) p.path = BucketMember.default :=
        Encodes.findInBucket_absent bucket present
      obtain ⟨mem', total, rows, run, values, reported, frame⟩ :=
        exportPaths_reads places _ exported mem stored' distinct' rest (by omega) (by omega)
      rw [found, run]
      refine ⟨mem', total, _, rfl, ?_, by rw [bucketValue_of_absent present, foundRows, reported],
        frame⟩
      simp only [List.map_cons, values, bucketValue_of_absent present, Bool.false_eq_true, if_false]

end Export

theorem paths_read_returns_stored_values (hash : Bytes → Int) (store : BucketStore) (arena : StlArena)
    (places : List PathPlace) (members : LocatedKey → List (Bytes × Bytes)) (granted : ∀ n, arena.alloc n = true)
    (stored : ∀ p ∈ places, Encodes ((store.lookup (p.bucket hash)).getD []) (members (p.bucket hash)))
    (distinct : ∀ p ∈ places, ((members (p.bucket hash)).map (·.1)).Nodup)
    (fits : (tapeBytes store (places.map (·.bucket hash))).length < 2 ^ 32) :
    ∃ out, ukvPathsRead hash store arena places true = .ok out ∧
      out.rows.map out.value = places.map fun p => bucketValue (members (p.bucket hash)) p.path := by
  simp only [ukvPathsRead, StlArena.allocate, granted, if_true, StlArena.readBuckets, fits, alignUp_one]
  obtain ⟨mem', total, rows, run, values, -, -⟩ := exportPaths_reads hash store members
    (alignUp arena.top 8 + 8 * places.length) places (alignUp arena.top 8 + 8 * places.length) 0 _ stored
    distinct (holds_writeBytes _ _ _) (Nat.add_zero _).le (by simpa using fits)
  rw [run]
  exact ⟨_, rfl, values⟩

inductive PathsOutput
  | presences
  | offsets
  | lengths
  deriving DecidableEq, Repr

/-- Modelled from the spec: `alloc_or_dummy<T>(count, ...)` of an output the caller asks for is
    an arena allocation of `count` elements of `T`. The elements each output gets for a batch of
    `count` paths: `divide_round_up(count, bits_in_byte_k)` octets of presence, and `count` offsets
    and lengths. -/
def pathsOutputSlots (count : Nat) : PathsOutput → Nat
  | .presences => (count + 8 - 1) / 8
  | .offsets => count
  | .lengths => count

def pathsOutputWrites (rows : List PathRow) (total : Nat) : List (PathsOutput × Nat × Nat) :=
  (rows.enum.map fun (i, row) =>
      [(.presences, i, if row.present then 1 else 0), (.offsets, i, row.offset), (.lengths, i, row.length)]).flatten ++
    [(.offsets, rows.length, total)]

theorem exportPaths_length (tape : Nat) (copy : Bool) (pairs : List (Bytes × View)) :
    ∀ state : Mem × Nat, (exportPaths tape copy state pairs).2.2.length = pairs.length := by
  induction pairs with
  | nil => intro _; rfl
  | cons pair rest ih =>
    intro ⟨mem, exported⟩
    rw [exportPaths]
    split <;> dsimp only <;> simp [ih]

theorem ukvPathsRead_eq_ok {hash : Bytes → Int} {store : BucketStore} {arena : StlArena}
    {places : List PathPlace} {copy : Bool} {out : PathsExport}
    (read : ukvPathsRead hash store arena places copy = .ok out) :
    ∃ mem, exportPaths out.values copy (writeBytes mem out.values (tapeBytes store (places.map (·.bucket hash))), 0)
        ((places.map (·.path)).zip (readTape store out.values (places.map (·.bucket hash)))) =
      (out.mem, out.total, out.rows) := by
  unfold ukvPathsRead at read
  rcases allocated : arena.allocate (8 * places.length) 8 with _ | ⟨_, arena'⟩ <;> simp only [allocated] at read
  · cases read
  rcases loaded : arena'.readBuckets store (places.map (·.bucket hash)) with _ | ⟨arena'', tape, buckets⟩ <;>
    simp only [loaded] at read
  · cases read
  unfold StlArena.readBuckets at loaded
  dsimp only at loaded
  split at loaded
  swap
  · cases loaded
  split at loaded
  · cases loaded
  cases loaded
  generalize run : exportPaths _ copy _ _ = r at read
  obtain ⟨_, _, _⟩ := r
  cases read
  exact ⟨_, run⟩

theorem ukvPathsRead_rows_length {hash : Bytes → Int} {store : BucketStore} {arena : StlArena}
    {places : List PathPlace} {copy : Bool} {out : PathsExport}
    (read : ukvPathsRead hash store arena places copy = .ok out) : out.rows.length = places.length := by
  obtain ⟨mem, run⟩ := ukvPathsRead_eq_ok read
  simpa [exportPaths_length] using (congrArg (·.2.2.length) run).symm

theorem presences_written_at_row (rows : List PathRow) (total : Nat) (i : Nat) (hi : i < rows.length) :
    (PathsOutput.presences, i, if rows[i].present then 1 else 0) ∈ pathsOutputWrites rows total := by
  refine List.mem_append_left _ (List.mem_flatten.mpr ⟨_, List.mem_map.mpr ⟨(i, rows[i]), ?_, rfl⟩,
    List.mem_cons_self _ _⟩)
  exact List.mem_iff_getElem?.mpr ⟨i, by simp [hi]⟩

/-- For every batch and every Store, a read that returns has written `offsets[N]`, one past the
    `N` offsets its output was given, and has written row `i`'s presence at octet `i`, so that from
    two paths on the last row's presence lies past the `⌈N/8⌉` octets of the presence output. -/
theorem paths_read_writes_past_its_outputs (hash : Bytes → Int) (store : BucketStore) (arena : StlArena)
    (places : List PathPlace) (copy : Bool) (out : PathsExport)
    (read : ukvPathsRead hash store arena places copy = .ok out) :
    (PathsOutput.offsets, places.length, out.total) ∈ pathsOutputWrites out.rows out.total ∧
      pathsOutputSlots places.length .offsets ≤ places.length ∧
    (2 ≤ places.length → ∃ present, (PathsOutput.presences, places.length - 1, present) ∈
      pathsOutputWrites out.rows out.total ∧ pathsOutputSlots places.length .presences ≤ places.length - 1) := by
  have rows := ukvPathsRead_rows_length read
  refine ⟨?_, le_refl _, fun two => ⟨_, presences_written_at_row out.rows out.total _ (by omega), ?_⟩⟩
  · rw [← rows]
    exact List.mem_append_right _ (List.mem_singleton_self _)
  · simp only [pathsOutputSlots]
    omega

theorem paths_read_writes_past_its_outputs_of_two_paths :
    ∃ out, ukvPathsRead (fun path => path.length) ∅ (StlArena.holding []) [⟨0, [97]⟩, ⟨0, [98]⟩] true = .ok out ∧
      (PathsOutput.offsets, 2, out.total) ∈ pathsOutputWrites out.rows out.total ∧
      pathsOutputSlots 2 .offsets ≤ 2 ∧
      (2 ≤ 2 → ∃ present, (PathsOutput.presences, 2 - 1, present) ∈ pathsOutputWrites out.rows out.total ∧
        pathsOutputSlots 2 .presences ≤ 2 - 1) :=
  ⟨_, rfl, paths_read_writes_past_its_outputs (fun path => path.length) ∅ (StlArena.holding [])
    [⟨0, [97]⟩, ⟨0, [98]⟩] true _ rfl⟩

theorem foundRows_length : ∀ (exported : Nat) (values : List (Option Bytes)),
    (foundRows exported values).length = values.length
  | _, [] => rfl
  | _, some _ :: values => congrArg (· + 1) (foundRows_length _ values)
  | _, none :: values => congrArg (· + 1) (foundRows_length _ values)

theorem bucketValue_isSome_iff (members : List (Bytes × Bytes)) (path : Bytes) :
    (bucketValue members path).isSome ↔ path ∈ members.map (·.1) := by
  simp only [bucketValue, Option.isSome_map', List.find?_isSome, decide_eq_true_eq, List.mem_map]

theorem bucketValue_length_le {bytes : Bytes} {members : List (Bytes × Bytes)} (h : Encodes bytes members)
    (path : Bytes) : ((bucketValue members path).map List.length).getD 0 ≤ bytes.length := by
  cases found : members.find? (·.1 = path) with
  | none => simp [bucketValue, found]
  | some m =>
    have member := List.mem_of_find?_eq_some found
    rcases h with ⟨-, rfl⟩ | ⟨rfl, -, -⟩
    · cases member
    · have inside : m.2.length ≤ (members.map (·.2.length)).sum :=
        List.le_sum_of_mem (List.mem_map_of_mem (·.2.length) member)
      have total := encodeBucket_length members
      simp only [bucketValue, found, Option.map_some', Option.getD_some]
      omega

theorem foundLengths_le_tape (hash : Bytes → Int) (store : BucketStore) (members : LocatedKey → List (Bytes × Bytes))
    {places : List PathPlace}
    (stored : ∀ p ∈ places, Encodes ((store.lookup (p.bucket hash)).getD []) (members (p.bucket hash))) (n : Nat) :
    ((places.take n).map fun p => ((bucketValue (members (p.bucket hash)) p.path).map List.length).getD 0).sum ≤
      (tapeBytes store ((places.take n).map (·.bucket hash))).length := by
  simp only [tapeBytes, List.length_flatten, List.map_map, Function.comp_def]
  exact List.sum_le_sum fun p member => bucketValue_length_le (stored p (List.mem_of_mem_take member)) p.path

/-- `ukv_paths_read`'s compaction loses nothing: over buckets of distinct names each row reports
    whether its path is a member and, if so, the member's value at the sum of the lengths found
    before it, and no `memmove` reaches a bucket not yet searched. -/
theorem paths_read_compacts_in_place (hash : Bytes → Int) (store : BucketStore) (arena : StlArena)
    (places : List PathPlace) (members : LocatedKey → List (Bytes × Bytes)) (out : PathsExport)
    (stored : ∀ p ∈ places, Encodes ((store.lookup (p.bucket hash)).getD []) (members (p.bucket hash)))
    (distinct : ∀ p ∈ places, ((members (p.bucket hash)).map (·.1)).Nodup)
    (fits : (tapeBytes store (places.map (·.bucket hash))).length < 2 ^ 32)
    (read : ukvPathsRead hash store arena places true = .ok out) :
    out.rows.length = places.length ∧
    ∀ i (hi : i < places.length), ∃ row, out.rows[i]? = some row ∧
      (row.present = true ↔ places[i].path ∈ (members (places[i].bucket hash)).map (·.1)) ∧
      (row.present = true → bucketValue (members (places[i].bucket hash)) places[i].path =
        some (readBytes out.mem (out.values + row.offset) row.length)) ∧
      row.offset = ((places.take i).map fun p =>
        ((bucketValue (members (p.bucket hash)) p.path).map List.length).getD 0).sum ∧
      (row.present = true → out.values + row.offset + row.length ≤
        out.values + (tapeBytes store ((places.take (i + 1)).map (·.bucket hash))).length) := by
  obtain ⟨mem, run⟩ := ukvPathsRead_eq_ok read
  obtain ⟨mem', total, rows, run', values, reported, -⟩ := exportPaths_reads hash store members out.values places
    out.values 0 (writeBytes mem out.values _) stored distinct (holds_writeBytes _ _ _) (Nat.add_zero _).le
    (by simpa using fits)
  obtain ⟨rfl, -, rfl⟩ : out.mem = mem' ∧ out.total = total ∧ out.rows = rows := by
    simpa only [Prod.mk.injEq] using run.symm.trans run'
  refine ⟨ukvPathsRead_rows_length read, fun i hi => ?_⟩
  have hv : i < (places.map fun p => bucketValue (members (p.bucket hash)) p.path).length := by simpa using hi
  refine ⟨_, by rw [reported, foundRows_getElem? _ 0 i hv], ?_, fun present => ?_, ?_, fun present => ?_⟩
  · simp only [List.getElem_map, ← bucketValue_isSome_iff, Option.isSome_iff_exists]
  · have row := congrArg (·[i]?) values
    dsimp only at present
    simp only [List.getElem?_map, reported, foundRows_getElem? _ 0 i hv, List.getElem?_eq_getElem hi,
      Option.map_some', Option.some.injEq, present, if_true] at row
    exact row.symm
  · simp only [Nat.zero_add, List.map_take, List.map_map, Function.comp_def]
  · dsimp only at present ⊢
    rw [List.getElem_map] at present ⊢
    obtain ⟨v, found⟩ := Option.isSome_iff_exists.mp present
    have grow : ((places.take (i + 1)).map fun p =>
        ((bucketValue (members (p.bucket hash)) p.path).map List.length).getD 0).sum =
        ((places.take i).map fun p => ((bucketValue (members (p.bucket hash)) p.path).map List.length).getD 0).sum +
          v.length := by
      rw [List.take_succ, List.getElem?_eq_getElem hi, Option.toList_some, List.map_append, List.sum_append,
        List.map_singleton, List.sum_singleton, found]
      rfl
    have within := foundLengths_le_tape hash store members stored (i + 1)
    simp only [found, Option.map_some', Option.getD_some, Nat.zero_add, List.map_take, List.map_map,
      Function.comp_def] at grow within ⊢
    omega

theorem paths_read_compacts_in_place_of_one_member :
    ∃ out, ukvPathsRead (fun path => path.length) oneBucketStore (StlArena.holding [])
        [⟨0, [97]⟩, ⟨0, [98, 98]⟩] true = .ok out ∧ out.rows.length = 2 :=
  ⟨_, rfl, (paths_read_compacts_in_place (fun path => path.length) oneBucketStore (StlArena.holding [])
    [⟨0, [97]⟩, ⟨0, [98, 98]⟩] (fun loc => if loc = ⟨0, 1⟩ then [([97], [1])] else []) _
    (by decide) (by decide) (by decide) rfl).1⟩

end Ukv
