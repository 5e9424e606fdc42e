import Mathlib.Data.List.Dedup
import Ukv.Paths.Batch

/-!
Batches of `ukv_paths_write` that upsert new paths. The buckets are read into one tape, each task
rebuilds its bucket in a fresh allocation from the view the task before it left, and every bucket
place of the batch goes back to the Store. Tasks of one batch may hash to the same bucket, so a
bucket ends with its members followed by the batch's paths in task order. Whatever its tasks, a
write changes no other place.
-/
namespace Ukv

theorem eraseDups_loop {α : Type} [BEq α] [LawfulBEq α] : ∀ (as bs : List α), bs.Nodup →
    (List.eraseDups.loop as bs).Nodup ∧ ∀ x, x ∈ List.eraseDups.loop as bs ↔ x ∈ as ∨ x ∈ bs
  | [], bs, distinct => by simpa [List.eraseDups.loop] using distinct
  | a :: as, bs, distinct => by
    by_cases seen : a ∈ bs
    · simp only [List.eraseDups.loop, List.elem_eq_mem, seen, decide_True]
      refine ⟨(eraseDups_loop as bs distinct).1, fun x => ?_⟩
      rw [(eraseDups_loop as bs distinct).2, List.mem_cons]
      by_cases again : x = a <;> simp [again, seen]
    · simp only [List.eraseDups.loop, List.elem_eq_mem, seen, decide_False]
      obtain ⟨nodup, mem⟩ := eraseDups_loop as (a :: bs) (List.nodup_cons.mpr ⟨seen, distinct⟩)
      refine ⟨nodup, fun x => ?_⟩
      rw [mem, List.mem_cons, List.mem_cons]
      by_cases again : x = a <;> simp [again]

theorem mem_sortAndDeduplicate {keys : List LocatedKey} {key : LocatedKey} :
    key ∈ sortAndDeduplicate keys ↔ key ∈ keys := by
  simp [sortAndDeduplicate, List.eraseDups, (eraseDups_loop _ [] List.nodup_nil).2, List.mem_insertionSort]

theorem nodup_sortAndDeduplicate (keys : List LocatedKey) : (sortAndDeduplicate keys).Nodup :=
  (eraseDups_loop _ [] List.nodup_nil).1

theorem getElem_offsetInSorted {keys : List LocatedKey} {key : LocatedKey}
    (h : offsetInSorted keys key < keys.length) : keys[offsetInSorted keys key] = key :=
  List.getElem_indexOf h

theorem sum_sortAndDeduplicate (f : LocatedKey → Nat) (keys : List LocatedKey) :
    ((sortAndDeduplicate keys).map f).sum = (keys.dedup.map f).sum :=
  (((List.perm_ext_iff_of_nodup (nodup_sortAndDeduplicate keys) (List.nodup_dedup keys)).mpr
    fun _ => mem_sortAndDeduplicate.trans List.mem_dedup.symm).map f).sum_eq

theorem StlArena.allocate_mem {arena : StlArena} {bytes align ptr : Nat} {arena' : StlArena}
    (allocated : arena.allocate bytes align = .ok (ptr, arena')) : arena'.mem = arena.mem := by
  unfold StlArena.allocate at allocated
  split at allocated
  · cases allocated; rfl
  · cases allocated

theorem StlArena.readBuckets_eq_ok {arena : StlArena} {store : BucketStore} {places : List LocatedKey}
    {arena' : StlArena} {addr : Nat} {views : List View} (read : arena.readBuckets store places = .ok (arena', addr, views)) :
    Holds arena'.mem addr (tapeBytes store places) ∧ views = readTape store addr places := by
  unfold StlArena.readBuckets at read
  dsimp only at read
  split at read
  · split at read
    · cases read
    · cases read; exact ⟨holds_writeBytes _ _ _, rfl⟩
  · cases read

@[simp] theorem readTape_length (store : BucketStore) : ∀ (addr : Nat) (places : List LocatedKey),
    (readTape store addr places).length = places.length
  | _, [] => rfl
  | _, _ :: places => congrArg (· + 1) (readTape_length store _ places)

theorem readTape_holds (store : BucketStore) {mem : Mem} : ∀ (places : List LocatedKey) (addr : Nat),
    Holds mem addr (tapeBytes store places) → ∀ k (hk : k < places.length), ∃ p,
      (readTape store addr places)[k]? = some ⟨p, ((store.lookup places[k]).getD []).length⟩ ∧
      Holds mem p ((store.lookup places[k]).getD []) ∧
      p + ((store.lookup places[k]).getD []).length ≤ addr + (tapeBytes store places).length
  | [], _, _, k, hk => absurd hk (Nat.not_lt_zero k)
  | loc :: places, addr, held, k, hk => by
    simp only [tapeBytes, List.map_cons, List.flatten_cons, holds_append] at held
    simp only [tapeBytes, List.map_cons, List.flatten_cons, List.length_append]
    cases k with
    | zero => exact ⟨addr, by simp [readTape], held.1, by simp only [List.getElem_cons_zero]; omega⟩
    | succ k =>
      obtain ⟨p, view, bytes, inside⟩ := readTape_holds store places _ held.2 k (Nat.lt_of_succ_lt_succ hk)
      simp only [readTape, List.getElem?_cons_succ, List.getElem_cons_succ]
      exact ⟨p, view, bytes, by simp only [tapeBytes] at inside; omega⟩

theorem readTape_getD_offsetInSorted {store : BucketStore} {mem : Mem} {unique : List LocatedKey} {addr : Nat}
    (held : Holds mem addr (tapeBytes store unique)) {loc : LocatedKey} (member : loc ∈ unique) :
    ∃ p, ((readTape store addr unique).map some).getD (offsetInSorted unique loc) none =
        some ⟨p, ((store.lookup loc).getD []).length⟩ ∧ Holds mem p ((store.lookup loc).getD []) ∧
      p + ((store.lookup loc).getD []).length ≤ addr + (tapeBytes store unique).length := by
  have inside : offsetInSorted unique loc < unique.length := List.indexOf_lt_length.mpr member
  obtain ⟨p, view, bytes, below⟩ := readTape_holds store unique addr held _ inside
  rw [getElem_offsetInSorted inside] at view bytes below
  exact ⟨p, by simp only [List.getD_eq_getElem?_getD, List.getElem?_map, view, Option.map_some', Option.getD_some],
    bytes, below⟩

theorem tapeBytes_length_le {store : BucketStore} {contents : LocatedKey → List (Bytes × Bytes)} :
    ∀ places : List LocatedKey, (∀ loc ∈ places, Encodes ((store.lookup loc).getD []) (contents loc)) →
      (tapeBytes store places).length ≤ (places.map fun loc => (encodeBucket (contents loc)).length).sum
  | [], _ => Nat.le_refl _
  | loc :: places, stored => by
    have bucket : ((store.lookup loc).getD []).length ≤ (encodeBucket (contents loc)).length := by
      rcases stored loc (List.mem_cons_self _ _) with ⟨empty, -⟩ | ⟨bytes, -⟩
      · simp [empty]
      · simp [bytes]
    simp only [tapeBytes_cons, List.length_append, List.map_cons, List.sum_cons]
    exact Nat.add_le_add bucket (tapeBytes_length_le places fun l member => stored l (List.mem_cons_of_mem _ member))

theorem lookup_writeBack (store : BucketStore) (mem : Mem) : ∀ (places : List LocatedKey)
    (buckets : List (Option View)) (loc : LocatedKey), places.Nodup → places.length ≤ buckets.length →
    (writeBack store mem places buckets).lookup loc =
      if loc ∈ places then some (viewBytes mem (buckets.getD (places.indexOf loc) none)) else store.lookup loc
  | [], _, _, _, _ => by simp [writeBack]
  | _ :: _, [], _, _, fits => absurd fits (by simp)
  | place :: places, bucket :: buckets, loc, distinct, fits => by
    obtain ⟨fresh, distinct⟩ := List.nodup_cons.mp distinct
    rw [writeBack, lookup_writeBack _ mem places buckets loc distinct (by simpa using fits)]
    by_cases here : loc = place
    · subst here
      simp [fresh, List.indexOf_cons_self]
    · by_cases later : loc ∈ places
      · simp [later, List.indexOf_cons_ne _ (Ne.symm here)]
      · simp [later, here, AList.lookup_insert_ne here]

theorem writeBack_lookup_of_not_mem (store : BucketStore) (mem : Mem) : ∀ (places : List LocatedKey)
    (buckets : List (Option View)) (loc : LocatedKey), loc ∉ places →
      (writeBack store mem places buckets).lookup loc = store.lookup loc
  | [], _, _, _ => rfl
  | _ :: _, [], _, _ => rfl
  | place :: places, _ :: buckets, loc, away => by
    rw [writeBack, writeBack_lookup_of_not_mem _ mem places buckets loc (fun member => away (List.mem_cons_of_mem _ member)),
      AList.lookup_insert_ne (fun (same : loc = place) => away (same ▸ List.mem_cons_self _ _))]

def Stores (arena : StlArena) (bucket : Option View) (bytes : Bytes) : Prop :=
  ∃ view, bucket = some view ∧ readBytes arena.mem view.ptr view.len = bytes ∧ view.ptr + view.len ≤ arena.top

theorem Stores.frame {arena arena' : StlArena} {bucket : Option View} {bytes : Bytes}
    (h : Stores arena bucket bytes) (same : ∀ a < arena.top, arena'.mem a = arena.mem a)
    (grows : arena.top ≤ arena'.top) : Stores arena' bucket bytes := by
  obtain ⟨view, rfl, read, below⟩ := h
  exact ⟨view, rfl, (readBytes_congr fun i lt => same _ (by omega)).trans read, by omega⟩

theorem upsertInBucket_stores {arena : StlArena} {bucket : Option View} {bytes key : Bytes}
    {members : List (Bytes × Bytes)} (val : Bytes) (h : Stores arena bucket bytes) (e : Encodes bytes members)
    (granted : arena.alloc arena.attempts = true) (absent : key ∉ members.map (·.1)) :
    ∃ arena' bucket', upsertInBucket arena bucket key val = .ok (arena', bucket') ∧
      Stores arena' bucket' (encodeBucket (members ++ [(key, val)])) ∧
      (∀ a < arena.top, arena'.mem a = arena.mem a) ∧ arena.top ≤ arena'.top ∧ arena'.alloc = arena.alloc := by
  obtain ⟨view, rfl, rfl, below⟩ := h
  obtain ⟨arena', run, top, alloc, holds, frame⟩ := upsertInBucket_compact view e below granted _
    (e.findInBucket_absent absent) (keptMembers_of_missing _ _ _) rfl (fun _ hj => ⟨rfl, hj, rfl⟩)
    (Nat.sub_zero _) (Nat.sub_zero _)
  exact ⟨arena', _, run, ⟨_, rfl, holds, Nat.le_of_eq top.symm⟩, frame, by omega, alloc⟩

theorem getD_eq_some {buckets : List (Option View)} {k : Nat} {view : View}
    (h : buckets.getD k none = some view) : k < buckets.length := by
  by_contra outside
  simp [List.getElem?_eq_none (Nat.le_of_not_lt outside)] at h

theorem Encodes.fit {bytes : Bytes} {members : List (Bytes × Bytes)} (h : Encodes bytes members) :
    ∀ m ∈ members, m.1.length < 2 ^ 32 ∧ m.2.length < 2 ^ 32 := by
  rcases h with ⟨-, rfl⟩ | ⟨-, fit, -⟩
  · exact nofun
  · exact fit

theorem Encodes.append {bytes key val : Bytes} {members : List (Bytes × Bytes)} (h : Encodes bytes members)
    (key_fits : key.length < 2 ^ 32) (val_fits : val.length < 2 ^ 32) (few : members.length + 1 < 2 ^ 32) :
    Encodes (encodeBucket (members ++ [(key, val)])) (members ++ [(key, val)]) := by
  refine .inr ⟨rfl, fun m member => ?_, by simpa using few⟩
  rcases List.mem_append.mp member with old | new
  · exact h.fit m old
  · rw [List.mem_singleton.mp new]
    exact ⟨key_fits, val_fits⟩

theorem Encodes.eq_encodeBucket {bytes : Bytes} {members : List (Bytes × Bytes)} (h : Encodes bytes members)
    (nonempty : members ≠ []) : bytes = encodeBucket members := by
  rcases h with ⟨-, empty⟩ | ⟨same, -⟩
  · exact absurd empty nonempty
  · exact same

def batchMembers (hash : Bytes → Int) (tasks : List PathTask) (loc : LocatedKey) : List (Bytes × Bytes) :=
  tasks.filterMap fun t => if t.bucket hash = loc then t.value.map (t.path, ·) else none

def appendPaths (hash : Bytes → Int) (contents : LocatedKey → List (Bytes × Bytes)) (tasks : List PathTask)
    (loc : LocatedKey) : List (Bytes × Bytes) :=
  contents loc ++ batchMembers hash tasks loc

theorem batchMembers_of_untouched {hash : Bytes → Int} {tasks : List PathTask} {loc : LocatedKey}
    (away : loc ∉ tasks.map (·.bucket hash)) : batchMembers hash tasks loc = [] := by
  simp only [batchMembers, List.filterMap_eq_nil_iff, ite_eq_right_iff]
  exact fun t member same => absurd (same ▸ List.mem_map_of_mem _ member) away

theorem batchMembers_of_task {hash : Bytes → Int} : ∀ {tasks : List PathTask} {t : PathTask} {v : Bytes},
    (tasks.map (·.bucket hash)).Nodup → t ∈ tasks → t.value = some v →
      batchMembers hash tasks (t.bucket hash) = [(t.path, v)]
  | r :: tasks, t, v, distinct, member, hv => by
    rw [List.map_cons, List.nodup_cons] at distinct
    rcases List.mem_cons.mp member with rfl | later
    · rw [batchMembers, List.filterMap_cons, if_pos rfl, hv, Option.map_some']
      exact congrArg _ (batchMembers_of_untouched distinct.1)
    · have other : r.bucket hash ≠ t.bucket hash := fun same => distinct.1 (same ▸ List.mem_map_of_mem _ later)
      rw [batchMembers, List.filterMap_cons, if_neg other]
      exact batchMembers_of_task distinct.2 later hv

theorem batchMembers_cons {hash : Bytes → Int} {t : PathTask} {v : Bytes} (hv : t.value = some v)
    (tasks : List PathTask) (loc : LocatedKey) :
    batchMembers hash (t :: tasks) loc =
      if t.bucket hash = loc then (t.path, v) :: batchMembers hash tasks loc else batchMembers hash tasks loc := by
  by_cases here : t.bucket hash = loc <;> simp [batchMembers, here, hv]

theorem appendPaths_single {hash : Bytes → Int} {contents : LocatedKey → List (Bytes × Bytes)} {t : PathTask}
    {v : Bytes} (hv : t.value = some v) (loc : LocatedKey) :
    appendPaths hash contents [t] loc = if t.bucket hash = loc then contents loc ++ [(t.path, v)] else contents loc := by
  by_cases here : t.bucket hash = loc <;> simp [appendPaths, batchMembers, here, hv]

theorem appendPaths_cons (hash : Bytes → Int) (contents : LocatedKey → List (Bytes × Bytes)) (t : PathTask)
    (tasks : List PathTask) :
    appendPaths hash contents (t :: tasks) = appendPaths hash (appendPaths hash contents [t]) tasks := by
  funext loc
  simp only [appendPaths, batchMembers, List.filterMap_cons, List.filterMap_nil]
  split <;> simp

def NewNames (hash : Bytes → Int) (contents : LocatedKey → List (Bytes × Bytes)) (tasks : List PathTask)
    (loc : LocatedKey) : Prop :=
  ((batchMembers hash tasks loc).map (·.1)).Nodup ∧ ∀ m ∈ batchMembers hash tasks loc, m.1 ∉ (contents loc).map (·.1)

instance (hash : Bytes → Int) (contents : LocatedKey → List (Bytes × Bytes)) (tasks : List PathTask) (loc : LocatedKey) :
    Decidable (NewNames hash contents tasks loc) :=
  inferInstanceAs (Decidable (_ ∧ _))

theorem NewNames.tail {hash : Bytes → Int} {contents : LocatedKey → List (Bytes × Bytes)} {t : PathTask}
    {tasks : List PathTask} {v : Bytes} (hv : t.value = some v) {loc : LocatedKey}
    (h : NewNames hash contents (t :: tasks) loc) : NewNames hash (appendPaths hash contents [t]) tasks loc := by
  unfold NewNames at h ⊢
  rw [batchMembers_cons hv] at h
  rw [appendPaths_single hv]
  by_cases here : t.bucket hash = loc
  · rw [if_pos here, List.map_cons, List.nodup_cons] at h
    obtain ⟨⟨first, nodup⟩, new⟩ := h
    rw [if_pos here]
    refine ⟨nodup, fun m later old => ?_⟩
    rw [List.map_append, List.mem_append] at old
    rcases old with old | same
    · exact new m (List.mem_cons_of_mem _ later) old
    · rw [List.map_singleton, List.mem_singleton] at same
      exact first (same ▸ List.mem_map_of_mem _ later)
  · rw [if_neg here] at h ⊢
    exact h

/-- A batch of upserts of paths that are new in their buckets and distinct within them, however
    they collide. The buckets it reads fit the `u32` offsets of the Store's tape, and every bucket
    it rebuilds fits a `u32` length. -/
structure NewPathsBatch (hash : Bytes → Int) (contents : LocatedKey → List (Bytes × Bytes)) (tasks : List PathTask) :
    Prop where
  upserts : ∀ t ∈ tasks, t.value.isSome
  newNames : ∀ t ∈ tasks, NewNames hash contents tasks (t.bucket hash)
  small : ∀ t ∈ tasks, (encodeBucket (appendPaths hash contents tasks (t.bucket hash))).length < 2 ^ 32
  tape : ((tasks.map (·.bucket hash)).dedup.map fun loc => (encodeBucket (contents loc)).length).sum < 2 ^ 32

theorem updateBuckets_appends (hash : Bytes → Int) (unique : List LocatedKey) (places : unique.Nodup) :
    ∀ (tasks : List PathTask) (arena : StlArena) (buckets : List (Option View))
      (contents : LocatedKey → List (Bytes × Bytes)), (∀ n, arena.alloc n = true) →
      (∀ t ∈ tasks, t.bucket hash ∈ unique ∧ t.value.isSome) →
      (∀ t ∈ tasks, NewNames hash contents tasks (t.bucket hash)) →
      (∀ t ∈ tasks, (encodeBucket (appendPaths hash contents tasks (t.bucket hash))).length < 2 ^ 32) →
      (∀ loc ∈ unique, ∃ bytes, Stores arena (buckets.getD (offsetInSorted unique loc) none) bytes ∧
        Encodes bytes (contents loc)) →
      ∃ arena' buckets', updateBuckets hash unique (arena, buckets) tasks = .ok (arena', buckets') ∧
        buckets'.length = buckets.length ∧ ∀ loc ∈ unique, ∃ bytes,
          Stores arena' (buckets'.getD (offsetInSorted unique loc) none) bytes ∧
            Encodes bytes (appendPaths hash contents tasks loc)
  | [], arena, buckets, contents, _, _, _, _, stored =>
    ⟨arena, buckets, rfl, rfl, by simpa [appendPaths, batchMembers] using stored⟩
  | t :: tasks, arena, buckets, contents, granted, each, fresh, small, stored => by
    obtain ⟨placed, upsert⟩ := each t (List.mem_cons_self _ _)
    obtain ⟨v, hv⟩ := Option.isSome_iff_exists.mp upsert
    -- the task's path is new in its bucket, and the bucket with it appended fits the counters
    have absent : t.path ∉ (contents (t.bucket hash)).map (·.1) :=
      (fresh t (List.mem_cons_self _ _)).2 (t.path, v) (by rw [batchMembers_cons hv, if_pos rfl]; exact List.mem_cons_self _ _)
    obtain ⟨fit, few⟩ := encodeBucket_fits (small t (List.mem_cons_self _ _))
    rw [appendPaths, batchMembers_cons hv, if_pos rfl] at fit few
    obtain ⟨key_fits, val_fits⟩ := fit (t.path, v) (List.mem_append_right _ (List.mem_cons_self _ _))
    have few' : (contents (t.bucket hash)).length + 1 < 2 ^ 32 := by
      simp only [List.length_append, List.length_cons] at few
      omega
    rw [appendPaths_cons] at small ⊢
    obtain ⟨bytes, here, e⟩ := stored _ placed
    obtain ⟨arena₁, bucket₁, run, stored₁, same₁, grows₁, alloc₁⟩ := upsertInBucket_stores v here e (granted _) absent
    obtain ⟨view, seen, -⟩ := here
    have inside := getD_eq_some seen
    obtain ⟨arena', buckets', rest, length, done⟩ := updateBuckets_appends hash unique places tasks arena₁
      (buckets.set (offsetInSorted unique (t.bucket hash)) bucket₁) (appendPaths hash contents [t])
      (by rw [alloc₁]; exact granted) (fun r member => each r (List.mem_cons_of_mem _ member))
      (fun r member => (fresh r (List.mem_cons_of_mem _ member)).tail hv)
      (fun r member => small r (List.mem_cons_of_mem _ member))
      fun loc member => by
        rw [appendPaths_single hv]
        by_cases same : t.bucket hash = loc
        · -- the task's own bucket: its members with the new one appended
          subst same
          rw [if_pos rfl]
          simp only [List.getD_eq_getElem?_getD, List.getElem?_set_self inside]
          exact ⟨_, by simpa only [List.getD_eq_getElem?_getD] using stored₁, e.append key_fits val_fits few'⟩
        · -- another bucket: at another index of the array, kept by the arena's frame
          rw [if_neg same]
          have apart : offsetInSorted unique (t.bucket hash) ≠ offsetInSorted unique loc :=
            fun eq => same ((List.indexOf_inj placed member).mp eq)
          obtain ⟨bytes', there, e'⟩ := stored loc member
          simp only [List.getD_eq_getElem?_getD, List.getElem?_set_ne apart] at there ⊢
          exact ⟨bytes', there.frame same₁ grows₁, e'⟩
    exact ⟨arena', buckets', by simp only [updateBuckets, hv, run]; exact rest, by simpa using length, done⟩

/-- A batch of new paths, whatever its collisions, reports no error, leaves at each of its bucket
    places the encoding of the members there followed by the paths it appends, and changes no
    other place. -/
theorem ukvPathsWrite_appends (hash : Bytes → Int) (store : BucketStore) (arena : StlArena) (tasks : List PathTask)
    (contents : LocatedKey → List (Bytes × Bytes)) (granted : ∀ n, arena.alloc n = true)
    (stored : ∀ loc ∈ tasks.map (·.bucket hash), Encodes ((store.lookup loc).getD []) (contents loc))
    (batch : NewPathsBatch hash contents tasks) :
    (ukvPathsWrite hash store arena tasks).2.2 = none ∧
      (∀ loc ∈ tasks.map (·.bucket hash), ∃ bytes, (ukvPathsWrite hash store arena tasks).1.lookup loc = some bytes ∧
        Encodes bytes (appendPaths hash contents tasks loc)) ∧
      ∀ loc ∉ tasks.map (·.bucket hash), (ukvPathsWrite hash store arena tasks).1.lookup loc = store.lookup loc := by
  have read : ∀ loc ∈ sortAndDeduplicate (tasks.map fun task => task.bucket hash),
      Encodes ((store.lookup loc).getD []) (contents loc) := fun loc member => stored loc (mem_sortAndDeduplicate.mp member)
  -- the tape of the batch's buckets fits the read's offsets
  have fits := (tapeBytes_length_le _ read).trans_lt (by rw [sum_sortAndDeduplicate]; exact batch.tape)
  simp only [ukvPathsWrite, StlArena.allocate, granted, StlArena.readBuckets, fits, if_true, alignUp_one]
  set unique := sortAndDeduplicate (tasks.map fun task => task.bucket hash)
  set addr := alignUp arena.top 8 + 16 * tasks.length
  have placed : ∀ t ∈ tasks, t.bucket hash ∈ unique :=
    fun t member => mem_sortAndDeduplicate.mpr (List.mem_map_of_mem _ member)
  obtain ⟨arena', buckets', run, length, done⟩ := updateBuckets_appends hash unique (nodup_sortAndDeduplicate _) tasks
    ⟨writeBytes arena.mem addr (tapeBytes store unique),
      alignUp (addr + (tapeBytes store unique).length) 8 + 16 * unique.length, arena.alloc, arena.attempts + 1 + 1 + 1⟩
    ((readTape store addr unique).map some) contents granted
    (fun t member => ⟨placed t member, batch.upserts t member⟩) batch.newNames batch.small
    fun loc member => by
      obtain ⟨p, view, bytes, below⟩ := readTape_getD_offsetInSorted (holds_writeBytes arena.mem addr _) member
      refine ⟨_, ⟨_, view, bytes, ?_⟩, read loc member⟩
      simp only [alignUp] at below ⊢
      omega
  simp only [run]
  have back := fun loc => lookup_writeBack store arena'.mem unique buckets' loc (nodup_sortAndDeduplicate _)
    (by simp [length])
  refine ⟨trivial, fun loc touched => ?_, fun loc away => ?_⟩
  · have member : loc ∈ unique := mem_sortAndDeduplicate.mpr touched
    obtain ⟨bytes, ⟨view, seen, bytes_read, -⟩, e⟩ := done loc member
    simp only [offsetInSorted] at seen
    exact ⟨bytes, by rw [back, if_pos member, seen, viewBytes, bytes_read], e⟩
  · rw [back, if_neg (mt mem_sortAndDeduplicate.mp away)]

/-- A batch of upserts of new paths into pairwise distinct buckets, each holding no byte or the
    encoding of its members, whose buckets fit the read's `u32` offsets and, with the new member
    appended, a `u32` length: the call reports no error and leaves in the Store each of those
    buckets as its members followed by the new path and its value, and every other place as it was. -/
theorem paths_write_appends_new_paths (hash : Bytes → Int) (store : BucketStore) (arena : StlArena)
    (tasks : List PathTask) (old : LocatedKey → List (Bytes × Bytes)) (granted : ∀ n, arena.alloc n = true)
    (distinct : (tasks.map (·.bucket hash)).Nodup) (upserts : ∀ t ∈ tasks, t.value.isSome)
    (stored : ∀ t ∈ tasks, Encodes ((store.lookup (t.bucket hash)).getD []) (old (t.bucket hash)))
    (fresh : ∀ t ∈ tasks, t.path ∉ (old (t.bucket hash)).map (·.1))
    (tape : (tasks.map fun t => (encodeBucket (old (t.bucket hash))).length).sum < 2 ^ 32)
    (small : ∀ t ∈ tasks, ∀ v, t.value = some v → (encodeBucket (old (t.bucket hash) ++ [(t.path, v)])).length < 2 ^ 32) :
    let written := ukvPathsWrite hash store arena tasks
    written.2.2 = none ∧
      (∀ t ∈ tasks, ∀ v, t.value = some v →
        written.1.lookup (t.bucket hash) = some (encodeBucket (old (t.bucket hash) ++ [(t.path, v)]))) ∧
      ∀ loc ∉ tasks.map (·.bucket hash), written.1.lookup loc = store.lookup loc := by
  -- one task per bucket: each appends exactly its own member
  have batch : NewPathsBatch hash old tasks := by
    refine ⟨upserts, fun t member => ?_, fun t member => ?_, by rw [distinct.dedup, List.map_map]; exact tape⟩ <;>
      obtain ⟨v, hv⟩ := Option.isSome_iff_exists.mp (upserts t member)
    · rw [NewNames, batchMembers_of_task distinct member hv]
      exact ⟨List.nodup_singleton _, fun m new => List.mem_singleton.mp new ▸ fresh t member⟩
    · rw [appendPaths, batchMembers_of_task distinct member hv]
      exact small t member v hv
  obtain ⟨done, touched, untouched⟩ := ukvPathsWrite_appends hash store arena tasks old granted
    (fun loc touched => by obtain ⟨t, member, rfl⟩ := List.mem_map.mp touched; exact stored t member) batch
  refine ⟨done, fun t member v hv => ?_, untouched⟩
  obtain ⟨bytes, found, e⟩ := touched _ (List.mem_map_of_mem _ member)
  rw [appendPaths, batchMembers_of_task distinct member hv] at e
  rw [found, e.eq_encodeBucket (List.append_ne_nil_of_right_ne_nil _ (List.cons_ne_nil _ _))]

def oneBucketStore : BucketStore := (∅ : BucketStore).insert (⟨0, 1⟩ : LocatedKey) (encodeBucket [([97], [1])])

def oneBucketMembers (loc : LocatedKey) : List (Bytes × Bytes) := if loc = ⟨0, 1⟩ then [([97], [1])] else []

theorem paths_write_appends_new_paths_to_two_buckets :
    (ukvPathsWrite (fun path => path.length) oneBucketStore (StlArena.holding [])
      [⟨⟨0, [98]⟩, some [2]⟩, ⟨⟨0, [99, 99]⟩, some [3]⟩]).2.2 = none ∧
    (∀ t ∈ ([⟨⟨0, [98]⟩, some [2]⟩, ⟨⟨0, [99, 99]⟩, some [3]⟩] : List PathTask), ∀ v, t.value = some v →
      (ukvPathsWrite (fun path => path.length) oneBucketStore (StlArena.holding [])
        [⟨⟨0, [98]⟩, some [2]⟩, ⟨⟨0, [99, 99]⟩, some [3]⟩]).1.lookup (t.bucket fun path => path.length) =
        some (encodeBucket ((if t.bucket (fun path => path.length) = ⟨0, 1⟩ then [([97], [1])] else []) ++
          [(t.path, v)]))) ∧
    ∀ loc ∉ ([⟨⟨0, [98]⟩, some [2]⟩, ⟨⟨0, [99, 99]⟩, some [3]⟩] : List PathTask).map
        (·.bucket fun path => path.length),
      (ukvPathsWrite (fun path => path.length) oneBucketStore (StlArena.holding [])
        [⟨⟨0, [98]⟩, some [2]⟩, ⟨⟨0, [99, 99]⟩, some [3]⟩]).1.lookup loc = oneBucketStore.lookup loc :=
  paths_write_appends_new_paths (fun path => path.length) oneBucketStore (StlArena.holding [])
    [⟨⟨0, [98]⟩, some [2]⟩, ⟨⟨0, [99, 99]⟩, some [3]⟩]
    (fun loc => if loc = ⟨0, 1⟩ then [([97], [1])] else []) (fun _ => rfl) (by decide) (by decide) (by decide)
    (by decide) (by decide) (by decide)

/-- Whatever its tasks, the buckets and the arena, `ukv_paths_write` changes no bucket place
    that none of its tasks hashes to, and a call that reports an error changes no place at all:
    the write-back goes to the batch's own sorted places, whatever the update loop left in the
    views. -/
theorem paths_write_changes_only_its_buckets (hash : Bytes → Int) (store : BucketStore) (arena : StlArena)
    (tasks : List PathTask) :
    (∀ loc, loc ∉ tasks.map (·.bucket hash) → (ukvPathsWrite hash store arena tasks).1.lookup loc = store.lookup loc) ∧
    ((ukvPathsWrite hash store arena tasks).2.2.isSome → (ukvPathsWrite hash store arena tasks).1 = store) := by
  refine ⟨fun loc away => ?_, ukvPathsWrite_keeps_store_of_error hash store arena tasks⟩
  unfold ukvPathsWrite
  split
  · rfl
  dsimp only
  split
  · rfl
  split
  · rfl
  split
  · rfl
  · exact writeBack_lookup_of_not_mem _ _ _ _ loc (mt mem_sortAndDeduplicate.mp away)

end Ukv
