import Ukv.Paths.Match
import Ukv.Paths.Upserts

/-!
The loop of `scan_one_collection_one_range`. A round scans bucket keys from `previous_key`,
reads the buckets found and passes their members' names to the callback; `previous`, the only
input of the next round's scan, changes only when a path is exported. A round that exports
nothing is therefore followed by the same round, and the loop does not stop. What the loop does
export is always the name of a member of a bucket it read.
-/
namespace Ukv

/-- The bucket keys one round scans: from the key `previous` gives, at most `max_count`. -/
def roundKeys (hash : Bytes → Int) (store : BucketStore) (collection maxCount : Nat) (state : ScanState) :
    List Int :=
  ukvScan store collection (if state.previous.isEmpty then some (hash state.previous) else none) maxCount

def roundNames (members : LocatedKey → List (Bytes × Bytes)) (collection : Nat) (keys : List Int) :
    List Bytes :=
  keys.flatMap fun key => (members ⟨collection, key⟩).map (·.1)

theorem Cursor.At.names {mem : Mem} : ∀ {rest : List (Bytes × Bytes)} {i : Nat} {keys vals : Cursor},
    Cursor.At mem keys vals rest →
      (walkMembers mem rest.length i keys vals).map (fun m => readBytes mem m.key.ptr m.key.len) = rest.map (·.1)
  | [], _, _, _, _ => rfl
  | m :: rest, i, keys, vals, h => by
    obtain ⟨klen, -, name, -, h'⟩ := h.cons
    simp only [List.length_cons, walkMembers, List.map_cons, Cursor.current, klen, h'.names]
    exact congrArg (· :: _) name

theorem Encodes.names {mem : Mem} {view : View} {members : List (Bytes × Bytes)}
    (h : Encodes (readBytes mem view.ptr view.len) members) :
    (forEachInBucket mem (some view)).map (fun m => readBytes mem m.key.ptr m.key.len) = members.map (·.1) := by
  obtain ⟨size, -, -, start⟩ := h.reads
  simp only [forEachInBucket, size]
  split
  · next empty => rw [List.eq_nil_of_length_eq_zero empty]; rfl
  · exact start.names

theorem memberNames_readTape (store : BucketStore) (members : LocatedKey → List (Bytes × Bytes)) {mem : Mem} :
    ∀ (places : List LocatedKey) (addr : Nat), (∀ loc ∈ places, Encodes ((store.lookup loc).getD []) (members loc)) →
      Holds mem addr (tapeBytes store places) →
        memberNames mem (readTape store addr places) = places.flatMap fun loc => (members loc).map (·.1)
  | [], _, _, _ => rfl
  | loc :: places, addr, stored, held => by
    rw [tapeBytes_cons, holds_append] at held
    have bucket : Encodes (readBytes mem addr ((store.lookup loc).getD []).length) (members loc) := by
      rw [held.1]; exact stored loc (List.mem_cons_self _ _)
    simp only [readTape, memberNames, List.flatMap_cons]
    rw [← memberNames, ← memberNames_readTape store members places _
      (fun loc' member => stored loc' (List.mem_cons_of_mem _ member)) held.2]
    exact congrArg (· ++ _) bucket.names

theorem scanOneCollectionOneRange_round (hash : Bytes → Int) (store : BucketStore) (collection : Nat)
    (pfx : Bytes) (maxCount : Nat) {members : LocatedKey → List (Bytes × Bytes)} {state : ScanState}
    (stored : ∀ key ∈ roundKeys hash store collection maxCount state,
      Encodes ((store.lookup ⟨collection, key⟩).getD []) (members ⟨collection, key⟩))
    {arena : StlArena} (granted : arena.alloc arena.attempts = true) (room : state.found.length < maxCount)
    (window : 1 < (roundKeys hash store collection maxCount state).length)
    (fits : (tapeBytes store ((roundKeys hash store collection maxCount state).map (⟨collection, ·⟩))).length < 2 ^ 32)
    (fuel : Nat) :
    ∃ next : StlArena, next.alloc = arena.alloc ∧ next.attempts = arena.attempts + 1 ∧
      scanOneCollectionOneRange hash store collection pfx maxCount (fuel + 1) arena state =
        scanOneCollectionOneRange hash store collection pfx maxCount fuel next
          ((roundNames members collection (roundKeys hash store collection maxCount state)).foldl
            (visitMember pfx maxCount) state) := by
  rw [roundKeys] at window stored fits
  simp only [scanOneCollectionOneRange, if_pos room, if_neg (Nat.not_le_of_lt window), StlArena.readBuckets,
    if_pos fits, StlArena.allocate, if_pos granted]
  rw [memberNames_readTape store members _ _ (List.forall_mem_map.mpr stored) (holds_writeBytes _ _ _), List.flatMap_map]
  refine ⟨_, ?_, ?_, rfl⟩ <;> rfl

theorem scanOneCollectionOneRange_of_large_tape (hash : Bytes → Int) (store : BucketStore) (collection : Nat)
    (pfx : Bytes) (maxCount : Nat) {state : ScanState} (room : state.found.length < maxCount)
    (window : 1 < (roundKeys hash store collection maxCount state).length)
    (large : ¬(tapeBytes store ((roundKeys hash store collection maxCount state).map (⟨collection, ·⟩))).length <
      2 ^ 32) :
    ∀ fuel arena, scanOneCollectionOneRange hash store collection pfx maxCount fuel arena state = none
  | 0, _ => rfl
  | _ + 1, _ => by
    rw [roundKeys] at window large
    simp only [scanOneCollectionOneRange, if_pos room, if_neg (Nat.not_le_of_lt window), StlArena.readBuckets,
      if_neg large]

theorem foldl_visitMember_of_no_new_match (pfx : Bytes) (maxCount : Nat) (state : ScanState) :
    ∀ names : List Bytes, (∀ key ∈ names, startsWith key pfx = false ∨
        key ≠ state.previous ∧ state.hasReachedPrevious = false) →
      names.foldl (visitMember pfx maxCount) state = state
  | [], _ => rfl
  | key :: names, quiet => by
    have same : visitMember pfx maxCount state key = state := by
      rcases quiet key (List.mem_cons_self _ _) with outside | ⟨other, unmet⟩
      · simp [visitMember, outside]
      · simp [visitMember, other, unmet]
    rw [List.foldl_cons, same]
    exact foldl_visitMember_of_no_new_match pfx maxCount state names
      fun key' member => quiet key' (List.mem_cons_of_mem _ member)

/-- The prefix scan need not stop. From a state with room for more paths whose scan finds more
    than one bucket key, none of whose members is a new match, every round reads its buckets,
    exports nothing and hands the same state to the next round: no fuel is enough. -/
theorem prefix_scan_repeats_a_round_without_match (hash : Bytes → Int) (store : BucketStore) (collection : Nat)
    (pfx : Bytes) (maxCount : Nat) (members : LocatedKey → List (Bytes × Bytes)) (state : ScanState)
    (stored : ∀ key ∈ roundKeys hash store collection maxCount state,
      Encodes ((store.lookup ⟨collection, key⟩).getD []) (members ⟨collection, key⟩))
    (arena : StlArena) (granted : ∀ n, arena.alloc n = true) (room : state.found.length < maxCount)
    (window : 1 < (roundKeys hash store collection maxCount state).length)
    (noNewMatch : ∀ key ∈ roundNames members collection (roundKeys hash store collection maxCount state),
      startsWith key pfx = false ∨ key ≠ state.previous ∧ state.hasReachedPrevious = false) :
    (∀ fuel, ∃ next : StlArena, (∀ n, next.alloc n = true) ∧
      scanOneCollectionOneRange hash store collection pfx maxCount (fuel + 1) arena state =
        scanOneCollectionOneRange hash store collection pfx maxCount fuel next state) ∧
    ∀ fuel, scanOneCollectionOneRange hash store collection pfx maxCount fuel arena state = none := by
  by_cases fits : (tapeBytes store ((roundKeys hash store collection maxCount state).map (⟨collection, ·⟩))).length <
      2 ^ 32
  swap
  · -- the round's read fails: every fuel ends without an answer
    have stuck := scanOneCollectionOneRange_of_large_tape hash store collection pfx maxCount room window fits
    exact ⟨fun fuel => ⟨arena, granted, by rw [stuck, stuck]⟩, fun fuel => stuck fuel arena⟩
  have round : ∀ (arena : StlArena), (∀ n, arena.alloc n = true) → ∀ fuel, ∃ next : StlArena,
      (∀ n, next.alloc n = true) ∧
      scanOneCollectionOneRange hash store collection pfx maxCount (fuel + 1) arena state =
        scanOneCollectionOneRange hash store collection pfx maxCount fuel next state := by
    intro arena granted fuel
    obtain ⟨next, alloc, -, step⟩ :=
      scanOneCollectionOneRange_round hash store collection pfx maxCount stored (granted _) room window fits fuel
    rw [foldl_visitMember_of_no_new_match pfx maxCount state _ noNewMatch] at step
    exact ⟨next, fun n => alloc ▸ granted n, step⟩
  refine ⟨round arena granted, fun fuel => ?_⟩
  induction fuel generalizing arena with
  | zero => rfl
  | succ fuel ih =>
    obtain ⟨next, granted', step⟩ := round arena granted fuel
    rw [step]
    exact ih next granted'

def twoBucketStore : BucketStore :=
  ((∅ : BucketStore).insert (⟨0, 1⟩ : LocatedKey) (encodeBucket [([97], [1])])).insert (⟨0, 2⟩ : LocatedKey)
    (encodeBucket [([98, 98], [2])])

def twoBucketMembers (loc : LocatedKey) : List (Bytes × Bytes) :=
  if loc = ⟨0, 1⟩ then [([97], [1])] else if loc = ⟨0, 2⟩ then [([98, 98], [2])] else []

theorem prefix_scan_repeats_a_round_without_match_of_two_buckets :
    roundKeys (fun path => path.length) twoBucketStore 0 2 ⟨[], [], true⟩ = [1, 2] ∧
    ∀ fuel, ukvPathsMatch (fun path => path.length) twoBucketStore (StlArena.holding []) [⟨0, [122], [], 2⟩] fuel =
      none :=
  ⟨by decide, fun fuel => by
    simp only [ukvPathsMatch, List.isEmpty_nil, (prefix_scan_repeats_a_round_without_match (fun path => path.length)
      twoBucketStore 0 [122] 2 twoBucketMembers ⟨[], [], true⟩ (by decide) (StlArena.holding []) (fun _ => rfl)
      (by decide) (by decide) (by decide)).2 fuel, Option.map_none']⟩

theorem mem_of_mem_ukvScan {store : BucketStore} {collection : Nat} {minKey : Option Int} {maxCount : Nat}
    {key : Int} (scanned : key ∈ ukvScan store collection minKey maxCount) : (⟨collection, key⟩ : LocatedKey) ∈ store := by
  simp only [ukvScan] at scanned
  obtain ⟨loc, kept, rfl⟩ := List.mem_map.mp ((List.mem_insertionSort _).mp (List.mem_of_mem_take scanned))
  obtain ⟨present, picked⟩ := List.mem_filter.mp kept
  simp only [Bool.and_eq_true, decide_eq_true_eq] at picked
  rw [← picked.1]
  exact present

theorem visitMember_found (pfx : Bytes) (maxCount : Nat) (state : ScanState) (key : Bytes) :
    (visitMember pfx maxCount state key).found = state.found ∨
      (visitMember pfx maxCount state key).found = state.found ++ [key] := by
  unfold visitMember
  repeat' split
  all_goals first | exact .inl rfl | exact .inr rfl

theorem foldl_visitMember_found (pfx : Bytes) (maxCount : Nat) :
    ∀ (names : List Bytes) (state : ScanState), ∀ path ∈ (names.foldl (visitMember pfx maxCount) state).found,
      path ∈ state.found ∨ path ∈ names
  | [], _, _, found => .inl found
  | key :: names, state, path, found => by
    rcases foldl_visitMember_found pfx maxCount names _ path found with earlier | later
    · rcases visitMember_found pfx maxCount state key with step | step <;> rw [step] at earlier
      · exact .inl earlier
      · rcases List.mem_append.mp earlier with old | new
        · exact .inl old
        · exact .inr (List.mem_singleton.mp new ▸ List.mem_cons_self _ _)
    · exact .inr (List.mem_cons_of_mem _ later)

theorem scanOneCollectionOneRange_stored (hash : Bytes → Int) (store : BucketStore) (collection : Nat)
    (pfx : Bytes) (maxCount : Nat) (members : LocatedKey → List (Bytes × Bytes))
    (stored : ∀ key, Encodes ((store.lookup ⟨collection, key⟩).getD []) (members ⟨collection, key⟩)) :
    ∀ fuel arena (state : ScanState) found,
      (∀ path ∈ state.found, ∃ key, (⟨collection, key⟩ : LocatedKey) ∈ store ∧
        path ∈ (members ⟨collection, key⟩).map (·.1)) →
      scanOneCollectionOneRange hash store collection pfx maxCount fuel arena state = some found →
        ∀ path ∈ found, ∃ key, (⟨collection, key⟩ : LocatedKey) ∈ store ∧ path ∈ (members ⟨collection, key⟩).map (·.1) := by
  intro fuel
  induction fuel with
  | zero => intro _ _ _ _ returned; cases returned
  | succ fuel ih =>
    intro arena state found earlier returned
    simp only [scanOneCollectionOneRange] at returned
    split at returned
    · obtain ⟨keys, scan⟩ : ∃ keys, ukvScan store collection
          (if state.previous.isEmpty then some (hash state.previous) else none) maxCount = keys := ⟨_, rfl⟩
      rw [scan] at returned
      split at returned
      · cases returned; exact earlier
      · split at returned
        · cases returned
        · -- the buckets are read into a tape and their members' names passed to the callback
          next arena' addr buckets read =>
          obtain ⟨held, rfl⟩ := StlArena.readBuckets_eq_ok read
          refine ih _ _ _ (fun path member => ?_) returned
          rw [memberNames_readTape store members _ _ (List.forall_mem_map.mpr fun key _ => stored key) held]
            at member
          rcases foldl_visitMember_found pfx maxCount _ state path member with old | new
          · exact earlier path old
          · obtain ⟨loc, scanned, named⟩ := List.mem_flatMap.mp new
            obtain ⟨key, hit, rfl⟩ := List.mem_map.mp scanned
            exact ⟨key, mem_of_mem_ukvScan (scan ▸ hit), named⟩
    · cases returned; exact earlier

/-- A single-task match, over buckets of the task's collection that each hold no byte or the
    encoding of their members, exports only names of members of buckets the Store holds in that
    collection: no path it returns is made up. -/
theorem paths_match_returns_stored_paths (hash : Bytes → Int) (store : BucketStore) (arena : StlArena)
    (task : PrefixMatchTask) (fuel : Nat) (members : LocatedKey → List (Bytes × Bytes))
    (stored : ∀ key, Encodes ((store.lookup ⟨task.collection, key⟩).getD []) (members ⟨task.collection, key⟩))
    (counts : List Nat) (found : List Bytes) (matched : ukvPathsMatch hash store arena [task] fuel = some (counts, found)) :
    ∀ path ∈ found, ∃ key, (⟨task.collection, key⟩ : LocatedKey) ∈ store ∧
      path ∈ (members ⟨task.collection, key⟩).map (·.1) := by
  simp only [ukvPathsMatch, Option.map_eq_some'] at matched
  obtain ⟨paths, scanned, same⟩ := matched
  cases same
  exact scanOneCollectionOneRange_stored hash store task.collection task.pfx task.maxCount members stored fuel arena
    _ _ (fun _ absent => (List.not_mem_nil _ absent).elim) scanned

theorem paths_match_returns_stored_paths_of_two_buckets :
    (∀ key, Encodes ((twoBucketStore.lookup ⟨0, key⟩).getD []) (twoBucketMembers ⟨0, key⟩)) ∧
    ukvPathsMatch (fun path => path.length) twoBucketStore (StlArena.holding []) [⟨0, [], [], 2⟩] 3 =
      some ([2], [[97], [98, 98]]) ∧
    ∀ path ∈ ([[97], [98, 98]] : List Bytes), ∃ key, (⟨0, key⟩ : LocatedKey) ∈ twoBucketStore ∧
      path ∈ (twoBucketMembers ⟨0, key⟩).map (·.1) :=
  have stored : ∀ key, Encodes ((twoBucketStore.lookup ⟨0, key⟩).getD []) (twoBucketMembers ⟨0, key⟩) := fun key => by
    by_cases one : key = 1
    · subst one; decide
    by_cases two : key = 2
    · subst two; decide
    have other : ∀ k : Int, key ≠ k → (⟨0, key⟩ : LocatedKey) ≠ ⟨0, k⟩ := fun k ne same => ne (LocatedKey.mk.inj same).2
    rw [twoBucketStore, AList.lookup_insert_ne (other 2 two), AList.lookup_insert_ne (other 1 one), AList.lookup_empty,
      twoBucketMembers, if_neg (other 1 one), if_neg (other 2 two)]
    exact .inl ⟨rfl, rfl⟩
  have matched : ukvPathsMatch (fun path => path.length) twoBucketStore (StlArena.holding []) [⟨0, [], [], 2⟩] 3 =
      some ([2], [[97], [98, 98]]) := by decide
  ⟨stored, matched, paths_match_returns_stored_paths _ _ _ _ _ _ stored _ _ matched⟩

end Ukv
