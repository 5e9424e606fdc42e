import Ukv.Paths.Batch

/-!
`ukv_paths_match` with one task, which runs `scan_one_collection_one_range`: rounds of a Store
scan over bucket keys, each reading the buckets found and passing their members' names through
the callback of `for_each_in_bucket`. The loop has no bound of its own, so the model takes fuel. Whatever the Store holds, a page holds
at most `max_count` paths, each starting with the prefix.
-/
namespace Ukv

/-- Modelled from the spec: Store `scan` of one task, the present keys of `collection` from
    `minKey` on, ascending, at most `maxCount` of them; `none` is `KEY_UNKNOWN`, the smallest key. -/
def ukvScan (store : BucketStore) (collection : Nat) (minKey : Option Int) (maxCount : Nat) : List Int :=
  (((store.keys.filter fun loc => decide (loc.collection = collection) && minKey.all (· ≤ loc.key)).map
    (·.key)).insertionSort (· ≤ ·)).take maxCount

theorem ukvScan_length_le (store : BucketStore) (collection : Nat) (minKey : Option Int) (maxCount : Nat) :
    (ukvScan store collection minKey maxCount).length ≤ maxCount := by
  simp [ukvScan]

/-- What the scan loop carries: the paths exported, `previous` and `has_reached_previous`. -/
structure ScanState where
  found : List Bytes
  previous : Bytes
  hasReachedPrevious : Bool
  deriving DecidableEq, Repr

def visitMember (pfx : Bytes) (maxCount : Nat) (state : ScanState) (key : Bytes) : ScanState :=
  if !startsWith key pfx then state
  else if key == state.previous then { state with hasReachedPrevious := true }
  else if !state.hasReachedPrevious then state
  else if state.found.length ≥ maxCount then state
  else { state with found := state.found ++ [key], previous := key }

def memberNames (mem : Mem) (buckets : List View) : List Bytes :=
  buckets.flatMap fun bucket => (forEachInBucket mem (some bucket)).map fun m => readBytes mem m.key.ptr m.key.len

/-- `scan_one_collection_one_range`, one round per unit of fuel; `none` when the fuel runs out or
    the read whose error the code does not check fails. -/
def scanOneCollectionOneRange (hash : Bytes → Int) (store : BucketStore) (collection : Nat)
    (pfx : Bytes) (maxCount : Nat) : Nat → StlArena → ScanState → Option (List Bytes)
  | 0, _, _ => none
  | fuel + 1, arena, state =>
    if state.found.length < maxCount then
      let previousKey := if state.previous.isEmpty then some (hash state.previous) else none
      let keys := ukvScan store collection previousKey maxCount
      if keys.length ≤ 1 then some state.found
      else
        match arena.readBuckets store (keys.map (⟨collection, ·⟩)) with
        | .error _ => none
        | .ok (arena, _, buckets) =>
          scanOneCollectionOneRange hash store collection pfx maxCount fuel arena
            ((memberNames arena.mem buckets).foldl (visitMember pfx maxCount) state)
    else some state.found

structure PrefixMatchTask where
  collection : Nat
  pfx : Bytes
  previous : Bytes
  maxCount : Nat
  deriving DecidableEq, Repr

/-- `ukv_paths_match`: the count and the paths of each task. One task runs
    `scan_one_collection_one_range`; the functions for several tasks have empty bodies and leave
    the counts unwritten, which the model reports as `none`. -/
def ukvPathsMatch (hash : Bytes → Int) (store : BucketStore) (arena : StlArena)
    (tasks : List PrefixMatchTask) (fuel : Nat) : Option (List Nat × List Bytes) :=
  match tasks with
  | [task] =>
    (scanOneCollectionOneRange hash store task.collection task.pfx task.maxCount fuel arena
      ⟨[], task.previous, task.previous.isEmpty⟩).map fun found => ([found.length], found)
  | _ => none

def ScanState.Sound (pfx : Bytes) (maxCount : Nat) (state : ScanState) : Prop :=
  state.found.length ≤ maxCount ∧ ∀ path ∈ state.found, startsWith path pfx

theorem ScanState.Sound.visit {pfx : Bytes} {maxCount : Nat} {state : ScanState}
    (h : state.Sound pfx maxCount) (key : Bytes) : (visitMember pfx maxCount state key).Sound pfx maxCount := by
  unfold visitMember
  split
  · exact h
  split
  · exact h
  split
  · exact h
  split
  · exact h
  next starts _ _ room =>
    refine ⟨by simp only [List.length_append, List.length_singleton]; omega, fun path member => ?_⟩
    rcases List.mem_append.mp member with old | new
    · exact h.2 path old
    · rw [List.mem_singleton.mp new]; simpa using starts

theorem ScanState.Sound.foldl {pfx : Bytes} {maxCount : Nat} (names : List Bytes) :
    ∀ {state : ScanState}, state.Sound pfx maxCount →
      (names.foldl (visitMember pfx maxCount) state).Sound pfx maxCount := by
  induction names with
  | nil => exact id
  | cons key names ih => exact fun h => ih (h.visit key)

theorem scanOneCollectionOneRange_sound (hash : Bytes → Int) (store : BucketStore) (collection : Nat)
    (pfx : Bytes) (maxCount : Nat) :
    ∀ fuel arena (state : ScanState) found, state.Sound pfx maxCount →
      scanOneCollectionOneRange hash store collection pfx maxCount fuel arena state = some found →
        found.length ≤ maxCount ∧ ∀ path ∈ found, startsWith path pfx := by
  intro fuel
  induction fuel with
  | zero => intro _ _ _ _ returned; cases returned
  | succ fuel ih =>
    intro arena state found h returned
    simp only [scanOneCollectionOneRange] at returned
    split at returned
    · -- a round: the scan's first key is fixed by `previous`, then the loop breaks or reads
      split at returned <;> split at returned
      all_goals first
        | (cases returned; exact h)
        | (split at returned
           · cases returned
           · exact ih _ _ _ (h.foldl _) returned)
    · cases returned; exact h

/-- Every path a single-task match returns starts with the task's prefix, and there are at most
    `max_count` of them, counted in the reported count. -/
theorem paths_match_returns_prefixed_page (hash : Bytes → Int) (store : BucketStore) (arena : StlArena)
    (task : PrefixMatchTask) (fuel : Nat) (counts : List Nat) (found : List Bytes)
    (matched : ukvPathsMatch hash store arena [task] fuel = some (counts, found)) :
    counts = [found.length] ∧ found.length ≤ task.maxCount ∧ ∀ path ∈ found, startsWith path task.pfx := by
  simp only [ukvPathsMatch, Option.map_eq_some'] at matched
  obtain ⟨paths, scanned, same⟩ := matched
  cases same
  have fresh : ScanState.Sound task.pfx task.maxCount ⟨[], task.previous, task.previous.isEmpty⟩ :=
    ⟨Nat.zero_le _, fun _ absent => nomatch absent⟩
  exact ⟨rfl, scanOneCollectionOneRange_sound hash store task.collection task.pfx task.maxCount fuel arena
    _ _ fresh scanned⟩

theorem paths_match_returns_prefixed_page_of_two_buckets :
    ukvPathsMatch (fun path => path.length)
        (((∅ : BucketStore).insert (⟨0, 1⟩ : LocatedKey) (encodeBucket [([97], [1])])).insert
          (⟨0, 2⟩ : LocatedKey) (encodeBucket [([98, 98], [2])]))
        (StlArena.holding []) [⟨0, [], [], 2⟩] 3 = some ([2], [[97], [98, 98]]) ∧
    [2] = [([[97], [98, 98]] : List Bytes).length] ∧ ([[97], [98, 98]] : List Bytes).length ≤ 2 ∧
      ∀ path ∈ ([[97], [98, 98]] : List Bytes), startsWith path [] :=
  have matched : ukvPathsMatch (fun path => path.length)
      (((∅ : BucketStore).insert (⟨0, 1⟩ : LocatedKey) (encodeBucket [([97], [1])])).insert
        (⟨0, 2⟩ : LocatedKey) (encodeBucket [([98, 98], [2])]))
      (StlArena.holding []) [⟨0, [], [], 2⟩] 3 = some ([2], [[97], [98, 98]]) := by decide
  ⟨matched, paths_match_returns_prefixed_page _ _ _ _ _ _ _ matched⟩

/-- With a page of one path the scan's single bucket key always meets the `<= 1` test meant for
    the end of the collection, so the match returns no path whatever the store holds. -/
theorem paths_match_of_one_path_returns_none (hash : Bytes → Int) (store : BucketStore) (arena : StlArena)
    (collection : Nat) (pfx previous : Bytes) (fuel : Nat) :
    ukvPathsMatch hash store arena [⟨collection, pfx, previous, 1⟩] (fuel + 1) = some ([0], []) := by
  simp [ukvPathsMatch, scanOneCollectionOneRange, ukvScan_length_le]

end Ukv
