import Ukv.Paths.Reads

/-!
The paths layer against what it stands for: each bucket place of the Store holds a list of
members with distinct names, and a batch of upserts of new paths appends each task's path and
value to its bucket's list, in task order, however the paths collide. Over every run of such
batches the Store keeps encoding the lists the batches build, and a read of any paths then
returns, for each, the value its list holds.
-/
namespace Ukv

/-- The Store's buckets stand for `contents`: each place holds no byte or the encoding of its
    members, and the names in each bucket are distinct. -/
structure Represents (store : BucketStore) (contents : LocatedKey → List (Bytes × Bytes)) : Prop where
  encodes : ∀ loc, Encodes ((store.lookup loc).getD []) (contents loc)
  distinct : ∀ loc, ((contents loc).map (·.1)).Nodup

/-- A batch of new paths keeps the Store standing for the buckets' members, now with the batch's
    paths appended. -/
theorem Represents.appendNew {store : BucketStore} {contents : LocatedKey → List (Bytes × Bytes)}
    (h : Represents store contents) {hash : Bytes → Int} {arena : StlArena} {tasks : List PathTask}
    (granted : ∀ n, arena.alloc n = true) (batch : NewPathsBatch hash contents tasks) :
    Represents (ukvPathsWrite hash store arena tasks).1 (appendPaths hash contents tasks) := by
  obtain ⟨-, touched, untouched⟩ :=
    ukvPathsWrite_appends hash store arena tasks contents granted (fun loc _ => h.encodes loc) batch
  refine ⟨fun loc => ?_, fun loc => ?_⟩ <;> by_cases member : loc ∈ tasks.map (·.bucket hash)
  · obtain ⟨bytes, found, e⟩ := touched loc member
    rwa [found]
  · rw [untouched loc member, appendPaths, batchMembers_of_untouched member, List.append_nil]
    exact h.encodes loc
  · -- the appended names are distinct and new in the bucket
    obtain ⟨t, task, rfl⟩ := List.mem_map.mp member
    obtain ⟨nodup, new⟩ := batch.newNames t task
    rw [appendPaths, List.map_append, List.nodup_append]
    refine ⟨h.distinct _, nodup, fun name old added => ?_⟩
    obtain ⟨m, appended, rfl⟩ := List.mem_map.mp added
    exact new m appended old
  · rw [appendPaths, batchMembers_of_untouched member, List.append_nil]
    exact h.distinct loc

def appendRun (hash : Bytes → Int) (contents : LocatedKey → List (Bytes × Bytes)) :
    List (StlArena × List PathTask) → LocatedKey → List (Bytes × Bytes)
  | [] => contents
  | (_, tasks) :: batches => appendRun hash (appendPaths hash contents tasks) batches

/-- Every batch of the run adds new paths to the members the batches before it built, and its
    arena grants every allocation. -/
def NewPathsRun (hash : Bytes → Int) :
    (LocatedKey → List (Bytes × Bytes)) → List (StlArena × List PathTask) → Prop
  | _, [] => True
  | contents, (arena, tasks) :: batches => (∀ n, arena.alloc n = true) ∧ NewPathsBatch hash contents tasks ∧
      NewPathsRun hash (appendPaths hash contents tasks) batches

theorem Represents.runNew {hash : Bytes → Int} : ∀ (batches : List (StlArena × List PathTask))
    {store : BucketStore} {contents : LocatedKey → List (Bytes × Bytes)}, Represents store contents →
    NewPathsRun hash contents batches → Represents (pathsRun hash store batches) (appendRun hash contents batches)
  | [], _, _, h, _ => h
  | (_, _) :: batches, _, _, h, ⟨granted, batch, rest⟩ => Represents.runNew batches (h.appendNew granted batch) rest

/-- Inserting new paths round-trips, whatever the hash collisions. After any run of batches of
    upserts of paths new in their buckets and distinct within their batch, however many of them
    share a bucket within a batch or across batches, a read of any paths returns for each the
    value that the members the run built hold under it, or that it is absent. -/
theorem paths_read_after_new_paths (hash : Bytes → Int) (store : BucketStore)
    (contents : LocatedKey → List (Bytes × Bytes)) (batches : List (StlArena × List PathTask))
    (arena : StlArena) (places : List PathPlace) (holds : Represents store contents)
    (run : NewPathsRun hash contents batches) (granted : ∀ n, arena.alloc n = true)
    (fits : (places.map fun p => (encodeBucket (appendRun hash contents batches (p.bucket hash))).length).sum <
      2 ^ 32) :
    ∃ out, ukvPathsRead hash (pathsRun hash store batches) arena places true = .ok out ∧
      out.rows.map out.value =
        places.map fun p => bucketValue (appendRun hash contents batches (p.bucket hash)) p.path := by
  have final := holds.runNew batches run
  exact paths_read_returns_stored_values hash _ arena places _ granted (fun _ _ => final.encodes _)
    (fun _ _ => final.distinct _)
    ((tapeBytes_length_le _ fun loc _ => final.encodes loc).trans_lt (by rwa [List.map_map]))

theorem paths_read_after_new_paths_in_one_bucket :
    ∃ out, ukvPathsRead (fun path => path.length)
        (pathsRun (fun path => path.length) oneBucketStore
          [(StlArena.holding [], [⟨⟨0, [98]⟩, some [2]⟩, ⟨⟨0, [99]⟩, some [3]⟩]),
            (StlArena.holding [], [⟨⟨0, [100]⟩, some [4]⟩])])
        (StlArena.holding []) [⟨0, [97]⟩, ⟨0, [98]⟩, ⟨0, [99]⟩, ⟨0, [100]⟩, ⟨0, [101, 101]⟩] true = .ok out ∧
      out.rows.map out.value =
        ([⟨0, [97]⟩, ⟨0, [98]⟩, ⟨0, [99]⟩, ⟨0, [100]⟩, ⟨0, [101, 101]⟩] : List PathPlace).map fun p =>
          bucketValue (appendRun (fun path => path.length) oneBucketMembers
            [(StlArena.holding [], [⟨⟨0, [98]⟩, some [2]⟩, ⟨⟨0, [99]⟩, some [3]⟩]),
              (StlArena.holding [], [⟨⟨0, [100]⟩, some [4]⟩])]
            (p.bucket fun path => path.length)) p.path :=
  paths_read_after_new_paths (fun path => path.length) oneBucketStore oneBucketMembers
    [(StlArena.holding [], [⟨⟨0, [98]⟩, some [2]⟩, ⟨⟨0, [99]⟩, some [3]⟩]),
      (StlArena.holding [], [⟨⟨0, [100]⟩, some [4]⟩])]
    (StlArena.holding []) [⟨0, [97]⟩, ⟨0, [98]⟩, ⟨0, [99]⟩, ⟨0, [100]⟩, ⟨0, [101, 101]⟩]
    ⟨fun loc => by
      by_cases here : loc = ⟨0, 1⟩
      · subst here; decide
      · rw [oneBucketStore, AList.lookup_insert_ne here, AList.lookup_empty, oneBucketMembers, if_neg here]
        exact .inl ⟨rfl, rfl⟩,
     fun loc => by by_cases here : loc = ⟨0, 1⟩ <;> simp [oneBucketMembers, here]⟩
    ⟨fun _ => rfl, ⟨by decide, by decide, by decide, by decide⟩, fun _ => rfl,
      ⟨by decide, by decide, by decide, by decide⟩, trivial⟩
    (fun _ => rfl) (by decide)

end Ukv
