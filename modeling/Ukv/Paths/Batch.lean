import Mathlib.Data.List.Sort
import Ukv.Paths.Update

/-!
`ukv_paths_write` and `ukv_paths_read`. Paths are hashed to bucket keys; a write reads every
targeted bucket into one tape, updates the buckets task by task and writes them all back; a
read finds each path in its bucket and packs the values found at the start of the tape.
The Store calls and the sorting helpers are not in the source tree and follow the spec.
-/
namespace Ukv

/-- Modelled from the spec: the Store as the paths layer uses it, one bucket of bytes per
    (collection, bucket key). A bucket written back as the empty view holds no bytes. -/
abbrev BucketStore := AList (fun _ : LocatedKey => Bytes)

def LocatedKey.Le (a b : LocatedKey) : Prop :=
  a.collection < b.collection ∨ a.collection = b.collection ∧ a.key ≤ b.key

instance : DecidableRel LocatedKey.Le := fun a b =>
  inferInstanceAs (Decidable (a.collection < b.collection ∨ a.collection = b.collection ∧ a.key ≤ b.key))

def sortAndDeduplicate (keys : List LocatedKey) : List LocatedKey :=
  (keys.insertionSort LocatedKey.Le).eraseDups

def offsetInSorted (keys : List LocatedKey) (key : LocatedKey) : Nat := keys.indexOf key

def tapeBytes (store : BucketStore) (places : List LocatedKey) : Bytes :=
  (places.map fun loc => (store.lookup loc).getD []).flatten

theorem tapeBytes_cons (store : BucketStore) (loc : LocatedKey) (places : List LocatedKey) :
    tapeBytes store (loc :: places) = (store.lookup loc).getD [] ++ tapeBytes store places := rfl

/-- Modelled from the spec: the views of a Store `read` into a tape at `addr`; an absent
    bucket is an empty view where the next one starts. -/
def readTape (store : BucketStore) (addr : Nat) : List LocatedKey → List View
  | [] => []
  | loc :: places =>
    let bytes := (store.lookup loc).getD []
    ⟨addr, bytes.length⟩ :: readTape store (addr + bytes.length) places

/-- Modelled from the spec: Store `read` with values, its tape allocated in the arena: the
    arena after it, the tape's address and the buckets' views. The read reports `u32` offsets,
    so a tape of `2 ^ 32` bytes or more cannot be exported and fails as an allocation does. -/
def StlArena.readBuckets (arena : StlArena) (store : BucketStore) (places : List LocatedKey) :
    Except String (StlArena × Nat × List View) :=
  let tape := tapeBytes store places
  if tape.length < 2 ^ 32 then
    match arena.allocate tape.length 1 with
    | .error e => .error e
    | .ok (addr, arena) =>
      .ok ({ arena with mem := writeBytes arena.mem addr tape }, addr, readTape store addr places)
  else .error "Failed to allocate memory!"

structure PathPlace where
  collection : Nat
  path : Bytes
  deriving DecidableEq, Repr

structure PathTask extends PathPlace where
  value : Option Bytes
  deriving DecidableEq, Repr

def PathPlace.bucket (hash : Bytes → Int) (place : PathPlace) : LocatedKey :=
  ⟨place.collection, hash place.path⟩

def updateBuckets (hash : Bytes → Int) (unique : List LocatedKey) :
    StlArena × List (Option View) → List PathTask → Except String (StlArena × List (Option View))
  | state, [] => .ok state
  | (arena, buckets), task :: tasks =>
    let bucketIdx := offsetInSorted unique (task.bucket hash)
    let bucket := buckets.getD bucketIdx none
    match task.value with
    | some value =>
      match upsertInBucket arena bucket task.path value with
      | .error e => .error e
      | .ok (arena, bucket) => updateBuckets hash unique (arena, buckets.set bucketIdx bucket) tasks
    | none =>
      let (mem, bucket) := removeFromBucket arena.mem bucket task.path
      updateBuckets hash unique ({ arena with mem := mem }, buckets.set bucketIdx bucket) tasks

def writeBack (store : BucketStore) (mem : Mem) : List LocatedKey → List (Option View) → BucketStore
  | loc :: places, bucket :: buckets => writeBack (store.insert loc (viewBytes mem bucket)) mem places buckets
  | _, _ => store

/-- `ukv_paths_write`: the Store after the call, the arena and the error. The arrays of places and
    of views are kept outside the arena's bytes; their allocations are made all the same. -/
def ukvPathsWrite (hash : Bytes → Int) (store : BucketStore) (arena : StlArena) (tasks : List PathTask) :
    BucketStore × StlArena × Option String :=
  match arena.allocate (16 * tasks.length) 8 with
  | .error e => (store, arena, some e)
  | .ok (_, arena) =>
    let unique := sortAndDeduplicate (tasks.map fun task => task.bucket hash)
    match arena.readBuckets store unique with
    | .error e => (store, arena, some e)
    | .ok (arena, _, views) =>
      match arena.allocate (16 * unique.length) 8 with
      | .error e => (store, arena, some e)
      | .ok (_, arena) =>
        match updateBuckets hash unique (arena, views.map some) tasks with
        | .error e => (store, arena, some e)
        | .ok (arena, buckets) => (writeBack store arena.mem unique buckets, arena, none)

theorem ukvPathsWrite_keeps_store_of_error (hash : Bytes → Int) (store : BucketStore) (arena : StlArena)
    (tasks : List PathTask) (failed : (ukvPathsWrite hash store arena tasks).2.2.isSome) :
    (ukvPathsWrite hash store arena tasks).1 = store := by
  unfold ukvPathsWrite at failed ⊢
  split
  · rfl
  dsimp only
  split
  · rfl
  split
  · rfl
  split
  · rfl
  · simp_all

/-- Removing the first member of a bucket moves as many bytes as the bucket holds after the
    value, not after the member: the overflow reaches the next bucket of the tape and zeroes its
    count, where the same bucket processed alone keeps its two members. -/
theorem paths_write_removal_corrupts_next_bucket :
    let store : BucketStore :=
      ((∅ : BucketStore).insert (⟨0, 1⟩ : LocatedKey)
        (encodeBucket [([97], (List.range 16).map fun i => UInt8.ofNat (i + 1)), ([98], [1])])).insert
        (⟨0, 2⟩ : LocatedKey) (encodeBucket [([99, 99], [1]), ([100, 100], [1])])
    (ukvPathsWrite (fun path => path.length) store (StlArena.holding []) [⟨⟨0, [97]⟩, none⟩, ⟨⟨0, [122, 122]⟩, none⟩]).1.lookup ⟨0, 2⟩ =
      some [0, 0, 0, 0, 99, 99, 0, 0, 2, 0, 0, 0, 1, 0, 0, 0, 1, 0, 0, 0, 99, 99, 100, 100, 1, 1] ∧
    (ukvPathsWrite (fun path => path.length) store (StlArena.holding []) [⟨⟨0, [122, 122]⟩, none⟩]).1.lookup ⟨0, 2⟩ =
      some (encodeBucket [([99, 99], [1]), ([100, 100], [1])]) := by
  decide

def pathsRun (hash : Bytes → Int) (store : BucketStore) : List (StlArena × List PathTask) → BucketStore
  | [] => store
  | (arena, tasks) :: batches => pathsRun hash (ukvPathsWrite hash store arena tasks).1 batches

def lengthMissing : Nat := 2 ^ 32 - 1

structure PathRow where
  present : Bool
  offset : Nat
  length : Nat
  deriving DecidableEq, Repr

/-- The export loop of `ukv_paths_read`: each value found is moved to the exported volume of
    the tape, when values are requested. -/
def exportPaths (tape : Nat) (copy : Bool) :
    Mem × Nat → List (Bytes × View) → Mem × Nat × List PathRow
  | (mem, exported), [] => (mem, exported, [])
  | (mem, exported), (path, bucket) :: rest =>
    match (findInBucket mem (some bucket) path).value with
    | some val =>
      let mem := if copy then memmove mem (tape + exported) val.ptr val.len else mem
      let (mem, total, rows) := exportPaths tape copy (mem, (exported + val.len) % 2 ^ 32) rest
      (mem, total, ⟨true, exported, val.len % 2 ^ 32⟩ :: rows)
    | none =>
      let (mem, total, rows) := exportPaths tape copy (mem, exported) rest
      (mem, total, ⟨false, exported, lengthMissing⟩ :: rows)

structure PathsExport where
  mem : Mem
  rows : List PathRow
  total : Nat
  values : Nat

def ukvPathsRead (hash : Bytes → Int) (store : BucketStore) (arena : StlArena)
    (places : List PathPlace) (copy : Bool) : Except String PathsExport :=
  match arena.allocate (8 * places.length) 8 with
  | .error e => .error e
  | .ok (_, arena) =>
    match arena.readBuckets store (places.map (·.bucket hash)) with
    | .error e => .error e
    | .ok (arena, tape, buckets) =>
      let (mem, total, rows) := exportPaths tape copy (arena.mem, 0) ((places.map (·.path)).zip buckets)
      .ok ⟨mem, rows, total, tape⟩

def PathsExport.value (out : PathsExport) (row : PathRow) : Option Bytes :=
  if row.present then some (readBytes out.mem (out.values + row.offset) row.length) else none

/-- Two colliding paths, then an overwrite of the first: `a` reads as absent and `b` as the
    bytes of the name `a`, because the rebuilt bucket's first length slot was never written. -/
theorem paths_read_after_collided_overwrite :
    ((ukvPathsRead (fun path => path.length)
        (pathsRun (fun path => path.length) ∅
          [(StlArena.holding [], [⟨⟨0, [97]⟩, some [1]⟩, ⟨⟨0, [98]⟩, some [2]⟩]),
           (StlArena.holding [], [⟨⟨0, [97]⟩, some [3]⟩])])
        (StlArena.holding []) [⟨0, [97]⟩, ⟨0, [98]⟩] true).toOption.map
      fun out => out.rows.map out.value) = some [none, some [97]] := by
  decide

end Ukv
