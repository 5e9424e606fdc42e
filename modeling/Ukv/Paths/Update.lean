import Ukv.Paths.Bucket
import Ukv.Store.Basic

/-!
Changing one bucket. `upsert_in_bucket` rebuilds the bucket in a fresh arena allocation,
copying every other member and appending the new one; `remove_from_bucket` compacts the
bucket in place with four `remove_part` calls, each a `memmove` of the bytes after the part.
-/
namespace Ukv

/-- Modelled from the spec: `stl_arena_t` of `helpers/pmr.hpp`, a bump allocator over memory
    whose unallocated bytes hold whatever they held. `alloc` is its allocation outcomes. -/
structure StlArena where
  mem : Mem
  top : Nat
  alloc : Alloc
  attempts : Nat

def StlArena.holding (bytes : Bytes) : StlArena := ⟨writeBytes (fun _ => 0) 0 bytes, bytes.length, fun _ => true, 0⟩

def alignUp (addr align : Nat) : Nat := (addr + align - 1) / align * align

def StlArena.allocate (arena : StlArena) (bytes align : Nat) : Except String (Nat × StlArena) :=
  if arena.alloc arena.attempts then
    let ptr := alignUp arena.top align
    .ok (ptr, { arena with top := ptr + bytes, attempts := arena.attempts + 1 })
  else .error "Failed to allocate memory!"

/-- The loop of `upsert_in_bucket` over the `count` old members from index `i`: every member but
    the replaced one is copied behind the names and values written so far, its lengths going to
    slot `i`. The old iterators read their lengths from memory as it is when they are used. -/
def copyMembers (isMissing : Bool) (oldIdx keysLengths valsLengths : Nat) :
    Nat → Nat → Cursor → Cursor → Mem × Nat × Nat → Mem × Nat × Nat
  | 0, _, _, _, state => state
  | count + 1, i, oldKeys, oldVals, (mem, keysOutput, valsOutput) =>
    if !isMissing && i == oldIdx then
      copyMembers isMissing oldIdx keysLengths valsLengths count (i + 1) (oldKeys.next mem)
        (oldVals.next mem) (mem, keysOutput, valsOutput)
    else
      let oldKey := oldKeys.current mem
      let oldVal := oldVals.current mem
      let mem := writeU32 mem (keysLengths + counterSize * i) oldKey.len
      let mem := writeU32 mem (valsLengths + counterSize * i) oldVal.len
      let mem := writeBytes mem keysOutput (readBytes mem oldKey.ptr oldKey.len)
      let mem := writeBytes mem valsOutput (readBytes mem oldVal.ptr oldVal.len)
      copyMembers isMissing oldIdx keysLengths valsLengths count (i + 1) (oldKeys.next mem)
        (oldVals.next mem) (mem, keysOutput + oldKey.len, valsOutput + oldVal.len)

/-- `upsert_in_bucket`: the arena after the call and the new view, or the allocation error it
    returns on. The default view `{}` starts at address `0`. -/
def upsertInBucket (arena : StlArena) (bucket : Option View) (key val : Bytes) :
    Except String (StlArena × Option View) :=
  let mem := arena.mem
  let oldSize := getBucketSize mem bucket
  let oldLengths := (bucket.getD ⟨0, 0⟩).ptr
  let oldBytesForKeys := if bucket.isSome then sumCounters mem (oldLengths + counterSize) oldSize else 0
  let oldBytesForVals :=
    if bucket.isSome then sumCounters mem (oldLengths + counterSize * (1 + oldSize)) oldSize else 0
  let old := findInBucket mem bucket key
  let isMissing := old.value.isNone
  let newSize := oldSize + if isMissing then 1 else 0
  let newBytesForCounters := newSize * 2 * counterSize
  let newBytesForKeys := oldBytesForKeys - old.key.len + key.length
  let newBytesForVals := oldBytesForVals - ((old.value.map (·.len)).getD 0) + val.length
  let newBytes := counterSize + newBytesForCounters + newBytesForKeys + newBytesForVals
  match arena.allocate newBytes 1 with
  | .error e => .error e
  | .ok (newBegin, arena) =>
    let keysLengths := newBegin + counterSize
    let valsLengths := newBegin + counterSize * (1 + newSize)
    let mem := writeU32 arena.mem newBegin newSize
    let (mem, keysOutput, valsOutput) := copyMembers isMissing old.idx keysLengths valsLengths
      oldSize 0 (getBucketKeys (bucket.getD ⟨0, 0⟩) oldSize) (getBucketVals mem (bucket.getD ⟨0, 0⟩) oldSize)
      (mem, newBegin + counterSize + newBytesForCounters,
        newBegin + counterSize + newBytesForCounters + newBytesForKeys)
    let mem := writeU32 mem (keysLengths + counterSize * (newSize - 1)) key.length
    let mem := writeU32 mem (valsLengths + counterSize * (newSize - 1)) val.length
    let mem := writeBytes mem keysOutput key
    let mem := writeBytes mem valsOutput val
    .ok ({ arena with mem := mem }, some ⟨newBegin, newBytes⟩)

/-- Overwriting the first of two members: slot `0` of the new counters is never written, so it
    keeps the zeroed memory's bytes, the names then start one byte early and the path is lost. -/
theorem upsert_overwrite_of_first_member_loses_it :
    ((upsertInBucket (StlArena.holding (encodeBucket [([97], [1]), ([98], [2])])) (some ⟨0, 24⟩) [97] [5]).toOption.map
        fun r => (viewBytes r.1.mem r.2, (findInBucket r.1.mem r.2 [97]).value)) =
      some ([2, 0, 0, 0, 0, 0, 0, 0, 1, 0, 0, 0, 0, 0, 0, 0, 1, 0, 0, 0, 98, 97, 2, 5], none) ∧
    encodeBucket [([98], [2]), ([97], [5])] ≠
      [2, 0, 0, 0, 0, 0, 0, 0, 1, 0, 0, 0, 0, 0, 0, 0, 1, 0, 0, 0, 98, 97, 2, 5] := by
  decide

/-- `remove_part`: moves `full.size() - part.size()` bytes from the end of `part` to its start
    and returns the view shortened by the part. -/
def removePart (mem : Mem) (full part : View) : Mem × View :=
  (memmove mem part.ptr (part.ptr + part.len) (full.len - part.len), ⟨full.ptr, full.len - part.len⟩)

/-- `remove_from_bucket`: the value, the name, the value counter and the name counter are
    removed in that order, and the `u32` count is decremented. -/
def removeFromBucket (mem : Mem) (bucket : Option View) (key : Bytes) : Mem × Option View :=
  let old := findInBucket mem bucket key
  match old.value, bucket with
  | some oldVal, some view =>
    let oldSize := getBucketSize mem bucket
    if oldSize = 1 then (mem, none)
    else
      let (mem, view) := removePart mem view oldVal
      let (mem, view) := removePart mem view old.key
      let begin := view.ptr
      let (mem, view) := removePart mem view ⟨begin + counterSize * (oldSize + old.idx + 1), counterSize⟩
      let (mem, view) := removePart mem view ⟨begin + counterSize * (old.idx + 1), counterSize⟩
      (writeU32 mem begin ((readU32 mem begin + 2 ^ 32 - 1) % 2 ^ 32), some view)
  | _, _ => (mem, bucket)

def keptMembers (isMissing : Bool) (oldIdx : Nat) : Nat → List (Bytes × Bytes) → List (Bytes × Bytes)
  | _, [] => []
  | i, m :: rest =>
    if !isMissing && i == oldIdx then keptMembers isMissing oldIdx (i + 1) rest
    else m :: keptMembers isMissing oldIdx (i + 1) rest

theorem holds_member_writes (mem : Mem) (ks vs ko vo : Nat) (name value : Bytes)
    (slots : ks + counterSize ≤ vs) (names : vs + counterSize ≤ ko) (values : ko + name.length ≤ vo) :
    let mem' := writeBytes (writeBytes (writeU32 (writeU32 mem ks name.length) vs value.length) ko name) vo value
    Holds mem' ks (u32Bytes name.length) ∧ Holds mem' vs (u32Bytes value.length) ∧ Holds mem' ko name ∧
      Holds mem' vo value ∧
      ∀ a, (a < ks ∨ ks + counterSize ≤ a) → (a < vs ∨ vs + counterSize ≤ a) → (a < ko ∨ ko + name.length ≤ a) →
        (a < vo ∨ vo + value.length ≤ a) → mem' a = mem a := by
  simp only [counterSize] at slots names ⊢
  refine ⟨(((holds_writeBytes _ _ _).write _ _ (.inl ?_)).write _ _ (.inl ?_)).write _ _ (.inl ?_),
    ((holds_writeBytes _ _ _).write _ _ (.inl ?_)).write _ _ (.inl ?_), (holds_writeBytes _ _ _).write _ _ (.inl values),
    holds_writeBytes _ _ _, fun a k v n w => ?_⟩
  rotate_right
  · rw [writeBytes_outside _ _ _ _ w, writeBytes_outside _ _ _ _ n, writeU32,
      writeBytes_outside _ _ _ _ (by rw [u32Bytes_length]; exact v), writeU32,
      writeBytes_outside _ _ _ _ (by rw [u32Bytes_length]; exact k)]
  all_goals simp only [u32Bytes_length]; omega

section Copy

variable (isMissing : Bool) (oldIdx lo kL vL : Nat)

structure CopyLayout (i : Nat) (ko vo : Nat) (rest : List (Bytes × Bytes)) : Prop where
  keySlots : lo ≤ kL
  valSlots : kL + counterSize * (i + rest.length) ≤ vL + counterSize * i
  namesAbove : vL + counterSize * (i + rest.length) ≤ ko
  valuesAbove : ko + ((keptMembers isMissing oldIdx i rest).map (·.1.length)).sum ≤ vo

/-- What the copy loop leaves when it copies the old members `rest` from index `i` on, its
    outputs starting at `ko` and `vo`: the kept names and values one after another, each kept
    member's lengths in its own slot, and nothing else written. -/
structure Copied (i : Nat) (rest : List (Bytes × Bytes)) (mem : Mem) (ko vo : Nat) (r : Mem × Nat × Nat) :
    Prop where
  keysOutput : r.2.1 = ko + ((keptMembers isMissing oldIdx i rest).map (·.1.length)).sum
  valsOutput : r.2.2 = vo + ((keptMembers isMissing oldIdx i rest).map (·.2.length)).sum
  names : Holds r.1 ko ((keptMembers isMissing oldIdx i rest).map (·.1)).flatten
  values : Holds r.1 vo ((keptMembers isMissing oldIdx i rest).map (·.2)).flatten
  slots : ∀ j (hj : j < rest.length), (!isMissing && i + j == oldIdx) = false →
    Holds r.1 (kL + counterSize * (i + j)) (u32Bytes rest[j].1.length) ∧
      Holds r.1 (vL + counterSize * (i + j)) (u32Bytes rest[j].2.length)
  frame : ∀ a, (a < kL + counterSize * i ∨ kL + counterSize * (i + rest.length) ≤ a) →
    (a < vL + counterSize * i ∨ vL + counterSize * (i + rest.length) ≤ a) →
    (a < ko ∨ ko + ((keptMembers isMissing oldIdx i rest).map (·.1.length)).sum ≤ a) →
    (a < vo ∨ vo + ((keptMembers isMissing oldIdx i rest).map (·.2.length)).sum ≤ a) → r.1 a = mem a

section Step

variable {isMissing oldIdx lo kL vL} {i ko vo : Nat} {m : Bytes × Bytes} {rest : List (Bytes × Bytes)} {mem : Mem}
  {r : Mem × Nat × Nat}

theorem Copied.skip (skip : (!isMissing && i == oldIdx) = true)
    (h : Copied isMissing oldIdx kL vL (i + 1) rest mem ko vo r) :
    Copied isMissing oldIdx kL vL i (m :: rest) mem ko vo r := by
  have kept : keptMembers isMissing oldIdx i (m :: rest) = keptMembers isMissing oldIdx (i + 1) rest := by
    simp only [keptMembers, skip, if_true]
  obtain ⟨o1, o2, hn, hv, slots, frame⟩ := h
  refine ⟨kept ▸ o1, kept ▸ o2, kept ▸ hn, kept ▸ hv, fun j hj keep => ?_,
    fun a k v n w => frame a ?_ ?_ (kept ▸ n) (kept ▸ w)⟩
  · cases j with
    | zero => simp only [Nat.add_zero, skip] at keep; cases keep
    | succ j =>
      rw [show i + (j + 1) = i + 1 + j by omega] at keep ⊢
      exact slots j (Nat.lt_of_succ_lt_succ hj) keep
  all_goals simp only [List.length_cons, counterSize] at *; omega

theorem outside_of_outside {a lo hi lo' hi' : Nat} (h : a < lo ∨ hi ≤ a) (low : lo ≤ lo') (high : hi' ≤ hi) :
    a < lo' ∨ hi' ≤ a :=
  h.imp (fun below => Nat.lt_of_lt_of_le below low) (fun above => Nat.le_trans high above)

theorem Copied.keep (keep : (!isMissing && i == oldIdx) = false)
    (layout : CopyLayout isMissing oldIdx lo kL vL i ko vo (m :: rest))
    (h : Copied isMissing oldIdx kL vL (i + 1) rest
      (writeBytes (writeBytes (writeU32 (writeU32 mem (kL + counterSize * i) m.1.length) (vL + counterSize * i)
        m.2.length) ko m.1) vo m.2) (ko + m.1.length) (vo + m.2.length) r) :
    Copied isMissing oldIdx kL vL i (m :: rest) mem ko vo r := by
  have kept : keptMembers isMissing oldIdx i (m :: rest) = m :: keptMembers isMissing oldIdx (i + 1) rest := by
    simp only [keptMembers, keep, Bool.false_eq_true, if_false]
  obtain ⟨-, vs, na, va⟩ := layout
  obtain ⟨o1, o2, hn, hv, slots, frame⟩ := h
  rw [kept] at va
  simp only [List.length_cons, List.map_cons, List.sum_cons, counterSize] at vs na va
  obtain ⟨slotK, slotV, name', value', cells⟩ := holds_member_writes mem (kL + counterSize * i)
    (vL + counterSize * i) ko vo m.1 m.2 (by simp only [counterSize]; omega) (by simp only [counterSize]; omega)
    (by omega)
  generalize writeBytes _ _ m.2 = mem' at slotK slotV name' value' cells frame
  simp only [u32Bytes_length, counterSize] at slotK slotV cells slots frame
  refine ⟨?_, ?_, ?_, ?_, ?_, ?_⟩ <;>
    simp only [kept, List.map_cons, List.sum_cons, List.flatten_cons, List.length_cons, counterSize]
  · omega
  · omega
  · exact holds_append.mpr ⟨name'.frame fun a _ _ => frame a (by omega) (by omega) (by omega) (by omega), hn⟩
  · exact holds_append.mpr ⟨value'.frame fun a _ _ => frame a (by omega) (by omega) (by omega) (by omega), hv⟩
  · intro j hj keep'
    cases j with
    | zero =>
      refine ⟨slotK.frame fun a _ hi => ?_, slotV.frame fun a _ hi => ?_⟩ <;> rw [u32Bytes_length] at hi <;>
        exact frame a (by omega) (by omega) (by omega) (by omega)
    | succ j =>
      rw [show i + (j + 1) = i + 1 + j by omega] at keep' ⊢
      exact slots j (Nat.lt_of_succ_lt_succ hj) keep'
  · exact fun a k v n w =>
      (frame a (outside_of_outside k (by omega) (by omega)) (outside_of_outside v (by omega) (by omega))
        (outside_of_outside n (by omega) (by omega)) (outside_of_outside w (by omega) (by omega))).trans
      (cells a (outside_of_outside k (by omega) (by omega)) (outside_of_outside v (by omega) (by omega))
        (outside_of_outside n (by omega) (by omega)) (outside_of_outside w (by omega) (by omega)))

end Step

theorem copyMembers_copies : ∀ (rest : List (Bytes × Bytes)) (i : Nat) (keys vals : Cursor) (mem : Mem)
    (ko vo : Nat), (∀ mem', (∀ a < lo, mem' a = mem a) → Cursor.At mem' keys vals rest) →
    CopyLayout isMissing oldIdx lo kL vL i ko vo rest →
    Copied isMissing oldIdx kL vL i rest mem ko vo
      (copyMembers isMissing oldIdx kL vL rest.length i keys vals (mem, ko, vo)) := by
  intro rest
  induction rest with
  | nil =>
    exact fun _ _ _ _ _ _ _ _ => ⟨rfl, rfl, rfl, rfl, fun j hj => absurd hj (Nat.not_lt_zero j), fun _ _ _ _ _ => rfl⟩
  | cons m rest ih =>
    intro i keys vals mem ko vo stable layout
    obtain ⟨klen, vlen, -⟩ := (stable mem fun _ _ => rfl).cons
    -- every memory agreeing below `lo` steps the iterators to the same places
    have tail : ∀ mem₀, (∀ a < lo, mem₀ a = mem a) → ∀ mem', (∀ a < lo, mem' a = mem₀ a) →
        Cursor.At mem' (keys.next mem₀) (vals.next mem₀) rest := by
      intro mem₀ same₀ mem' same'
      obtain ⟨k₀, v₀, -⟩ := (stable mem₀ same₀).cons
      obtain ⟨k', v', -, -, next⟩ := (stable mem' fun a below => (same' a below).trans (same₀ a below)).cons
      simp only [Cursor.next, k₀, v₀]
      simpa only [Cursor.next, k', v'] using next
    have ks := layout.keySlots
    have vs := layout.valSlots
    have na := layout.namesAbove
    simp only [List.length_cons, counterSize] at vs na
    by_cases skip : (!isMissing && i == oldIdx) = true
    · -- the replaced member: nothing is written for it
      have va := layout.valuesAbove
      simp only [keptMembers, skip, if_true] at va
      simp only [List.length_cons, copyMembers, skip, if_true]
      exact (ih (i + 1) _ _ mem ko vo (tail mem fun _ _ => rfl)
        ⟨ks, by simp only [counterSize]; omega, by simp only [counterSize]; omega, va⟩).skip skip
    · -- a kept member: its two lengths, its name and its value are written
      have keep : (!isMissing && i == oldIdx) = false := by simpa using skip
      have va := layout.valuesAbove
      simp only [keptMembers, keep, Bool.false_eq_true, if_false, List.map_cons, List.sum_cons] at va
      simp only [List.length_cons, copyMembers, keep, Bool.false_eq_true, if_false, Cursor.current, klen, vlen]
      -- every write is above `lo`, so the old name and value still read back
      have nameRead : readBytes (writeU32 (writeU32 mem (kL + counterSize * i) m.1.length) (vL + counterSize * i)
          m.2.length) keys.data m.1.length = m.1 := (stable _ fun a below => by
            rw [writeU32, writeBytes_outside _ _ _ _ (.inl (by omega)), writeU32,
              writeBytes_outside _ _ _ _ (.inl (by omega))]).cons.2.2.1
      rw [nameRead]
      have valueRead : readBytes (writeBytes (writeU32 (writeU32 mem (kL + counterSize * i) m.1.length)
          (vL + counterSize * i) m.2.length) ko m.1) vals.data m.2.length = m.2 := (stable _ fun a below => by
            rw [writeBytes_outside _ _ _ _ (.inl (by omega)), writeU32, writeBytes_outside _ _ _ _ (.inl (by omega)),
              writeU32, writeBytes_outside _ _ _ _ (.inl (by omega))]).cons.2.2.2.1
      rw [valueRead]
      refine Copied.keep keep layout (ih (i + 1) _ _ _ _ _ (tail _ fun a below => ?_)
        ⟨ks, by simp only [counterSize]; omega, by simp only [counterSize]; omega, by omega⟩)
      rw [writeBytes_outside _ _ _ _ (.inl (by omega)), writeBytes_outside _ _ _ _ (.inl (by omega)), writeU32,
        writeBytes_outside _ _ _ _ (.inl (by omega)), writeU32, writeBytes_outside _ _ _ _ (.inl (by omega))]

end Copy

theorem keptMembers_of_missing (oldIdx : Nat) : ∀ (i : Nat) (members : List (Bytes × Bytes)),
    keptMembers true oldIdx i members = members
  | _, [] => rfl
  | i, m :: rest => by
    rw [keptMembers, if_neg (by simp), keptMembers_of_missing oldIdx (i + 1) rest]

theorem keptMembers_of_last (m : Bytes × Bytes) : ∀ (i : Nat) (init : List (Bytes × Bytes)),
    keptMembers false (i + init.length) i (init ++ [m]) = init
  | i, [] => by simp [keptMembers]
  | i, m' :: init => by
    rw [List.cons_append, keptMembers, if_neg (by simp), List.length_cons,
      show i + (init.length + 1) = i + 1 + init.length by omega, keptMembers_of_last m (i + 1) init]

theorem alignUp_one (addr : Nat) : alignUp addr 1 = addr := by
  simp [alignUp]

theorem upsertInBucket_compact {arena : StlArena} {members kept : List (Bytes × Bytes)} {key val : Bytes}
    (view : View) (h : Encodes (readBytes arena.mem view.ptr view.len) members)
    (below : view.ptr + view.len ≤ arena.top) (granted : arena.alloc arena.attempts = true) (old : BucketMember)
    (found : findInBucket arena.mem (some view) key = old)
    (keptIs : keptMembers old.value.isNone old.idx 0 members = kept)
    (size : members.length + (if old.value.isNone then 1 else 0) = kept.length + 1)
    (compact : ∀ j (hj : j < kept.length), (!old.value.isNone && j == old.idx) = false ∧
      ∃ hm : j < members.length, members[j] = kept[j])
    (names : (members.map (·.1.length)).sum - old.key.len = (kept.map (·.1.length)).sum)
    (values : (members.map (·.2.length)).sum - (old.value.map (·.len)).getD 0 = (kept.map (·.2.length)).sum) :
    ∃ arena', upsertInBucket arena (some view) key val =
        .ok (arena', some ⟨arena.top, (encodeBucket (kept ++ [(key, val)])).length⟩) ∧
      arena'.top = arena.top + (encodeBucket (kept ++ [(key, val)])).length ∧ arena'.alloc = arena.alloc ∧
      Holds arena'.mem arena.top (encodeBucket (kept ++ [(key, val)])) ∧
      ∀ a < arena.top, arena'.mem a = arena.mem a := by
  obtain ⟨bucketSize, keysSum, valsSum, -⟩ := h.reads
  simp only [upsertInBucket, bucketSize, Option.isSome_some, if_true, Option.getD_some, keysSum, valsSum, found,
    StlArena.allocate, granted, alignUp_one, size, names, values]
  have sizeLe : members.length ≤ kept.length + 1 := by split at size <;> omega
  clear names values size
  have length' := encodeBucket_length (kept ++ [(key, val)])
  simp only [List.length_append, List.length_singleton, List.map_append, List.sum_append, List.map_cons,
    List.map_nil, List.sum_cons, List.sum_nil, Nat.add_zero] at length'
  rw [show counterSize + (kept.length + 1) * 2 * counterSize + ((kept.map (·.1.length)).sum + key.length) +
    ((kept.map (·.2.length)).sum + val.length) = (encodeBucket (kept ++ [(key, val)])).length by omega]
  -- the old bucket lies below the top: the count written there leaves its iterators in place
  have written : ∀ a < arena.top, writeU32 arena.mem arena.top (kept.length + 1) a = arena.mem a :=
    fun a below' => writeBytes_outside _ _ _ _ (.inl below')
  have stable : ∀ mem', (∀ a < arena.top, mem' a = writeU32 arena.mem arena.top (kept.length + 1) a) →
      Cursor.At mem' (getBucketKeys view members.length)
        (getBucketVals (writeU32 arena.mem arena.top (kept.length + 1)) view members.length) members := by
    intro mem' same
    obtain ⟨-, keys', -, start⟩ := (h.frame below fun a lt => (same a lt).trans (written a lt)).reads
    obtain ⟨-, keys₁, -, -⟩ := (h.frame below written).reads
    simpa only [getBucketVals, keys', keys₁] using start
  obtain ⟨o1, o2, hn, hv, slots, frame⟩ := copyMembers_copies old.value.isNone old.idx arena.top
    (arena.top + counterSize) (arena.top + counterSize * (1 + (kept.length + 1))) members 0 _ _ _
    (arena.top + counterSize + (kept.length + 1) * 2 * counterSize)
    (arena.top + counterSize + (kept.length + 1) * 2 * counterSize + ((kept.map (·.1.length)).sum + key.length))
    stable ⟨Nat.le_add_right _ _, by simp only [counterSize]; omega, by simp only [counterSize]; omega,
      by rw [keptIs]; omega⟩
  simp only [keptIs, counterSize, Nat.zero_add] at o1 o2 hn hv slots frame ⊢
  generalize copyMembers .. = r at o1 o2 hn hv slots frame ⊢
  rw [o1, o2, Nat.add_sub_cancel]
  -- the new member is written behind the copied ones
  obtain ⟨slotK, slotV, name', value', cells⟩ := holds_member_writes r.1 (arena.top + 4 + 4 * kept.length)
    (arena.top + 4 * (1 + (kept.length + 1)) + 4 * kept.length)
    (arena.top + 4 + (kept.length + 1) * 2 * 4 + (kept.map (·.1.length)).sum)
    (arena.top + 4 + (kept.length + 1) * 2 * 4 + ((kept.map (·.1.length)).sum + key.length) +
      (kept.map (·.2.length)).sum) key val
    (by simp only [counterSize]; omega) (by simp only [counterSize]; omega) (by omega)
  simp only [counterSize] at cells
  generalize writeBytes _ _ val = mem' at slotK slotV name' value' cells ⊢
  clear o1 o2 length' stable written keysSum valsSum h found keptIs
  have count : Holds (writeU32 arena.mem arena.top (kept.length + 1)) arena.top (u32Bytes (kept.length + 1)) :=
    holds_writeBytes _ _ _
  -- every slot holds its member's lengths: a copied member's, or the new member's
  have lengths : ∀ j (hj : j < (kept ++ [(key, val)]).length),
      Holds mem' (arena.top + counterSize + counterSize * j) (u32Bytes (kept ++ [(key, val)])[j].1.length) ∧
        Holds mem' (arena.top + counterSize * (1 + (kept ++ [(key, val)]).length) + counterSize * j)
          (u32Bytes (kept ++ [(key, val)])[j].2.length) := by
    intro j hj
    simp only [List.length_append, List.length_singleton, counterSize] at hj ⊢
    rcases Nat.lt_succ_iff_lt_or_eq.mp hj with copied | rfl
    · obtain ⟨skip, hm, same⟩ := compact j copied
      rw [List.getElem_append_left copied, ← same]
      obtain ⟨slotK', slotV'⟩ := slots j hm skip
      refine ⟨slotK'.frame fun a _ hi => ?_, slotV'.frame fun a _ hi => ?_⟩ <;> rw [u32Bytes_length] at hi <;>
        exact cells a (by omega) (by omega) (by omega) (by omega)
    · rw [List.getElem_concat_length _ _ _ rfl]
      exact ⟨slotK, slotV⟩
  refine ⟨_, rfl, rfl, rfl, holds_encodeBucket ?_ (fun j hj => (lengths j hj).1) (fun j hj => (lengths j hj).2) ?_ ?_,
    fun a below' => ?_⟩
  · -- the count, written before the copy
    rw [List.length_append, List.length_singleton]
    exact count.frame fun a _ hi => by
      rw [u32Bytes_length] at hi
      exact (cells a (by omega) (by omega) (by omega) (by omega)).trans
        (frame a (by omega) (by omega) (by omega) (by omega))
  · -- the names: the copied ones, then the new one
    simp only [List.length_append, List.length_singleton, List.map_append, List.map_cons, List.map_nil,
      List.flatten_append, List.flatten_cons, List.flatten_nil, List.append_nil, counterSize]
    refine holds_append.mpr ⟨hn.frame fun a _ hi => ?_, by rwa [length_flatten_map]⟩
    rw [length_flatten_map] at hi
    exact cells a (by omega) (by omega) (by omega) (by omega)
  · -- the values
    simp only [List.length_append, List.length_singleton, List.map_append, List.map_cons, List.map_nil,
      List.flatten_append, List.flatten_cons, List.flatten_nil, List.append_nil, List.sum_append, List.sum_cons,
      List.sum_nil, Nat.add_zero, counterSize]
    refine holds_append.mpr ⟨hv.frame fun a _ hi => ?_, by rwa [length_flatten_map]⟩
    rw [length_flatten_map] at hi
    exact cells a (by omega) (by omega) (by omega) (by omega)
  · -- below the allocation nothing was written
    exact (cells a (by omega) (by omega) (by omega) (by omega)).trans
      ((frame a (by omega) (by omega) (by omega) (by omega)).trans (writeBytes_outside _ _ _ _ (.inl below')))

theorem encodeBucket_length_le_append (members more : List (Bytes × Bytes)) :
    (encodeBucket members).length ≤ (encodeBucket (members ++ more)).length := by
  simp only [encodeBucket_length, counterSize, List.length_append, List.map_append, List.sum_append]
  omega

section Upsert

variable {arena : StlArena} {addr : Nat} {members : List (Bytes × Bytes)} {key val : Bytes}
  (h : Holds arena.mem addr (encodeBucket members)) (below : addr + (encodeBucket members).length ≤ arena.top)
  (granted : arena.alloc arena.attempts = true)
include h below granted

/-- Upserting a name the bucket does not hold appends the member behind all the others, where
    the bucket with the new member fits a `u32` length. -/
theorem upsert_new_name_appends_member (absent : key ∉ members.map (·.1))
    (small : (encodeBucket (members ++ [(key, val)])).length < 2 ^ 32) :
    ∃ arena', upsertInBucket arena (some ⟨addr, (encodeBucket members).length⟩) key val =
        .ok (arena', some ⟨arena.top, (encodeBucket (members ++ [(key, val)])).length⟩) ∧
      arena'.top = arena.top + (encodeBucket (members ++ [(key, val)])).length ∧
      Holds arena'.mem arena.top (encodeBucket (members ++ [(key, val)])) ∧
      ∀ a < arena.top, arena'.mem a = arena.mem a := by
  obtain ⟨fit, few⟩ := encodeBucket_fits ((encodeBucket_length_le_append members _).trans_lt small)
  exact (upsertInBucket_compact ⟨addr, _⟩ (.inr ⟨h, fit, few⟩) below granted _
    (findInBucket_encoded_absent h fit few absent) (keptMembers_of_missing _ _ _) rfl (fun _ hj => ⟨rfl, hj, rfl⟩)
    (Nat.sub_zero _) (Nat.sub_zero _)).imp fun _ ⟨run, top, _, holds, frame⟩ => ⟨run, top, holds, frame⟩

omit h below granted in
theorem upsert_new_name_appends_member_to_one_member :
    let arena := StlArena.holding (encodeBucket [([97], [1])])
    ∃ arena', upsertInBucket arena (some ⟨0, (encodeBucket [([97], [1])]).length⟩) [98] [2] =
        .ok (arena', some ⟨arena.top, (encodeBucket ([([97], [1])] ++ [([98], [2])])).length⟩) ∧
      arena'.top = arena.top + (encodeBucket ([([97], [1])] ++ [([98], [2])])).length ∧
      Holds arena'.mem arena.top (encodeBucket ([([97], [1])] ++ [([98], [2])])) ∧
      ∀ a < arena.top, arena'.mem a = arena.mem a :=
  upsert_new_name_appends_member (holds_writeBytes _ _ _) (by decide) rfl (by decide) (by decide)

/-- Upserting the name of the last member of a bucket of distinct names puts the new value in
    its place, where the bucket and its replacement each fit a `u32` length. -/
theorem upsert_last_name_replaces_its_value {init : List (Bytes × Bytes)} {old : Bytes}
    (last : members = init ++ [(key, old)]) (distinct : (members.map (·.1)).Nodup)
    (small : max (encodeBucket members).length (encodeBucket (init ++ [(key, val)])).length < 2 ^ 32) :
    ∃ arena', upsertInBucket arena (some ⟨addr, (encodeBucket members).length⟩) key val =
        .ok (arena', some ⟨arena.top, (encodeBucket (init ++ [(key, val)])).length⟩) ∧
      arena'.top = arena.top + (encodeBucket (init ++ [(key, val)])).length ∧
      Holds arena'.mem arena.top (encodeBucket (init ++ [(key, val)])) ∧
      ∀ a < arena.top, arena'.mem a = arena.mem a := by
  obtain ⟨fit, few⟩ := encodeBucket_fits (lt_of_le_of_lt (le_max_left _ _) small)
  subst last
  have hk : init.length < (init ++ [(key, old)]).length := by simp
  have named : (init ++ [(key, old)])[init.length].1 = key := by simp
  have found := findInBucket_encoded_at h fit few hk distinct named
  refine (upsertInBucket_compact ⟨addr, _⟩ (.inr ⟨h, fit, few⟩) below granted _ found
    (by simpa only [Nat.zero_add] using keptMembers_of_last (key, old) 0 init) (by simp)
    (fun j hj => ⟨by simp [Nat.ne_of_lt hj], by simp; omega, by simp [List.getElem_append_left hj]⟩) ?_ ?_).imp
    fun _ ⟨run, top, _, holds, frame⟩ => ⟨run, top, holds, frame⟩ <;>
  simp [List.sum_append]

omit h below granted in
theorem upsert_last_name_replaces_its_value_of_two_members :
    let arena := StlArena.holding (encodeBucket [([97], [1]), ([98], [2])])
    ∃ arena', upsertInBucket arena (some ⟨0, (encodeBucket [([97], [1]), ([98], [2])]).length⟩) [98] [5] =
        .ok (arena', some ⟨arena.top, (encodeBucket ([([97], [1])] ++ [([98], [5])])).length⟩) ∧
      arena'.top = arena.top + (encodeBucket ([([97], [1])] ++ [([98], [5])])).length ∧
      Holds arena'.mem arena.top (encodeBucket ([([97], [1])] ++ [([98], [5])])) ∧
      ∀ a < arena.top, arena'.mem a = arena.mem a :=
  upsert_last_name_replaces_its_value (holds_writeBytes _ _ _) (by decide) rfl rfl (by decide) (by decide)

end Upsert

end Ukv
