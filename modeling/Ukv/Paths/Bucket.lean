import Mathlib.Algebra.Order.BigOperators.Group.List
import Ukv.Memory

/-!
The bucket layout of `modality_paths.cpp`: `[N][name lengths][value lengths][names][values]`
with little-endian `u32` counters. A bucket is read through a view into memory; the walk of
`for_each_in_bucket` follows the two iterators of `get_bucket_keys` and `get_bucket_vals`,
each advancing its length pointer by one counter and its data pointer by the length read.
Decoding undoes encoding: `for_each_in_bucket` passes the members encoded, and `find_in_bucket`
keeps the last member of a name.
-/
namespace Ukv

/-- `value_view_t` with a pointer and a length. The default view `{}` is `none`. -/
structure View where
  ptr : Nat
  len : Nat
  deriving DecidableEq, Repr

def u32Bytes (n : Nat) : Bytes :=
  [UInt8.ofNat n, UInt8.ofNat (n / 2 ^ 8), UInt8.ofNat (n / 2 ^ 16), UInt8.ofNat (n / 2 ^ 24)]

def readU32 (mem : Mem) (addr : Nat) : Nat :=
  (mem addr).toNat + 2 ^ 8 * (mem (addr + 1)).toNat + 2 ^ 16 * (mem (addr + 2)).toNat +
    2 ^ 24 * (mem (addr + 3)).toNat

def writeU32 (mem : Mem) (addr n : Nat) : Mem := writeBytes mem addr (u32Bytes n)

def viewBytes (mem : Mem) : Option View → Bytes
  | some view => readBytes mem view.ptr view.len
  | none => []

@[simp] theorem u32Bytes_length (n : Nat) : (u32Bytes n).length = 4 := rfl

/-- The §3 encoding of a member list; the empty list is stored as no bytes at all. -/
def encodeBucket (members : List (Bytes × Bytes)) : Bytes :=
  u32Bytes members.length ++ ((members.map (·.1.length)).map u32Bytes).flatten ++
    ((members.map (·.2.length)).map u32Bytes).flatten ++ (members.map (·.1)).flatten ++
    (members.map (·.2)).flatten

def counterSize : Nat := 4

def getBucketSize (mem : Mem) : Option View → Nat
  | some bucket => if bucket.len > counterSize then readU32 mem bucket.ptr else 0
  | none => 0

/-- An iterator of `get_bucket_keys` or `get_bucket_vals`: where the next length is read and
    where the next string starts. -/
structure Cursor where
  lengths : Nat
  data : Nat
  deriving DecidableEq, Repr

def getBucketKeys (bucket : View) (size : Nat) : Cursor :=
  ⟨bucket.ptr + counterSize, bucket.ptr + counterSize + size * 2 * counterSize⟩

def sumCounters (mem : Mem) (addr count : Nat) : Nat :=
  ((List.range count).map fun j => readU32 mem (addr + counterSize * j)).sum

/-- `get_bucket_vals`: the values start after all the names, whose lengths it sums. -/
def getBucketVals (mem : Mem) (bucket : View) (size : Nat) : Cursor :=
  let bytesForKeys := sumCounters mem (bucket.ptr + counterSize) size
  ⟨bucket.ptr + counterSize * (1 + size), bucket.ptr + counterSize + size * 2 * counterSize + bytesForKeys⟩

def Cursor.current (mem : Mem) (cursor : Cursor) : View := ⟨cursor.data, readU32 mem cursor.lengths⟩

def Cursor.next (mem : Mem) (cursor : Cursor) : Cursor :=
  ⟨cursor.lengths + counterSize, cursor.data + readU32 mem cursor.lengths⟩

structure BucketMember where
  idx : Nat
  key : View
  value : Option View
  deriving DecidableEq, Repr

def BucketMember.default : BucketMember := ⟨0, ⟨0, 0⟩, none⟩

def walkMembers (mem : Mem) : Nat → Nat → Cursor → Cursor → List BucketMember
  | 0, _, _, _ => []
  | count + 1, i, keys, vals =>
    ⟨i, keys.current mem, some (vals.current mem)⟩ :: walkMembers mem count (i + 1) (keys.next mem) (vals.next mem)

def forEachInBucket (mem : Mem) (bucket : Option View) : List BucketMember :=
  let size := getBucketSize mem bucket
  match bucket with
  | none => []
  | some view => if size = 0 then [] else walkMembers mem size 0 (getBucketKeys view size) (getBucketVals mem view size)

def pickMember (mem : Mem) (key : Bytes) (result member : BucketMember) : BucketMember :=
  if readBytes mem member.key.ptr member.key.len = key then member else result

/-- `find_in_bucket`: the last member whose name is `key`, or the default member. -/
def findInBucket (mem : Mem) (bucket : Option View) (key : Bytes) : BucketMember :=
  (forEachInBucket mem bucket).foldl (pickMember mem key) BucketMember.default

theorem readU32_of_holds {mem : Mem} {addr n : Nat} (h : Holds mem addr (u32Bytes n)) (fits : n < 2 ^ 32) :
    readU32 mem addr = n := by
  have bytes : [mem addr, mem (addr + 1), mem (addr + 2), mem (addr + 3)] = u32Bytes n := h
  simp only [u32Bytes, List.cons.injEq, and_true] at bytes
  obtain ⟨b0, b1, b2, b3⟩ := bytes
  have below : n < 4294967296 := fits
  simp only [readU32, b0, b1, b2, b3]
  show n % 256 + 256 * (n / 256 % 256) + 65536 * (n / 65536 % 256) + 16777216 * (n / 16777216 % 256) = n
  omega

@[simp] theorem flatten_u32Bytes_length (ns : List Nat) : (ns.map u32Bytes).flatten.length = counterSize * ns.length := by
  induction ns with
  | nil => rfl
  | cons n ns ih => simp only [List.map_cons, List.flatten_cons, List.length_append, ih, u32Bytes_length,
      List.length_cons, counterSize]; omega

theorem sumCounters_of_holds {mem : Mem} (ns : List Nat) : ∀ {addr : Nat},
    Holds mem addr (ns.map u32Bytes).flatten → (∀ n ∈ ns, n < 2 ^ 32) → sumCounters mem addr ns.length = ns.sum := by
  induction ns with
  | nil => intro _ _ _; rfl
  | cons n ns ih =>
    intro addr h fits
    rw [List.map_cons, List.flatten_cons, holds_append] at h
    have rest := ih h.2 fun n member => fits n (List.mem_cons_of_mem _ member)
    simp only [sumCounters, List.length_cons, List.range_succ_eq_map, List.map_cons, List.map_map,
      List.sum_cons, Nat.mul_zero, Nat.add_zero, u32Bytes_length] at rest ⊢
    rw [readU32_of_holds h.1 (fits n (List.mem_cons_self _ _)), ← rest]
    congr 2
    refine List.map_congr_left fun j _ => ?_
    simp only [Function.comp, counterSize]
    congr 1
    omega

theorem holds_u32Slots {mem : Mem} (ns : List Nat) : ∀ {addr : Nat},
    (∀ j (hj : j < ns.length), Holds mem (addr + counterSize * j) (u32Bytes ns[j])) →
      Holds mem addr (ns.map u32Bytes).flatten := by
  induction ns with
  | nil => intro _ _; rfl
  | cons n ns ih =>
    intro addr slots
    rw [List.map_cons, List.flatten_cons, holds_append, u32Bytes_length]
    refine ⟨slots 0 (Nat.zero_lt_succ _), ih fun j hj => ?_⟩
    have slot := slots (j + 1) (Nat.succ_lt_succ hj)
    rwa [show addr + counterSize * (j + 1) = addr + 4 + counterSize * j by simp only [counterSize]; omega] at slot

/-- The two iterators stand at the members `rest`: the lengths and bytes ahead of them are the
    members', and every length fits a counter. -/
structure Cursor.At (mem : Mem) (keys vals : Cursor) (rest : List (Bytes × Bytes)) : Prop where
  keyLengths : Holds mem keys.lengths ((rest.map (·.1.length)).map u32Bytes).flatten
  valLengths : Holds mem vals.lengths ((rest.map (·.2.length)).map u32Bytes).flatten
  keyBytes : Holds mem keys.data (rest.map (·.1)).flatten
  valBytes : Holds mem vals.data (rest.map (·.2)).flatten
  fit : ∀ m ∈ rest, m.1.length < 2 ^ 32 ∧ m.2.length < 2 ^ 32

theorem Cursor.At.cons {mem : Mem} {keys vals : Cursor} {m : Bytes × Bytes} {rest : List (Bytes × Bytes)}
    (h : Cursor.At mem keys vals (m :: rest)) :
    readU32 mem keys.lengths = m.1.length ∧ readU32 mem vals.lengths = m.2.length ∧
      Holds mem keys.data m.1 ∧ Holds mem vals.data m.2 ∧
      Cursor.At mem (keys.next mem) (vals.next mem) rest := by
  obtain ⟨kl, vl, kb, vb, fit⟩ := h
  simp only [List.map_cons, List.flatten_cons, holds_append] at kl vl kb vb
  have fits := fit m (List.mem_cons_self _ _)
  have klen := readU32_of_holds kl.1 fits.1
  have vlen := readU32_of_holds vl.1 fits.2
  refine ⟨klen, vlen, kb.1, vb.1, ?_⟩
  rw [Cursor.next, Cursor.next, klen, vlen]
  exact ⟨kl.2, vl.2, kb.2, vb.2, fun m' member => fit m' (List.mem_cons_of_mem _ member)⟩

theorem foldl_pickMember_absent {mem : Mem} {key : Bytes} : ∀ {rest : List (Bytes × Bytes)} {i : Nat}
    {keys vals : Cursor} {init : BucketMember}, Cursor.At mem keys vals rest → key ∉ rest.map (·.1) →
      (walkMembers mem rest.length i keys vals).foldl (pickMember mem key) init = init
  | [], _, _, _, _, _, _ => rfl
  | m :: rest, i, keys, vals, init, h, absent => by
    obtain ⟨klen, -, named, -, h'⟩ := h.cons
    have other : m.1 ≠ key := fun same => absent (same ▸ List.mem_cons_self _ _)
    simp only [List.length_cons, walkMembers, List.foldl_cons, pickMember, Cursor.current, klen]
    rw [named, if_neg other]
    exact foldl_pickMember_absent h' fun member => absent (List.mem_cons_of_mem _ member)

theorem foldl_pickMember_at {mem : Mem} {key : Bytes} : ∀ {rest : List (Bytes × Bytes)} {i : Nat}
    {keys vals : Cursor} {init : BucketMember} {k : Nat} (hk : k < rest.length),
    Cursor.At mem keys vals rest → (rest.map (·.1)).Nodup → rest[k].1 = key →
      (walkMembers mem rest.length i keys vals).foldl (pickMember mem key) init =
        ⟨i + k, ⟨keys.data + ((rest.take k).map (·.1.length)).sum, key.length⟩,
          some ⟨vals.data + ((rest.take k).map (·.2.length)).sum, rest[k].2.length⟩⟩
  | m :: rest, i, keys, vals, init, 0, _, h, distinct, named => by
    obtain ⟨klen, vlen, held, -, h'⟩ := h.cons
    have same : m.1 = key := named
    have absent : key ∉ rest.map (·.1) := same ▸ (List.nodup_cons.mp distinct).1
    simp only [List.length_cons, walkMembers, List.foldl_cons, pickMember, Cursor.current, klen, vlen]
    rw [held, if_pos same, foldl_pickMember_absent h' absent]
    simp [same]
  | m :: rest, i, keys, vals, init, k + 1, hk, h, distinct, named => by
    obtain ⟨klen, vlen, held, -, h'⟩ := h.cons
    have hk' : k < rest.length := Nat.lt_of_succ_lt_succ hk
    have named' : rest[k].1 = key := named
    have other : m.1 ≠ key := by
      intro same
      apply (List.nodup_cons.mp distinct).1
      show m.1 ∈ rest.map (·.1)
      rw [same, ← named']
      exact List.mem_map_of_mem _ (List.getElem_mem _)
    simp only [List.length_cons, walkMembers, List.foldl_cons, pickMember, Cursor.current, klen]
    rw [held, if_neg other,
      foldl_pickMember_at hk' h' (List.nodup_cons.mp distinct).2 named']
    simp only [Cursor.next, klen, vlen, List.take_succ_cons, List.map_cons, List.sum_cons,
      List.getElem_cons_succ, BucketMember.mk.injEq, View.mk.injEq, Option.some.injEq, and_true]
    omega

theorem length_flatten_map (members : List (Bytes × Bytes)) (f : Bytes × Bytes → Bytes) :
    (members.map f).flatten.length = (members.map fun m => (f m).length).sum := by
  simp [List.length_flatten, Function.comp_def]

theorem encodeBucket_length (members : List (Bytes × Bytes)) :
    (encodeBucket members).length = counterSize + members.length * 2 * counterSize +
      (members.map (·.1.length)).sum + (members.map (·.2.length)).sum := by
  simp only [encodeBucket, List.length_append, u32Bytes_length, flatten_u32Bytes_length, List.length_map,
    length_flatten_map, counterSize]
  omega

theorem holds_encodeBucket {mem : Mem} {addr : Nat} {members : List (Bytes × Bytes)}
    (count : Holds mem addr (u32Bytes members.length))
    (keyLengths : ∀ j (hj : j < members.length),
      Holds mem (addr + counterSize + counterSize * j) (u32Bytes members[j].1.length))
    (valLengths : ∀ j (hj : j < members.length),
      Holds mem (addr + counterSize * (1 + members.length) + counterSize * j) (u32Bytes members[j].2.length))
    (names : Holds mem (addr + counterSize + members.length * 2 * counterSize) (members.map (·.1)).flatten)
    (values : Holds mem (addr + counterSize + members.length * 2 * counterSize + (members.map (·.1.length)).sum)
      (members.map (·.2)).flatten) :
    Holds mem addr (encodeBucket members) := by
  have keys : Holds mem (addr + counterSize) ((members.map (·.1.length)).map u32Bytes).flatten :=
    holds_u32Slots _ fun j hj => by
      simp only [List.getElem_map]; exact keyLengths j (by rwa [List.length_map] at hj)
  have vals : Holds mem (addr + counterSize * (1 + members.length))
      ((members.map (·.2.length)).map u32Bytes).flatten :=
    holds_u32Slots _ fun j hj => by
      simp only [List.getElem_map]; exact valLengths j (by rwa [List.length_map] at hj)
  simp only [encodeBucket, holds_append, List.length_append, u32Bytes_length, flatten_u32Bytes_length,
    List.length_map, length_flatten_map]
  simp only [counterSize] at keys vals names values ⊢
  refine ⟨⟨⟨⟨count, keys⟩, ?_⟩, ?_⟩, ?_⟩
  · rwa [show addr + (4 + 4 * members.length) = addr + 4 * (1 + members.length) by omega]
  · rwa [show addr + (4 + 4 * members.length + 4 * members.length) = addr + 4 + members.length * 2 * 4 by omega]
  · rwa [show addr + (4 + 4 * members.length + 4 * members.length + (members.map (·.1.length)).sum) =
      addr + 4 + members.length * 2 * 4 + (members.map (·.1.length)).sum by omega]

theorem Cursor.At.encoded {mem : Mem} {addr : Nat} {members : List (Bytes × Bytes)}
    (h : Holds mem addr (encodeBucket members))
    (fit : ∀ m ∈ members, m.1.length < 2 ^ 32 ∧ m.2.length < 2 ^ 32) (few : members.length < 2 ^ 32) :
    getBucketSize mem (some ⟨addr, (encodeBucket members).length⟩) = members.length ∧
      Cursor.At mem (getBucketKeys ⟨addr, (encodeBucket members).length⟩ members.length)
        (getBucketVals mem ⟨addr, (encodeBucket members).length⟩ members.length) members := by
  have length := encodeBucket_length members
  simp only [encodeBucket, holds_append] at h
  obtain ⟨⟨⟨⟨size, keyLengths⟩, valLengths⟩, keyBytes⟩, valBytes⟩ := h
  simp only [List.length_append, u32Bytes_length, flatten_u32Bytes_length, List.length_map,
    length_flatten_map] at valLengths keyBytes valBytes
  have names := sumCounters_of_holds _ keyLengths fun n member => by
    obtain ⟨m, inside, rfl⟩ := List.mem_map.mp member
    exact (fit m inside).1
  simp only [List.length_map, u32Bytes_length] at names
  simp only [counterSize] at length valLengths keyBytes valBytes
  refine ⟨?_, keyLengths, ?_, ?_, ?_, fit⟩
  · simp only [getBucketSize, counterSize]
    split
    · exact readU32_of_holds size few
    · omega
  · simp only [getBucketVals, counterSize]
    rwa [show addr + 4 * (1 + members.length) = addr + (4 + 4 * members.length) by omega]
  · simp only [getBucketKeys, counterSize]
    rwa [show addr + 4 + members.length * 2 * 4 = addr + (4 + 4 * members.length + 4 * members.length) by omega]
  · simp only [getBucketVals, counterSize, names]
    rwa [show addr + 4 + members.length * 2 * 4 + (members.map (·.1.length)).sum =
      addr + (4 + 4 * members.length + 4 * members.length + (members.map (·.1.length)).sum) by omega]

section Encoded

variable {mem : Mem} {addr : Nat} {members : List (Bytes × Bytes)}
  (h : Holds mem addr (encodeBucket members))
  (fit : ∀ m ∈ members, m.1.length < 2 ^ 32 ∧ m.2.length < 2 ^ 32) (few : members.length < 2 ^ 32)
include h fit few

theorem findInBucket_encoded_absent {key : Bytes} (absent : key ∉ members.map (·.1)) :
    findInBucket mem (some ⟨addr, (encodeBucket members).length⟩) key = BucketMember.default := by
  obtain ⟨size, start⟩ := Cursor.At.encoded h fit few
  simp only [findInBucket, forEachInBucket, size]
  split
  · rfl
  · exact foldl_pickMember_absent start absent

theorem sumCounters_encoded :
    sumCounters mem (addr + counterSize) members.length = (members.map (·.1.length)).sum ∧
      sumCounters mem (addr + counterSize * (1 + members.length)) members.length =
        (members.map (·.2.length)).sum := by
  obtain ⟨-, start⟩ := Cursor.At.encoded h fit few
  constructor
  · simpa only [List.length_map, getBucketKeys] using sumCounters_of_holds _ start.keyLengths fun n member => by
      obtain ⟨m, inside, rfl⟩ := List.mem_map.mp member
      exact (fit m inside).1
  · simpa only [List.length_map, getBucketVals] using sumCounters_of_holds _ start.valLengths fun n member => by
      obtain ⟨m, inside, rfl⟩ := List.mem_map.mp member
      exact (fit m inside).2

theorem findInBucket_encoded_at {key : Bytes} {k : Nat} (hk : k < members.length)
    (distinct : (members.map (·.1)).Nodup) (named : members[k].1 = key) :
    findInBucket mem (some ⟨addr, (encodeBucket members).length⟩) key =
      ⟨k, ⟨addr + counterSize + members.length * 2 * counterSize + ((members.take k).map (·.1.length)).sum,
          key.length⟩,
        some ⟨addr + counterSize + members.length * 2 * counterSize + (members.map (·.1.length)).sum +
          ((members.take k).map (·.2.length)).sum, members[k].2.length⟩⟩ := by
  obtain ⟨size, start⟩ := Cursor.At.encoded h fit few
  have names := (sumCounters_encoded h fit few).1
  simp only [findInBucket, forEachInBucket, size, if_neg (Nat.pos_iff_ne_zero.mp (Nat.zero_lt_of_lt hk))]
  rw [foldl_pickMember_at hk start distinct named]
  simp only [getBucketKeys, getBucketVals, names, Nat.zero_add]

end Encoded

/-- The bytes of a bucket stand for `members`: no byte and no member, or exactly their encoding
    with every length fitting a counter. -/
def Encodes (bytes : Bytes) (members : List (Bytes × Bytes)) : Prop :=
  bytes = [] ∧ members = [] ∨
    bytes = encodeBucket members ∧ (∀ m ∈ members, m.1.length < 2 ^ 32 ∧ m.2.length < 2 ^ 32) ∧
      members.length < 2 ^ 32

instance (bytes : Bytes) (members : List (Bytes × Bytes)) : Decidable (Encodes bytes members) :=
  inferInstanceAs (Decidable (_ ∨ _))

theorem Encodes.reads {mem : Mem} {view : View} {members : List (Bytes × Bytes)}
    (h : Encodes (readBytes mem view.ptr view.len) members) :
    getBucketSize mem (some view) = members.length ∧
      sumCounters mem (view.ptr + counterSize) members.length = (members.map (·.1.length)).sum ∧
      sumCounters mem (view.ptr + counterSize * (1 + members.length)) members.length =
        (members.map (·.2.length)).sum ∧
      Cursor.At mem (getBucketKeys view members.length) (getBucketVals mem view members.length) members := by
  obtain ⟨ptr, len⟩ := view
  rcases h with ⟨empty, rfl⟩ | ⟨bytes, fit, few⟩
  · have : len = 0 := by simpa using congrArg List.length empty
    subst this
    exact ⟨rfl, rfl, rfl, rfl, rfl, rfl, rfl, fun _ absent => nomatch absent⟩
  · have : len = (encodeBucket members).length := by simpa using congrArg List.length bytes
    subst this
    obtain ⟨size, start⟩ := Cursor.At.encoded bytes fit few
    exact ⟨size, (sumCounters_encoded bytes fit few).1, (sumCounters_encoded bytes fit few).2, start⟩

theorem Encodes.frame {mem mem' : Mem} {view : View} {members : List (Bytes × Bytes)} {lo : Nat}
    (h : Encodes (readBytes mem view.ptr view.len) members) (below : view.ptr + view.len ≤ lo)
    (same : ∀ a < lo, mem' a = mem a) : Encodes (readBytes mem' view.ptr view.len) members := by
  rwa [readBytes_congr fun i lt => same _ (by omega)]

theorem Encodes.findInBucket_absent {mem : Mem} {view : View} {members : List (Bytes × Bytes)}
    (h : Encodes (readBytes mem view.ptr view.len) members) {key : Bytes} (absent : key ∉ members.map (·.1)) :
    findInBucket mem (some view) key = BucketMember.default := by
  obtain ⟨size, -, -, start⟩ := h.reads
  simp only [findInBucket, forEachInBucket, size]
  split
  · rfl
  · exact foldl_pickMember_absent start absent

theorem walkMembers_length (mem : Mem) : ∀ count i keys vals, (walkMembers mem count i keys vals).length = count
  | 0, _, _, _ => rfl
  | count + 1, i, keys, vals => by simp only [walkMembers, List.length_cons, walkMembers_length]

theorem walkMembers_getElem? {mem : Mem} : ∀ {rest : List (Bytes × Bytes)} {i : Nat} {keys vals : Cursor},
    Cursor.At mem keys vals rest → ∀ j (hj : j < rest.length),
      (walkMembers mem rest.length i keys vals)[j]? =
          some ⟨i + j, ⟨keys.data + ((rest.take j).map (·.1.length)).sum, rest[j].1.length⟩,
            some ⟨vals.data + ((rest.take j).map (·.2.length)).sum, rest[j].2.length⟩⟩ ∧
        Holds mem (keys.data + ((rest.take j).map (·.1.length)).sum) rest[j].1 ∧
        Holds mem (vals.data + ((rest.take j).map (·.2.length)).sum) rest[j].2
  | m :: rest, i, keys, vals, h, 0, _ => by
    obtain ⟨klen, vlen, name, value, -⟩ := h.cons
    simp only [List.length_cons, walkMembers, List.getElem?_cons_zero, Cursor.current, klen, vlen, List.take_zero,
      List.map_nil, List.sum_nil, Nat.add_zero, List.getElem_cons_zero]
    exact ⟨trivial, name, value⟩
  | m :: rest, i, keys, vals, h, j + 1, hj => by
    obtain ⟨klen, vlen, -, -, h'⟩ := h.cons
    obtain ⟨member, name, value⟩ := @walkMembers_getElem? mem rest (i + 1) _ _ h' j (Nat.lt_of_succ_lt_succ hj)
    simp only [List.length_cons, walkMembers, List.getElem?_cons_succ, member]
    simp only [Cursor.next, klen, vlen, List.take_succ_cons, List.map_cons, List.sum_cons, List.getElem_cons_succ,
      ← Nat.add_assoc] at name value ⊢
    refine ⟨?_, name, value⟩
    rw [Nat.add_right_comm i 1 j]

theorem foldl_pickMember_last {mem : Mem} {key : Bytes} : ∀ {rest : List (Bytes × Bytes)} {i : Nat}
    {keys vals : Cursor} {init : BucketMember} {k : Nat} (hk : k < rest.length),
    Cursor.At mem keys vals rest → rest[k].1 = key → (∀ j (hj : j < rest.length), k < j → rest[j].1 ≠ key) →
      some ((walkMembers mem rest.length i keys vals).foldl (pickMember mem key) init) =
        (walkMembers mem rest.length i keys vals)[k]?
  | m :: rest, i, keys, vals, init, 0, _, h, named, last => by
    obtain ⟨klen, -, held, -, h'⟩ := h.cons
    have absent : key ∉ rest.map (·.1) := by
      intro member
      obtain ⟨j, hj, same⟩ := List.getElem_of_mem member
      rw [List.length_map] at hj
      exact last (j + 1) (by simpa using hj) (Nat.succ_pos j) (by simpa using same)
    simp only [List.length_cons, walkMembers, List.foldl_cons, pickMember, Cursor.current, klen]
    have named' : m.1 = key := named
    rw [held, if_pos named', foldl_pickMember_absent h' absent, List.getElem?_cons_zero]
  | m :: rest, i, keys, vals, init, k + 1, hk, h, named, last => by
    obtain ⟨-, -, -, -, h'⟩ := h.cons
    simp only [List.length_cons, walkMembers, List.foldl_cons, List.getElem?_cons_succ]
    exact foldl_pickMember_last (Nat.lt_of_succ_lt_succ hk) h' named fun j hj later =>
      last (j + 1) (by simpa using hj) (by omega)

theorem encodeBucket_fits {members : List (Bytes × Bytes)} (small : (encodeBucket members).length < 2 ^ 32) :
    (∀ m ∈ members, m.1.length < 2 ^ 32 ∧ m.2.length < 2 ^ 32) ∧ members.length < 2 ^ 32 := by
  rw [encodeBucket_length] at small
  refine ⟨fun m member => ?_, by simp only [counterSize] at small; omega⟩
  have name : m.1.length ≤ (members.map (·.1.length)).sum :=
    List.le_sum_of_mem (List.mem_map_of_mem (·.1.length) member)
  have value : m.2.length ≤ (members.map (·.2.length)).sum :=
    List.le_sum_of_mem (List.mem_map_of_mem (·.2.length) member)
  exact ⟨by omega, by omega⟩

/-- Decoding undoes encoding: over a stored encoding that fits a `u32` length, `get_bucket_size`
    reads the member count, `for_each_in_bucket` passes the members in order with their names and
    values where the tables put them, and `find_in_bucket` keeps the last member of a name. -/
theorem decoding_undoes_encoding (mem : Mem) (addr : Nat) (members : List (Bytes × Bytes))
    (small : (encodeBucket members).length < 2 ^ 32) (stored : Holds mem addr (encodeBucket members)) :
    getBucketSize mem (some ⟨addr, (encodeBucket members).length⟩) = members.length ∧
    (forEachInBucket mem (some ⟨addr, (encodeBucket members).length⟩)).length = members.length ∧
    (∀ i (hi : i < members.length),
      (forEachInBucket mem (some ⟨addr, (encodeBucket members).length⟩))[i]? =
          some ⟨i, ⟨addr + counterSize + members.length * 2 * counterSize +
              ((members.take i).map (·.1.length)).sum, members[i].1.length⟩,
            some ⟨addr + counterSize + members.length * 2 * counterSize + (members.map (·.1.length)).sum +
              ((members.take i).map (·.2.length)).sum, members[i].2.length⟩⟩ ∧
        readBytes mem (addr + counterSize + members.length * 2 * counterSize +
          ((members.take i).map (·.1.length)).sum) members[i].1.length = members[i].1 ∧
        readBytes mem (addr + counterSize + members.length * 2 * counterSize + (members.map (·.1.length)).sum +
          ((members.take i).map (·.2.length)).sum) members[i].2.length = members[i].2) ∧
    (∀ key, key ∉ members.map (·.1) →
      findInBucket mem (some ⟨addr, (encodeBucket members).length⟩) key = BucketMember.default) ∧
    (∀ key k (hk : k < members.length), members[k].1 = key →
      (∀ j (hj : j < members.length), k < j → members[j].1 ≠ key) →
        some (findInBucket mem (some ⟨addr, (encodeBucket members).length⟩) key) =
          (forEachInBucket mem (some ⟨addr, (encodeBucket members).length⟩))[k]?) ∧
    forEachInBucket mem none = [] ∧ ∀ ptr, forEachInBucket mem (some ⟨ptr, 0⟩) = [] := by
  obtain ⟨fit, few⟩ := encodeBucket_fits small
  obtain ⟨size, start⟩ := Cursor.At.encoded stored fit few
  have names := (sumCounters_encoded stored fit few).1
  have walk : forEachInBucket mem (some ⟨addr, (encodeBucket members).length⟩) =
      walkMembers mem members.length 0 (getBucketKeys ⟨addr, (encodeBucket members).length⟩ members.length)
        (getBucketVals mem ⟨addr, (encodeBucket members).length⟩ members.length) := by
    simp only [forEachInBucket, size]
    split
    · next empty => rw [empty]; rfl
    · rfl
  refine ⟨size, by rw [walk, walkMembers_length], fun i hi => ?_, fun key absent =>
    findInBucket_encoded_absent stored fit few absent, fun key k hk named last => ?_, rfl,
    fun ptr => rfl⟩
  · have member := @walkMembers_getElem? mem members 0 _ _ start i hi
    rw [walk]
    simpa only [getBucketKeys, getBucketVals, names, Nat.zero_add] using member
  · rw [findInBucket, walk]
    exact foldl_pickMember_last hk start named last

theorem decoding_undoes_encoding_of_repeated_name :
    (encodeBucket [([97], [1]), ([97], [2])]).length < 2 ^ 32 ∧
    Holds (writeBytes (fun _ => 0) 0 (encodeBucket [([97], [1]), ([97], [2])])) 0
      (encodeBucket [([97], [1]), ([97], [2])]) ∧
    some (findInBucket (writeBytes (fun _ => 0) 0 (encodeBucket [([97], [1]), ([97], [2])]))
        (some ⟨0, (encodeBucket [([97], [1]), ([97], [2])]).length⟩) [97]) =
      (forEachInBucket (writeBytes (fun _ => 0) 0 (encodeBucket [([97], [1]), ([97], [2])]))
        (some ⟨0, (encodeBucket [([97], [1]), ([97], [2])]).length⟩))[1]? :=
  have small : (encodeBucket [([97], [1]), ([97], [2])]).length < 2 ^ 32 := by decide
  have stored := holds_writeBytes (fun _ => 0) 0 (encodeBucket [([97], [1]), ([97], [2])])
  ⟨small, stored, (decoding_undoes_encoding _ _ _ small stored).2.2.2.2.1 [97] 1 (by decide) rfl
    fun j hj later _ => absurd (show j < 2 from hj) (by omega)⟩

def startsWith (str pfx : Bytes) : Bool := decide (str.length ≥ pfx.length) && str.take pfx.length == pfx

end Ukv
