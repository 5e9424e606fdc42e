import Ukv.Paths.Reads

/-!
`remove_from_bucket` over a bucket of distinct names. `remove_part` moves as many bytes as the
whole view holds, past the view's end, but the shortened view it returns holds the old view's
bytes with the part cut out. The four cuts take the member's value, name, value length and name
length out of the four tables of the encoding; with the count decremented, the view holds the
encoding of the other members in their order. A name the bucket does not hold is never cut, so a
batch of such removals writes every bucket back as it was read.
-/
namespace Ukv

def cutBytes (bytes : Bytes) (start len : Nat) : Bytes := bytes.take start ++ bytes.drop (start + len)

theorem eraseIdx_map {α β : Type} (f : α → β) (l : List α) (k : Nat) :
    (l.map f).eraseIdx k = (l.eraseIdx k).map f := by
  simp only [List.eraseIdx_eq_take_drop_succ, List.map_append, List.map_take, List.map_drop]

theorem cutBytes_flatten (post : Bytes) : ∀ (pieces : List Bytes) (pre : Bytes) (k : Nat) (hk : k < pieces.length),
    cutBytes (pre ++ pieces.flatten ++ post) (pre.length + ((pieces.take k).map List.length).sum)
        pieces[k].length = pre ++ (pieces.eraseIdx k).flatten ++ post
  | piece :: pieces, pre, 0, _ => by
    simp [cutBytes, List.take_append_eq_append_take, List.drop_append_eq_append_drop]
  | piece :: pieces, pre, k + 1, hk => by
    have rest := cutBytes_flatten post pieces (pre ++ piece) k (Nat.lt_of_succ_lt_succ hk)
    simp only [List.length_append, List.append_assoc, List.flatten_cons] at rest
    simp only [List.take_succ_cons, List.map_cons, List.sum_cons, List.getElem_cons_succ, List.eraseIdx_cons_succ,
      List.flatten_cons, List.append_assoc, ← Nat.add_assoc, rest]

theorem sum_take_add_getElem_le {α : Type} (f : α → Nat) (l : List α) (k : Nat) (hk : k < l.length) :
    ((l.take k).map f).sum + f l[k] ≤ (l.map f).sum := by
  have split := congrArg (fun l => (l.map f).sum) (List.take_append_drop k l)
  simp only [List.map_append, List.sum_append, List.drop_eq_getElem_cons hk, List.map_cons, List.sum_cons] at split
  omega

theorem removePart_bytes (mem : Mem) (full part : View) (start : full.ptr ≤ part.ptr)
    (inside : part.ptr + part.len ≤ full.ptr + full.len) :
    (removePart mem full part).2 = ⟨full.ptr, full.len - part.len⟩ ∧
      readBytes (removePart mem full part).1 full.ptr (full.len - part.len) =
        cutBytes (readBytes mem full.ptr full.len) (part.ptr - full.ptr) part.len := by
  refine ⟨rfl, List.ext_getElem ?_ fun i inRead inCut => ?_⟩
  · simp only [readBytes_length, cutBytes, List.length_append, List.length_take, List.length_drop]
    omega
  simp only [readBytes_length] at inRead
  rw [getElem_readBytes]
  simp only [removePart, memmove, cutBytes]
  by_cases before : i < part.ptr - full.ptr
  · rw [writeBytes_outside _ _ _ _ (.inl (by omega)),
      List.getElem_append_left (by simp only [List.length_take, readBytes_length]; omega), List.getElem_take,
      getElem_readBytes]
  · have offset : full.ptr + i = part.ptr + (full.ptr + i - part.ptr) := by omega
    rw [offset, writeBytes_inside _ _ _ _ (by simp only [readBytes_length]; omega), getElem_readBytes,
      List.getElem_append_right (by simp only [List.length_take, readBytes_length]; omega), List.getElem_drop,
      getElem_readBytes]
    congr 1
    simp only [List.length_take, readBytes_length]
    omega

theorem Encodes.findInBucket_reads {mem : Mem} {view : View} {members : List (Bytes × Bytes)}
    (h : Encodes (readBytes mem view.ptr view.len) members) (distinct : (members.map (·.1)).Nodup) (key : Bytes) :
    ((findInBucket mem (some view) key).value.map fun v => readBytes mem v.ptr v.len) = bucketValue members key := by
  by_cases present : key ∈ members.map (·.1)
  · obtain ⟨k, hk, named⟩ := List.getElem_of_mem present
    rw [List.length_map] at hk
    rw [List.getElem_map] at named
    obtain ⟨ptr, found, held, -⟩ := h.findInBucket_value hk distinct named
    rw [found, bucketValue_of_getElem hk distinct named]
    exact congrArg some held
  · rw [h.findInBucket_absent present, bucketValue_of_absent present]
    rfl

theorem bucketValue_eraseIdx : ∀ {members : List (Bytes × Bytes)} {k : Nat} (hk : k < members.length) {key : Bytes},
    members[k].1 ≠ key → bucketValue (members.eraseIdx k) key = bucketValue members key
  | m :: members, 0, _, key, other => by
    have first : m.1 ≠ key := other
    simp [bucketValue, first]
  | m :: members, k + 1, hk, key, other => by
    have rest := bucketValue_eraseIdx (Nat.lt_of_succ_lt_succ hk) other
    by_cases same : m.1 = key <;> simp_all [bucketValue]

theorem cutBytes_flatten_at {pre post : Bytes} {pieces : List Bytes} {k start len : Nat} (hk : k < pieces.length)
    (at_start : pre.length + ((pieces.take k).map List.length).sum = start) (at_len : pieces[k].length = len) :
    cutBytes (pre ++ pieces.flatten ++ post) start len = pre ++ (pieces.eraseIdx k).flatten ++ post := by
  rw [← at_start, ← at_len, cutBytes_flatten post pieces pre k hk]

theorem cutBytes_flatten_last {pre : Bytes} {pieces : List Bytes} {k start len : Nat} (hk : k < pieces.length)
    (at_start : pre.length + ((pieces.take k).map List.length).sum = start) (at_len : pieces[k].length = len) :
    cutBytes (pre ++ pieces.flatten) start len = pre ++ (pieces.eraseIdx k).flatten := by
  simpa only [List.append_nil] using @cutBytes_flatten_at pre [] pieces k start len hk at_start at_len

theorem encodeBucket_cuts (members : List (Bytes × Bytes)) (k : Nat) (hk : k < members.length) :
    cutBytes (cutBytes (cutBytes (cutBytes (encodeBucket members)
          (counterSize + members.length * 2 * counterSize + (members.map (·.1.length)).sum +
            ((members.take k).map (·.2.length)).sum) members[k].2.length)
        (counterSize + members.length * 2 * counterSize + ((members.take k).map (·.1.length)).sum)
          members[k].1.length)
        (counterSize * (members.length + k + 1)) counterSize)
        (counterSize * (k + 1)) counterSize =
      u32Bytes members.length ++ (encodeBucket (members.eraseIdx k)).drop counterSize := by
  have hn : k < (members.map (·.1)).length := by simpa using hk
  have hv : k < (members.map (·.2)).length := by simpa using hk
  have hnl : k < ((members.map (·.1.length)).map u32Bytes).length := by simpa using hk
  have hvl : k < ((members.map (·.2.length)).map u32Bytes).length := by simpa using hk
  have sumTake : ∀ (f : Bytes × Bytes → Bytes), (((members.map f).take k).map List.length).sum =
      ((members.take k).map fun m => (f m).length).sum := fun f => by
    simp only [List.map_take, List.map_map, Function.comp_def]
  have slots : ∀ (f : Bytes × Bytes → Nat), ((((members.map f).map u32Bytes).take k).map List.length).sum =
      counterSize * k := fun f => by
    rw [← List.length_flatten, ← List.map_take, flatten_u32Bytes_length, List.length_take, List.length_map,
      min_eq_left hk.le]
  simp only [encodeBucket]
  rw [cutBytes_flatten_last hv (by
      simp only [List.length_append, u32Bytes_length, flatten_u32Bytes_length, List.length_map, length_flatten_map,
        sumTake, counterSize]; omega) (by simp)]
  rw [cutBytes_flatten_at hn (by
      simp only [List.length_append, u32Bytes_length, flatten_u32Bytes_length, List.length_map, sumTake,
        counterSize]; omega) (by simp)]
  rw [List.append_assoc _ ((members.map (·.1)).eraseIdx k).flatten, cutBytes_flatten_at hvl (by
      simp only [List.length_append, u32Bytes_length, flatten_u32Bytes_length, List.length_map, slots,
        counterSize]; omega) (by simp [counterSize])]
  rw [List.append_assoc _ (((members.map (·.2.length)).map u32Bytes).eraseIdx k).flatten,
    cutBytes_flatten_at hnl (by
      simp only [u32Bytes_length, slots, counterSize]; omega) (by simp [counterSize])]
  simp only [eraseIdx_map, List.append_assoc, counterSize]
  rw [List.drop_left' (u32Bytes_length _)]

@[simp] theorem removePart_snd (mem : Mem) (full part : View) :
    (removePart mem full part).2 = ⟨full.ptr, full.len - part.len⟩ := rfl

theorem cutBytes_take {bytes : Bytes} {start len t : Nat} (before : t ≤ start) (short : t ≤ bytes.length) :
    (cutBytes bytes start len).take t = bytes.take t := by
  rw [cutBytes, List.take_append_of_le_length (by simp only [List.length_take]; omega), List.take_take,
    min_eq_left before]

theorem cutBytes_length (bytes : Bytes) (start len : Nat) (inside : start + len ≤ bytes.length) :
    (cutBytes bytes start len).length = bytes.length - len := by
  simp only [cutBytes, List.length_append, List.length_take, List.length_drop]
  omega

theorem removeFromBucket_of_found {mem : Mem} {view : View} {key : Bytes} {idx n : Nat} {keyView valView : View}
    (found : findInBucket mem (some view) key = ⟨idx, keyView, some valView⟩)
    (size : getBucketSize mem (some view) = n) (many : n ≠ 1) :
    removeFromBucket mem (some view) key =
      let m1 := (removePart mem view valView).1
      let m2 := (removePart m1 ⟨view.ptr, view.len - valView.len⟩ keyView).1
      let m3 := (removePart m2 ⟨view.ptr, view.len - valView.len - keyView.len⟩
        ⟨view.ptr + counterSize * (n + idx + 1), counterSize⟩).1
      let m4 := (removePart m3 ⟨view.ptr, view.len - valView.len - keyView.len - counterSize⟩
        ⟨view.ptr + counterSize * (idx + 1), counterSize⟩).1
      (writeU32 m4 view.ptr ((readU32 m4 view.ptr + 2 ^ 32 - 1) % 2 ^ 32),
        some ⟨view.ptr, view.len - valView.len - keyView.len - counterSize - counterSize⟩) := by
  dsimp only [removeFromBucket]
  rw [found]
  dsimp only
  rw [size, if_neg many]
  rfl

theorem removeFromBucket_cuts {mem : Mem} {view : View} {key : Bytes} {idx n : Nat} {keyView valView : View}
    (found : findInBucket mem (some view) key = ⟨idx, keyView, some valView⟩)
    (size : getBucketSize mem (some view) = n) (two : 2 ≤ n) (fits : n < 2 ^ 32)
    (count : Holds mem view.ptr (u32Bytes n))
    (valInside : view.ptr ≤ valView.ptr ∧ valView.ptr + valView.len ≤ view.ptr + view.len)
    (keyInside : view.ptr ≤ keyView.ptr ∧ keyView.ptr + keyView.len ≤ view.ptr + (view.len - valView.len))
    (counted : view.ptr + counterSize ≤ valView.ptr ∧ view.ptr + counterSize ≤ keyView.ptr)
    (slots : counterSize * (n + idx + 2) ≤ view.len - valView.len - keyView.len) :
    let cut := cutBytes (cutBytes (cutBytes (cutBytes (readBytes mem view.ptr view.len)
      (valView.ptr - view.ptr) valView.len) (keyView.ptr - view.ptr) keyView.len)
      (counterSize * (n + idx + 1)) counterSize) (counterSize * (idx + 1)) counterSize
    let r := removeFromBucket mem (some view) key
    r.2 = some ⟨view.ptr, view.len - valView.len - keyView.len - counterSize - counterSize⟩ ∧
      Holds r.1 view.ptr (u32Bytes (n - 1) ++ cut.drop counterSize) := by
  obtain ⟨a, len⟩ := view
  dsimp only at valInside keyInside counted slots count ⊢
  rw [removeFromBucket_of_found found size (by omega)]
  dsimp only
  simp only [counterSize] at counted slots ⊢
  have s1 := removePart_bytes mem ⟨a, len⟩ valView valInside.1 valInside.2
  generalize (removePart mem ⟨a, len⟩ valView).1 = m1 at s1 ⊢
  have s2 := removePart_bytes m1 ⟨a, len - valView.len⟩ keyView keyInside.1 keyInside.2
  generalize (removePart m1 ⟨a, len - valView.len⟩ keyView).1 = m2 at s2 ⊢
  have s3 := removePart_bytes m2 ⟨a, len - valView.len - keyView.len⟩ ⟨a + 4 * (n + idx + 1), 4⟩
    (by dsimp only; omega) (by dsimp only; omega)
  generalize (removePart m2 ⟨a, len - valView.len - keyView.len⟩ ⟨a + 4 * (n + idx + 1), 4⟩).1 = m3 at s3 ⊢
  have s4 := removePart_bytes m3 ⟨a, len - valView.len - keyView.len - 4⟩ ⟨a + 4 * (idx + 1), 4⟩
    (by dsimp only; omega) (by dsimp only; omega)
  generalize (removePart m3 ⟨a, len - valView.len - keyView.len - 4⟩ ⟨a + 4 * (idx + 1), 4⟩).1 = m4 at s4 ⊢
  simp only [Nat.add_sub_cancel_left] at s1 s2 s3 s4
  rw [s1.2] at s2
  rw [s2.2] at s3
  rw [s3.2] at s4
  have lengths := fun start cut => cutBytes_length (readBytes mem a len) start cut
  have count4 : (readBytes mem a len).take 4 = u32Bytes n := by
    rw [← Nat.add_sub_of_le (show 4 ≤ len by omega), readBytes_append, List.take_left' (readBytes_length _ _ _)]
    exact count
  have prefix4 : (cutBytes (cutBytes (cutBytes (cutBytes (readBytes mem a len) (valView.ptr - a) valView.len)
      (keyView.ptr - a) keyView.len) (4 * (n + idx + 1)) 4) (4 * (idx + 1)) 4).take 4 = u32Bytes n := by
    rw [cutBytes_take (by omega) (by rw [← s3.2, readBytes_length]; omega),
      cutBytes_take (by omega) (by rw [← s2.2, readBytes_length]; omega),
      cutBytes_take (by omega) (by rw [← s1.2, readBytes_length]; omega),
      cutBytes_take (by omega) (by rw [readBytes_length]; omega), count4]
  generalize cutBytes (cutBytes (cutBytes (cutBytes (readBytes mem a len) (valView.ptr - a) valView.len)
    (keyView.ptr - a) keyView.len) (4 * (n + idx + 1)) 4) (4 * (idx + 1)) 4 = cut at s4 prefix4 ⊢
  have held : Holds m4 a (u32Bytes n ++ cut.drop 4) := by
    rw [← prefix4, List.take_append_drop]
    unfold Holds
    rw [← s4.2, readBytes_length]
  obtain ⟨counter, rest⟩ := holds_append.mp held
  rw [readU32_of_holds counter fits, show (n + 2 ^ 32 - 1) % 2 ^ 32 = n - 1 by omega]
  refine ⟨trivial, holds_append.mpr ⟨holds_writeBytes _ _ _, ?_⟩⟩
  rw [u32Bytes_length] at rest ⊢
  exact rest.write a _ (.inr (by rw [u32Bytes_length]))

theorem sum_eraseIdx_add_getElem {α : Type} (f : α → Nat) (l : List α) (k : Nat) (hk : k < l.length) :
    ((l.eraseIdx k).map f).sum + f l[k] = (l.map f).sum := by
  have split := congrArg (fun l => (l.map f).sum) (List.take_append_drop k l)
  simp only [List.map_append, List.sum_append, List.drop_eq_getElem_cons hk, List.map_cons, List.sum_cons] at split
  rw [List.eraseIdx_eq_take_drop_succ, List.map_append, List.sum_append]
  omega

theorem getElem_not_mem_eraseIdx {α : Type} {l : List α} (distinct : l.Nodup) {k : Nat} (hk : k < l.length) :
    l[k] ∉ l.eraseIdx k := by
  intro member
  obtain ⟨i, hi, other, same⟩ := List.mem_eraseIdx_iff_getElem.mp member
  exact other ((distinct.getElem_inj_iff).mp same)

theorem encodeBucket_length_eraseIdx (members : List (Bytes × Bytes)) {k : Nat} (hk : k < members.length) :
    (encodeBucket (members.eraseIdx k)).length =
      (encodeBucket members).length - members[k].2.length - members[k].1.length - counterSize - counterSize := by
  have total := encodeBucket_length members
  have shorter := encodeBucket_length (members.eraseIdx k)
  have nameSum := sum_eraseIdx_add_getElem (·.1.length) members k hk
  have valueSum := sum_eraseIdx_add_getElem (·.2.length) members k hk
  rw [List.length_eraseIdx_of_lt hk] at shorter
  simp only [counterSize] at shorter total ⊢
  omega

theorem removeFromBucket_encoded {mem : Mem} {addr : Nat} {members : List (Bytes × Bytes)}
    (distinct : (members.map (·.1)).Nodup) (fit : ∀ m ∈ members, m.1.length < 2 ^ 32 ∧ m.2.length < 2 ^ 32)
    (few : members.length < 2 ^ 32) (stored : Holds mem addr (encodeBucket members)) {k : Nat}
    (hk : k < members.length) (two : 2 ≤ members.length) :
    let r := removeFromBucket mem (some ⟨addr, (encodeBucket members).length⟩) members[k].1
    r.2 = some ⟨addr, (encodeBucket (members.eraseIdx k)).length⟩ ∧ Holds r.1 addr (encodeBucket (members.eraseIdx k)) := by
  obtain ⟨size, -⟩ := Cursor.At.encoded stored fit few
  have found := findInBucket_encoded_at stored fit few hk distinct rfl
  have total := encodeBucket_length members
  have names := sum_take_add_getElem_le (·.1.length) members k hk
  have values := sum_take_add_getElem_le (·.2.length) members k hk
  have count : Holds mem addr (u32Bytes members.length) := by
    simp only [encodeBucket, holds_append] at stored
    exact stored.1.1.1.1
  simp only [counterSize] at found total
  obtain ⟨view, held⟩ := removeFromBucket_cuts found size two few count
    (by dsimp only; constructor <;> omega) (by dsimp only; constructor <;> omega)
    (by dsimp only; simp only [counterSize]; constructor <;> omega) (by dsimp only; simp only [counterSize]; omega)
  dsimp only at view held
  -- the four cuts at the encoding's offsets leave the encoding of the other members
  rw [stored, show addr + 4 + members.length * 2 * 4 + (members.map (·.1.length)).sum +
      ((members.take k).map (·.2.length)).sum - addr = counterSize + members.length * 2 * counterSize +
      (members.map (·.1.length)).sum + ((members.take k).map (·.2.length)).sum by simp only [counterSize]; omega,
    show addr + 4 + members.length * 2 * 4 + ((members.take k).map (·.1.length)).sum - addr =
      counterSize + members.length * 2 * counterSize + ((members.take k).map (·.1.length)).sum by
      simp only [counterSize]; omega,
    encodeBucket_cuts members k hk, List.drop_left' (show (u32Bytes members.length).length = counterSize from rfl)]
    at held
  have erased : u32Bytes (members.length - 1) ++ (encodeBucket (members.eraseIdx k)).drop counterSize =
      encodeBucket (members.eraseIdx k) := by
    simp only [encodeBucket, List.length_eraseIdx_of_lt hk, List.append_assoc]
    rw [List.drop_left' (show (u32Bytes (members.length - 1)).length = counterSize from rfl)]
  rw [erased] at held
  rw [← encodeBucket_length_eraseIdx members hk] at view
  exact ⟨view, held⟩

/-- `remove_from_bucket` over a bucket of distinct names: an absent name leaves it as it was, the
    only member's name empties it, and any other member's name leaves the encoding of the other
    members in their order, where every remaining name finds the value it had. -/
theorem remove_from_bucket_leaves_encoding (mem : Mem) (addr : Nat) (members : List (Bytes × Bytes))
    (distinct : (members.map (·.1)).Nodup) (small : (encodeBucket members).length < 2 ^ 32)
    (stored : Holds mem addr (encodeBucket members)) (key : Bytes) :
    (key ∉ members.map (·.1) →
      removeFromBucket mem (some ⟨addr, (encodeBucket members).length⟩) key =
        (mem, some ⟨addr, (encodeBucket members).length⟩)) ∧
    (∀ value, members = [(key, value)] →
      removeFromBucket mem (some ⟨addr, (encodeBucket members).length⟩) key = (mem, none)) ∧
    ∀ k (hk : k < members.length), members[k].1 = key → 2 ≤ members.length →
      let r := removeFromBucket mem (some ⟨addr, (encodeBucket members).length⟩) key
      r.2 = some ⟨addr, (encodeBucket (members.eraseIdx k)).length⟩ ∧
        Holds r.1 addr (encodeBucket (members.eraseIdx k)) ∧
        getBucketSize r.1 r.2 = members.length - 1 ∧ (findInBucket r.1 r.2 key).value = none ∧
        ∀ other, other ≠ key →
          ((findInBucket r.1 r.2 other).value.map fun v => readBytes r.1 v.ptr v.len) = bucketValue members other := by
  obtain ⟨fit, few⟩ := encodeBucket_fits small
  obtain ⟨size, -⟩ := Cursor.At.encoded stored fit few
  refine ⟨fun absent => ?_, fun value single => ?_, fun k hk named two => ?_⟩
  · dsimp only [removeFromBucket]
    rw [findInBucket_encoded_absent stored fit few absent]
    rfl
  · subst single
    dsimp only [removeFromBucket]
    rw [findInBucket_encoded_at stored fit few (show 0 < [(key, value)].length by simp) distinct
      (show [(key, value)][0].1 = key from rfl)]
    dsimp only
    rw [size]
    rfl
  subst named
  obtain ⟨view, held⟩ := removeFromBucket_encoded distinct fit few stored hk two
  have fit' : ∀ m ∈ members.eraseIdx k, m.1.length < 2 ^ 32 ∧ m.2.length < 2 ^ 32 :=
    fun m member => fit m (List.mem_of_mem_eraseIdx member)
  have few' : (members.eraseIdx k).length < 2 ^ 32 := by rw [List.length_eraseIdx_of_lt hk]; omega
  have distinct' : ((members.eraseIdx k).map (·.1)).Nodup := by rw [← eraseIdx_map]; exact distinct.eraseIdx k
  dsimp only
  rw [view]
  have absent : members[k].1 ∉ (members.eraseIdx k).map (·.1) := by
    have missing := @getElem_not_mem_eraseIdx _ (members.map (·.1)) distinct k (by simpa using hk)
    rwa [List.getElem_map, eraseIdx_map] at missing
  refine ⟨rfl, held, (Cursor.At.encoded held fit' few').1.trans (List.length_eraseIdx_of_lt hk),
    by rw [findInBucket_encoded_absent held fit' few' absent]; rfl, fun other different => ?_⟩
  rw [@Encodes.findInBucket_reads _ ⟨addr, (encodeBucket (members.eraseIdx k)).length⟩ _ (.inr ⟨held, fit', few'⟩)
      distinct' other,
    bucketValue_eraseIdx hk (Ne.symm different)]

theorem remove_from_bucket_leaves_encoding_of_first_member :
    (([([97], [1]), ([98], [2])] : List (Bytes × Bytes)).map (·.1)).Nodup ∧
    Holds (writeBytes (fun _ => 0) 0 (encodeBucket [([97], [1]), ([98], [2])])) 0
      (encodeBucket [([97], [1]), ([98], [2])]) ∧
    Holds (removeFromBucket (writeBytes (fun _ => 0) 0 (encodeBucket [([97], [1]), ([98], [2])]))
      (some ⟨0, (encodeBucket [([97], [1]), ([98], [2])]).length⟩) [97]).1 0 (encodeBucket [([98], [2])]) :=
  have distinct : (([([97], [1]), ([98], [2])] : List (Bytes × Bytes)).map (·.1)).Nodup := by decide
  have stored := holds_writeBytes (fun _ => 0) 0 (encodeBucket [([97], [1]), ([98], [2])])
  ⟨distinct, stored, ((remove_from_bucket_leaves_encoding _ 0 [([97], [1]), ([98], [2])] distinct (by decide)
    stored [97]).2.2 0 (by decide) rfl (by decide)).2.1⟩

theorem removeFromBucket_of_absent {mem : Mem} {view : View} {members : List (Bytes × Bytes)}
    (h : Encodes (readBytes mem view.ptr view.len) members) {key : Bytes} (absent : key ∉ members.map (·.1)) :
    removeFromBucket mem (some view) key = (mem, some view) := by
  dsimp only [removeFromBucket]
  rw [h.findInBucket_absent absent]
  rfl

theorem set_of_getD_eq_some {α : Type} {l : List (Option α)} {i : Nat} {a : α} (seen : l.getD i none = some a) :
    l.set i (some a) = l := by
  rw [List.getD_eq_getElem?_getD] at seen
  obtain ⟨inside, found⟩ : ∃ h : i < l.length, l[i] = some a := by
    cases h : l[i]? with
    | none => rw [h] at seen; cases seen
    | some x => rw [h] at seen; exact List.getElem?_eq_some_iff.mp (seen ▸ h)
  apply List.ext_getElem?
  intro j
  rw [List.getElem?_set]
  split
  · next same => subst same; rw [List.getElem?_eq_getElem inside, found]
  · rfl

theorem updateBuckets_of_absent_removals (hash : Bytes → Int) (unique : List LocatedKey) (arena : StlArena)
    (buckets : List (Option View)) :
    ∀ tasks : List PathTask, (∀ t ∈ tasks, t.value = none ∧ ∃ view members,
        buckets.getD (offsetInSorted unique (t.bucket hash)) none = some view ∧
        Encodes (readBytes arena.mem view.ptr view.len) members ∧ t.path ∉ members.map (·.1)) →
      updateBuckets hash unique (arena, buckets) tasks = .ok (arena, buckets)
  | [], _ => rfl
  | t :: tasks, removals => by
    obtain ⟨removal, view, members, seen, stored, absent⟩ := removals t (List.mem_cons_self _ _)
    simp only [updateBuckets, removal, seen, removeFromBucket_of_absent stored absent, set_of_getD_eq_some seen]
    exact updateBuckets_of_absent_removals hash unique arena buckets tasks
      fun t' member => removals t' (List.mem_cons_of_mem _ member)

/-- Removing paths that are not there moves no byte: a batch that reports an error changes
    nothing, and one that returns writes each of its bucket places back with the bytes it read, so
    that a place that held no entry now holds an empty one. -/
theorem paths_write_removing_absent_paths_keeps_buckets (hash : Bytes → Int) (store : BucketStore) (arena : StlArena)
    (tasks : List PathTask) (members : LocatedKey → List (Bytes × Bytes))
    (stored : ∀ t ∈ tasks, Encodes ((store.lookup (t.bucket hash)).getD []) (members (t.bucket hash)))
    (absent : ∀ t ∈ tasks, t.value = none ∧ t.path ∉ (members (t.bucket hash)).map (·.1)) (loc : LocatedKey) :
    (ukvPathsWrite hash store arena tasks).1.lookup loc =
      if (ukvPathsWrite hash store arena tasks).2.2 = none ∧ loc ∈ tasks.map (·.bucket hash) then
        some ((store.lookup loc).getD []) else store.lookup loc := by
  unfold ukvPathsWrite
  rcases first : arena.allocate (16 * tasks.length) 8 with e | ⟨_, arena₂⟩
  · simp [first]
  rcases read : arena₂.readBuckets store (sortAndDeduplicate (tasks.map fun task => task.bucket hash)) with
    e | ⟨arena₃', addr, views⟩
  · simp [first, read]
  obtain ⟨held, rfl⟩ := StlArena.readBuckets_eq_ok read
  set unique := sortAndDeduplicate (tasks.map fun task => task.bucket hash)
  rcases second : arena₃'.allocate (16 * unique.length) 8 with e | ⟨_, arena₃⟩
  · simp [first, read, second]
  rw [← StlArena.allocate_mem second] at held
  have kept := updateBuckets_of_absent_removals hash unique arena₃ _ tasks fun t member => by
    obtain ⟨p, seen, bytes, -⟩ := readTape_getD_offsetInSorted held (mem_sortAndDeduplicate.mpr (List.mem_map_of_mem _ member))
    refine ⟨(absent t member).1, _, _, seen, ?_, (absent t member).2⟩
    rw [show readBytes _ _ _ = _ from bytes]
    exact stored t member
  simp only [first, read, second, kept, true_and]
  rw [lookup_writeBack _ _ _ _ _ (nodup_sortAndDeduplicate _) (by simp)]
  by_cases touched : loc ∈ tasks.map (·.bucket hash)
  · obtain ⟨p, seen, bytes, -⟩ := readTape_getD_offsetInSorted held (mem_sortAndDeduplicate.mpr touched)
    simp only [offsetInSorted] at seen
    rw [if_pos (mem_sortAndDeduplicate.mpr touched), if_pos touched, seen, viewBytes, bytes]
  · rw [if_neg (mt mem_sortAndDeduplicate.mp touched), if_neg touched]

theorem paths_write_removing_absent_paths_keeps_buckets_of_two_removals :
    (∀ t ∈ ([⟨⟨0, [98]⟩, none⟩, ⟨⟨0, [99, 99]⟩, none⟩] : List PathTask),
      Encodes ((oneBucketStore.lookup (t.bucket fun path => path.length)).getD [])
        (oneBucketMembers (t.bucket fun path => path.length))) ∧
    (∀ t ∈ ([⟨⟨0, [98]⟩, none⟩, ⟨⟨0, [99, 99]⟩, none⟩] : List PathTask), t.value = none ∧
      t.path ∉ (oneBucketMembers (t.bucket fun path => path.length)).map (·.1)) ∧
    (ukvPathsWrite (fun path => path.length) oneBucketStore (StlArena.holding [])
        [⟨⟨0, [98]⟩, none⟩, ⟨⟨0, [99, 99]⟩, none⟩]).1.lookup ⟨0, 2⟩ =
      if (ukvPathsWrite (fun path => path.length) oneBucketStore (StlArena.holding [])
          [⟨⟨0, [98]⟩, none⟩, ⟨⟨0, [99, 99]⟩, none⟩]).2.2 = none ∧
        (⟨0, 2⟩ : LocatedKey) ∈ ([⟨⟨0, [98]⟩, none⟩, ⟨⟨0, [99, 99]⟩, none⟩] : List PathTask).map
          (·.bucket fun path => path.length) then
        some ((oneBucketStore.lookup ⟨0, 2⟩).getD []) else oneBucketStore.lookup ⟨0, 2⟩ :=
  have stored : ∀ t ∈ ([⟨⟨0, [98]⟩, none⟩, ⟨⟨0, [99, 99]⟩, none⟩] : List PathTask),
      Encodes ((oneBucketStore.lookup (t.bucket fun path => path.length)).getD [])
        (oneBucketMembers (t.bucket fun path => path.length)) := by decide
  have absent : ∀ t ∈ ([⟨⟨0, [98]⟩, none⟩, ⟨⟨0, [99, 99]⟩, none⟩] : List PathTask), t.value = none ∧
      t.path ∉ (oneBucketMembers (t.bucket fun path => path.length)).map (·.1) := by decide
  ⟨stored, absent, paths_write_removing_absent_paths_keeps_buckets _ _ _ _ _ stored absent ⟨0, 2⟩⟩

end Ukv
