import Mathlib.Algebra.Order.Ring.Nat
import Mathlib.Data.List.Basic
import Mathlib.Algebra.BigOperators.Group.List

/-!
Byte memory shared by the store's export arena and the paths modality's tapes. Memory is a
lookup from address to byte; `memcpy` writes a byte string, and `memmove` reads its source
in full before it writes, so overlapping moves are exact.
-/
namespace Ukv

abbrev Bytes := List UInt8

abbrev Mem := Nat → UInt8

def readBytes (mem : Mem) (addr len : Nat) : Bytes :=
  (List.range len).map fun i => mem (addr + i)

def writeBytes (mem : Mem) (addr : Nat) (bytes : Bytes) : Mem :=
  fun a => if addr ≤ a ∧ a < addr + bytes.length then bytes.getD (a - addr) 0 else mem a

def memmove (mem : Mem) (dst src n : Nat) : Mem :=
  writeBytes mem dst (readBytes mem src n)

@[simp] theorem readBytes_length (mem : Mem) (addr len : Nat) :
    (readBytes mem addr len).length = len := by
  simp [readBytes]

theorem getElem_readBytes (mem : Mem) (addr len i : Nat) (h : i < (readBytes mem addr len).length) :
    (readBytes mem addr len)[i] = mem (addr + i) := by
  simp [readBytes]

theorem writeBytes_outside (mem : Mem) (addr a : Nat) (bytes : Bytes)
    (outside : a < addr ∨ addr + bytes.length ≤ a) : writeBytes mem addr bytes a = mem a := by
  simp only [writeBytes]
  rw [if_neg (by omega)]

theorem writeBytes_inside (mem : Mem) (addr i : Nat) (bytes : Bytes) (h : i < bytes.length) :
    writeBytes mem addr bytes (addr + i) = bytes[i] := by
  simp [writeBytes, h]

theorem readBytes_congr {m₁ m₂ : Mem} {addr len : Nat}
    (same : ∀ i < len, m₁ (addr + i) = m₂ (addr + i)) :
    readBytes m₁ addr len = readBytes m₂ addr len := by
  apply List.ext_getElem (by simp)
  intro i h₁ h₂
  simp only [getElem_readBytes]
  exact same i (by simpa using h₁)

@[simp] theorem readBytes_writeBytes_self (mem : Mem) (addr : Nat) (bytes : Bytes) :
    readBytes (writeBytes mem addr bytes) addr bytes.length = bytes := by
  apply List.ext_getElem (by simp)
  intro i h₁ h₂
  rw [getElem_readBytes, writeBytes_inside mem addr i bytes h₂]

theorem readBytes_append (mem : Mem) (addr n k : Nat) :
    readBytes mem addr (n + k) = readBytes mem addr n ++ readBytes mem (addr + n) k := by
  simp only [readBytes, List.range_add, List.map_append, List.map_map]
  congr 1
  apply List.map_congr_left
  intro i _
  simp [Nat.add_assoc]

def Holds (mem : Mem) (addr : Nat) (bytes : Bytes) : Prop := readBytes mem addr bytes.length = bytes

theorem holds_writeBytes (mem : Mem) (addr : Nat) (bytes : Bytes) :
    Holds (writeBytes mem addr bytes) addr bytes :=
  readBytes_writeBytes_self mem addr bytes

theorem Holds.frame {mem mem' : Mem} {addr : Nat} {bytes : Bytes} (h : Holds mem addr bytes)
    (same : ∀ a, addr ≤ a → a < addr + bytes.length → mem' a = mem a) : Holds mem' addr bytes :=
  (readBytes_congr fun i below => same _ (by omega) (by omega)).trans h

theorem Holds.write {mem : Mem} {addr : Nat} {bytes : Bytes} (h : Holds mem addr bytes) (dst : Nat)
    (data : Bytes) (apart : addr + bytes.length ≤ dst ∨ dst + data.length ≤ addr) :
    Holds (writeBytes mem dst data) addr bytes :=
  h.frame fun a _ _ => writeBytes_outside mem dst a data (by omega)

theorem holds_append {mem : Mem} {addr : Nat} {l₁ l₂ : Bytes} :
    Holds mem addr (l₁ ++ l₂) ↔ Holds mem addr l₁ ∧ Holds mem (addr + l₁.length) l₂ := by
  unfold Holds
  rw [List.length_append, readBytes_append]
  exact ⟨fun h => List.append_inj h (by simp), fun ⟨h₁, h₂⟩ => by rw [h₁, h₂]⟩

theorem Holds.getElem_flatten {mem : Mem} : ∀ {pieces : List Bytes} {addr k : Nat} (hk : k < pieces.length),
    Holds mem addr pieces.flatten →
      Holds mem (addr + ((pieces.take k).map List.length).sum) pieces[k] ∧
        ((pieces.take k).map List.length).sum + pieces[k].length ≤ pieces.flatten.length
  | piece :: _, _, 0, _, h => by
    rw [List.flatten_cons, holds_append] at h
    simpa using h.1
  | piece :: pieces, addr, k + 1, hk, h => by
    rw [List.flatten_cons, holds_append] at h
    obtain ⟨held, inside⟩ := Holds.getElem_flatten (Nat.lt_of_succ_lt_succ hk) h.2
    simp only [List.take_succ_cons, List.map_cons, List.sum_cons, List.getElem_cons_succ, List.flatten_cons,
      List.length_append]
    exact ⟨by rwa [← Nat.add_assoc], by omega⟩

end Ukv
