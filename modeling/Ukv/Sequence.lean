import Mathlib.Algebra.Order.Ring.Int
import Mathlib.Algebra.Order.Ring.Nat
import Mathlib.Algebra.BigOperators.Group.List

/-!
`sequence_t` is `ssize_t`: a 64-bit two's complement integer. Values are `Int`s and `wrap`
is the reduction to `[-2^63, 2^63)` that `++` performs at `INT64_MAX` and that the
conversion of a `size_t` hint performs. The overwrite test compares these signed values.
-/
namespace Ukv

def wrap (x : Int) : Int := (x + 2 ^ 63) % 2 ^ 64 - 2 ^ 63

theorem wrap_of_lt {x : Int} (low : -2 ^ 63 ≤ x) (high : x < 2 ^ 63) : wrap x = x := by
  unfold wrap
  omega

theorem wrap_natCast_of_lt {n : Nat} (high : n < 2 ^ 63) : wrap n = n :=
  wrap_of_lt (by omega) (by exact_mod_cast high)

theorem wrap_natCast_le (n : Nat) : wrap n ≤ n := by
  unfold wrap
  omega

/-- `entry_was_overwritten`: `entrySequence` lies between `transactionSequence` and
    `youngestSequence`, the interval taken around the wrap when it straddles it. -/
def entryWasOverwritten (entrySequence transactionSequence youngestSequence : Int) : Bool :=
  if transactionSequence ≤ youngestSequence then
    decide (entrySequence ≥ transactionSequence) && decide (entrySequence ≤ youngestSequence)
  else
    decide (entrySequence ≥ transactionSequence) || decide (entrySequence ≤ youngestSequence)

theorem entryWasOverwritten_of_le {e t y : Int} (ordered : t ≤ y) :
    entryWasOverwritten e t y = true ↔ t ≤ e ∧ e ≤ y := by
  simp [entryWasOverwritten, ordered]

def InRange (x : Int) : Prop := -2 ^ 63 ≤ x ∧ x < 2 ^ 63

theorem wrap_inRange (x : Int) : InRange (wrap x) := by
  unfold InRange wrap
  omega

theorem wrap_sub_wrap_emod (a b : Int) : (wrap a - wrap b) % 2 ^ 64 = (a - b) % 2 ^ 64 := by
  unfold wrap
  omega

theorem wrap_add_inj {a b : Int} (ha : InRange a) (hb : InRange b) (d : Int) :
    wrap (a + d) = wrap (b + d) ↔ a = b := by
  unfold InRange wrap at *
  omega

theorem entryWasOverwritten_iff_emod {e t y : Int} (he : InRange e) (ht : InRange t) (hy : InRange y) :
    entryWasOverwritten e t y = true ↔ (e - t) % 2 ^ 64 ≤ (y - t) % 2 ^ 64 := by
  unfold InRange at he ht hy
  unfold entryWasOverwritten
  split <;> simp only [Bool.and_eq_true, Bool.or_eq_true, decide_eq_true_eq] <;> omega

theorem entryWasOverwritten_shift {e t y : Int} (he : InRange e) (ht : InRange t) (hy : InRange y) (d : Int) :
    entryWasOverwritten (wrap (e + d)) (wrap (t + d)) (wrap (y + d)) = entryWasOverwritten e t y := by
  rw [Bool.eq_iff_iff, entryWasOverwritten_iff_emod (wrap_inRange _) (wrap_inRange _) (wrap_inRange _),
    entryWasOverwritten_iff_emod he ht hy, wrap_sub_wrap_emod, wrap_sub_wrap_emod, add_sub_add_right_eq_sub,
    add_sub_add_right_eq_sub]

end Ukv
