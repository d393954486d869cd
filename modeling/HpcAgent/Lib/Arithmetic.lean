import Mathlib

/-!
# Machine sums that do not wrap

`Int32` sums and differences whose integer value fits are that value, and the
order of machine integers is the order of their values.
-/

namespace Int32

/-- The largest `int`. -/
def intMax : ℤ := 2147483647

theorem toInt_le_intMax (a : Int32) : a.toInt ≤ intMax := by
  have h := a.toInt_lt
  unfold intMax
  omega

theorem toInt_add_of_fits {a b : Int32} (hlow : -2147483648 ≤ a.toInt + b.toInt)
    (hhigh : a.toInt + b.toInt ≤ intMax) : (a + b).toInt = a.toInt + b.toInt := by
  unfold intMax at hhigh
  rw [Int32.toInt_add]
  exact Int.bmod_eq_of_le (by omega) (by omega)

theorem toInt_sub_of_fits {a b : Int32} (hlow : -2147483648 ≤ a.toInt - b.toInt)
    (hhigh : a.toInt - b.toInt ≤ intMax) : (a - b).toInt = a.toInt - b.toInt := by
  unfold intMax at hhigh
  rw [Int32.toInt_sub]
  exact Int.bmod_eq_of_le (by omega) (by omega)

/-- A sum past the largest `int` wraps once. -/
theorem toInt_add_of_wraps {a b : Int32} (h : intMax < a.toInt + b.toInt) :
    (a + b).toInt = a.toInt + b.toInt - 4294967296 := by
  have ha := a.toInt_lt
  have hb := b.toInt_lt
  unfold intMax at h
  rw [Int32.toInt_add, ← Int.sub_bmod_right]
  exact Int.bmod_eq_of_le (by omega) (by omega)

theorem nonneg_iff {a : Int32} : 0 ≤ a ↔ 0 ≤ a.toInt := Int32.le_iff_toInt_le

theorem pos_iff {a : Int32} : 0 < a ↔ 0 < a.toInt := Int32.lt_iff_toInt_lt

/-- A positive number that is at most another is taken off it without wrapping. -/
theorem toInt_sub_of_pos_of_le {a b : Int32} (hpos : 0 < b) (hle : b ≤ a) :
    (a - b).toInt = a.toInt - b.toInt := by
  have hpos := pos_iff.mp hpos
  have hle := Int32.le_iff_toInt_le.mp hle
  have hmax : a.toInt ≤ intMax := toInt_le_intMax a
  unfold intMax at hmax
  refine toInt_sub_of_fits (by omega) ?_
  unfold intMax
  omega

end Int32
