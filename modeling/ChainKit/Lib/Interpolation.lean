import Mathlib

/-! Linear interpolation between the members of a sequence. -/
namespace ChainKit.Lib
variable {K : Type*} [Field K] [LinearOrder K] [IsStrictOrderedRing K] [FloorRing K]

/-- The value at a position between two members, in proportion to the distance from them. -/
def interpolate (a : ℕ → K) (r : K) : K := a ⌊r⌋₊+(r-⌊r⌋₊)*(a ⌈r⌉₊-a ⌊r⌋₊)

section
variable {a : ℕ → K} {n : ℕ} {r s : K}

theorem eq_floor_of_ceil_le (h0 : 0 ≤ r) (h : ⌈r⌉₊ ≤ ⌊r⌋₊) : r = ⌊r⌋₊ := by
  apply le_antisymm
  · exact (Nat.le_ceil r).trans (by exact_mod_cast h)
  · exact Nat.floor_le h0

@[simp] theorem interpolate_natCast (k : ℕ) : interpolate a (k : K) = a k := by
  simp [interpolate]

theorem interpolate_eq (h0 : 0 ≤ r) :
    interpolate a r = a ⌊r⌋₊+(r-⌊r⌋₊)*(a (⌊r⌋₊+1)-a ⌊r⌋₊) := by
  rcases Nat.lt_or_ge ⌊r⌋₊ ⌈r⌉₊ with hlt | hge
  · have hceil : ⌈r⌉₊ = ⌊r⌋₊+1 := le_antisymm (Nat.ceil_le_floor_add_one r) hlt
    rw [interpolate,hceil]
  · have hr : r-⌊r⌋₊ = 0 := sub_eq_zero.mpr (eq_floor_of_ceil_le h0 hge)
    rw [interpolate,hr,zero_mul,zero_mul]

variable (ha : MonotoneOn a (Set.Iic n))
include ha

/-- The value lies between the two members. -/
theorem interpolate_between (h0 : 0 ≤ r) (hr : r ≤ n) :
    a ⌊r⌋₊ ≤ interpolate a r ∧ interpolate a r ≤ a ⌈r⌉₊ := by
  have hceil : ⌈r⌉₊ ≤ n := Nat.ceil_le.mpr hr
  have hfloor : ⌊r⌋₊ ≤ ⌈r⌉₊ := Nat.floor_le_ceil r
  have hstep : 0 ≤ a ⌈r⌉₊-a ⌊r⌋₊ := sub_nonneg.mpr (ha (hfloor.trans hceil) hceil hfloor)
  have hweight : 0 ≤ r-⌊r⌋₊ := sub_nonneg.mpr (Nat.floor_le h0)
  have hweight' : r-⌊r⌋₊ ≤ 1 := by
    have hlt := Nat.lt_floor_add_one r
    linarith
  unfold interpolate
  constructor
  · have hpos := mul_nonneg hweight hstep
    linarith
  · have hle := mul_le_of_le_one_left hstep hweight'
    linarith

/-- Between the members of an ascending sequence the values ascend. -/
theorem interpolate_mono (h0 : 0 ≤ r) (hrs : r ≤ s) (hs : s ≤ n) :
    interpolate a r ≤ interpolate a s := by
  have h0s : 0 ≤ s := h0.trans hrs
  rcases (Nat.floor_mono hrs).eq_or_lt with hcell | hcell
  · -- Both positions lie between the same two members.
    rcases hrs.eq_or_lt with rfl | hlt
    · exact le_rfl
    have hbelow : (⌊s⌋₊ : K) < s := by
      rw [← hcell]
      exact (Nat.floor_le h0).trans_lt hlt
    have hnext : ⌊s⌋₊+1 ≤ n := by exact_mod_cast hbelow.trans_le hs
    have hstep : 0 ≤ a (⌊s⌋₊+1)-a ⌊s⌋₊ :=
      sub_nonneg.mpr (ha ((Nat.le_succ _).trans hnext) hnext (Nat.le_succ _))
    rw [interpolate_eq h0,interpolate_eq h0s,hcell]
    have hle := mul_le_mul_of_nonneg_right (sub_le_sub_right hrs (⌊s⌋₊ : K)) hstep
    linarith
  · have hfloor : ⌊s⌋₊ ≤ n := by
      have hle := (Nat.floor_le h0s).trans hs
      exact_mod_cast hle
    have hceil : ⌈r⌉₊ ≤ ⌊s⌋₊ := (Nat.ceil_le_floor_add_one r).trans hcell
    calc interpolate a r ≤ a ⌈r⌉₊ := (interpolate_between ha h0 (hrs.trans hs)).2
      _ ≤ a ⌊s⌋₊ := ha (hceil.trans hfloor) hfloor hceil
      _ ≤ interpolate a s := (interpolate_between ha h0s hs).1

end
end ChainKit.Lib
