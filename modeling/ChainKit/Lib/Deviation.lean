import Mathlib

/-! How far the average of some of the samples can lie above a centre, in standard deviations from
it. The fewer the samples, the smaller the distance. -/
namespace ChainKit.Lib

theorem length_mul_sq_le {l : List ℤ} {centre x : ℤ} (hx : 0 ≤ x)
    (hsum : l.length*(centre+x) ≤ l.sum) :
    l.length*x^2 ≤ (l.map fun s => (s-centre)^2).sum := by
  have htangent : ∀ l : List ℤ,
      2*x*(l.sum-l.length*centre)-l.length*x^2 ≤ (l.map fun s => (s-centre)^2).sum := by
    intro l
    induction l with
    | nil => simp
    | cons s l ih =>
      have hs : 2*x*(s-centre)-x^2 ≤ (s-centre)^2 := by nlinarith [sq_nonneg (s-centre-x)]
      simp only [List.sum_cons,List.length_cons,List.map_cons]
      push_cast
      linarith
  have hmul : 2*x*(l.length*x) ≤ 2*x*(l.sum-l.length*centre) :=
    mul_le_mul_of_nonneg_left (by linarith) (by linarith)
  linarith [htangent l]

/-- If `own` are some of the samples and their average is `x` above the centre, then `x` is less
than the root of `all.length/own.length` times the next whole number after the standard
deviation. -/
theorem deviation_lt {all own : List ℤ} (hsub : own.Sublist all) (hown : own ≠ []) {centre x : ℤ}
    (hx : 0 ≤ x) (hsum : own.length*(centre+x) ≤ own.sum) :
    (own.length : ℤ)*x^2 < all.length*
      (Nat.sqrt ((all.map fun s => (s-centre).natAbs^2).sum/all.length)+1)^2 := by
  have hcast (l : List ℤ) : ((l.map fun s => (s-centre).natAbs^2).sum : ℤ) =
      (l.map fun s => (s-centre)^2).sum := by
    rw [Nat.cast_list_sum,List.map_map]
    congr 1
    apply List.map_congr_left
    intro s _
    simp
  have hpos : 0 < all.length := (List.length_pos_iff.mpr hown).trans_le hsub.length_le
  have hmore : (own.map fun s => (s-centre).natAbs^2).sum ≤
      (all.map fun s => (s-centre).natAbs^2).sum :=
    (hsub.map _).sum_le_sum fun _ _ => Nat.zero_le _
  have hroot : (all.map fun s => (s-centre).natAbs^2).sum < all.length*
      (Nat.sqrt ((all.map fun s => (s-centre).natAbs^2).sum/all.length)+1)^2 := by
    rw [mul_comm,← Nat.div_lt_iff_lt_mul hpos]
    exact Nat.lt_succ_sqrt' _
  calc (own.length : ℤ)*x^2 ≤ (own.map fun s => (s-centre)^2).sum := length_mul_sq_le hx hsum
    _ = ((own.map fun s => (s-centre).natAbs^2).sum : ℕ) := (hcast own).symm
    _ ≤ ((all.map fun s => (s-centre).natAbs^2).sum : ℕ) := by exact_mod_cast hmore
    _ < _ := by exact_mod_cast hroot

end ChainKit.Lib
