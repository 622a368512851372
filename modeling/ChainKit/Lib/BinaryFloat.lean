import Mathlib

/-! Binary floating-point numbers of a given precision: rounding to the nearest, with ties to the
even one, and when a number survives the rounding of a multiple of it. -/
namespace ChainKit.Lib

/-- The nearest integer, the even one of two. -/
def roundHalfEven (q : ℚ) : ℤ :=
  if q-⌊q⌋ < 1/2 ∨ q-⌊q⌋ = 1/2 ∧ Even ⌊q⌋ then ⌊q⌋ else ⌊q⌋+1

theorem roundHalfEven_eq_iff {q : ℚ} {n : ℤ} :
    roundHalfEven q = n ↔ |q-n| < 1/2 ∨ |q-n| = 1/2 ∧ Even n := by
  have hlow := Int.floor_le q
  have hhigh := Int.lt_floor_add_one q
  -- The integers that are no farther away than one half are the floor and the one above it.
  have hnear : |q-n| ≤ 1/2 → n = ⌊q⌋ ∨ n = ⌊q⌋+1 := by
    intro h
    obtain ⟨hbelow,habove⟩ := abs_le.mp h
    have hle : ⌊q⌋ ≤ n := by
      have : (⌊q⌋ : ℚ) < n+1 := by linarith
      exact_mod_cast Int.lt_add_one_iff.mp (by exact_mod_cast this)
    have hge : n ≤ ⌊q⌋+1 := by
      have : (n : ℚ) < ⌊q⌋+2 := by linarith
      have hlt : n < ⌊q⌋+2 := by exact_mod_cast this
      omega
    omega
  have hfloor : |q-⌊q⌋| = q-⌊q⌋ := abs_of_nonneg (by linarith)
  have hnext : |q-((⌊q⌋+1 : ℤ) : ℚ)| = 1-(q-⌊q⌋) := by
    rw [abs_of_nonpos (by push_cast; linarith)]
    push_cast
    ring
  have hparity : Even (⌊q⌋+1) ↔ ¬Even ⌊q⌋ := Int.even_add_one
  unfold roundHalfEven
  constructor
  · rintro rfl
    split_ifs with h
    · rwa [hfloor]
    · rw [hnext,hparity]
      rw [not_or,not_and,not_lt] at h
      rcases h.1.lt_or_eq with hlt | heq
      · exact .inl (by linarith)
      · exact .inr ⟨by linarith,h.2 heq.symm⟩
  · intro h
    rcases hnear (by rcases h with h | h <;> linarith [h]) with rfl | rfl
    · rw [hfloor] at h
      rw [if_pos h]
    · rw [hnext,hparity] at h
      rw [if_neg]
      rintro (hlt | ⟨heq,heven⟩)
      · rcases h with h | h <;> linarith [h]
      · rcases h with h | h
        · linarith
        · exact h.2 heven

theorem abs_sub_roundHalfEven_le (q : ℚ) : |q-roundHalfEven q| ≤ 1/2 := by
  rcases roundHalfEven_eq_iff.mp (rfl : roundHalfEven q = roundHalfEven q) with h | h
  · exact h.le
  · exact h.1.le

@[simp] theorem roundHalfEven_intCast (n : ℤ) : roundHalfEven n = n := by
  rw [roundHalfEven_eq_iff]
  left
  simp

theorem roundHalfEven_nonneg {q : ℚ} (h : 0 ≤ q) : 0 ≤ roundHalfEven q := by
  have hfloor : 0 ≤ ⌊q⌋ := Int.floor_nonneg.mpr h
  unfold roundHalfEven
  split_ifs <;> omega

/-- How far a fraction with an odd denominator is from the nearest integer. -/
theorem abs_roundHalfEven_div {m : ℕ} (hm : Odd m) (a : ℕ) :
    |(roundHalfEven ((a : ℚ)/m) : ℚ)*m-a| = (min (a%m) (m-a%m) : ℕ) := by
  obtain ⟨k,r,hr,ha⟩ : ∃ k r, r < m ∧ a = m*k+r :=
    ⟨a/m,a%m,Nat.mod_lt a hm.pos,(Nat.div_add_mod a m).symm⟩
  have hmod : a%m = r := by rw [ha,Nat.mul_add_mod,Nat.mod_eq_of_lt hr]
  have hpos : (0 : ℚ) < m := by exact_mod_cast hm.pos
  have hquotient : (a : ℚ)/m-k = r/m := by
    rw [ha]
    push_cast
    field_simp
    ring
  have hodd : 2*r ≠ m := by
    rintro rfl
    exact Nat.not_odd_iff_even.mpr (even_two_mul r) hm
  rw [hmod]
  rcases Nat.lt_or_gt_of_ne hodd with hsmall | hlarge
  · have hnear : roundHalfEven ((a : ℚ)/m) = k := by
      rw [roundHalfEven_eq_iff]
      left
      have h2r : (2*r : ℚ) < m := by exact_mod_cast hsmall
      rw [Int.cast_natCast,hquotient,abs_of_nonneg (by positivity),div_lt_iff₀ hpos]
      linarith
    rw [hnear,min_eq_left (by omega),ha,abs_sub_comm,abs_of_nonneg]
    · push_cast
      ring
    · push_cast
      linarith [(Nat.cast_nonneg r : (0 : ℚ) ≤ r)]
  · have h2r : (m : ℚ) < 2*r := by exact_mod_cast hlarge
    have hrm : (r : ℚ) < m := by exact_mod_cast hr
    have hnear : roundHalfEven ((a : ℚ)/m) = k+1 := by
      rw [roundHalfEven_eq_iff]
      left
      have hdistance : (a : ℚ)/m-((k+1 : ℤ) : ℚ) = -((m-r)/m) := by
        push_cast
        rw [← sub_sub,hquotient]
        field_simp
        ring
      rw [hdistance,abs_neg,abs_of_nonneg (div_nonneg (by linarith) hpos.le),div_lt_iff₀ hpos]
      linarith
    rw [hnear,min_eq_right (by omega),ha,abs_of_nonneg]
    · rw [Nat.cast_sub hr.le]
      push_cast
      ring
    · push_cast
      linarith

theorem roundHalfEven_mul_of_lt_one {step : ℚ} (hpos : 0 < step) (hlt : step < 1) (n : ℤ) :
    roundHalfEven (roundHalfEven (n/step)*step) = n := by
  rw [roundHalfEven_eq_iff]
  left
  have hnear := abs_sub_roundHalfEven_le (n/step)
  have heq : (roundHalfEven (n/step) : ℚ)*step-n = -((n/step-roundHalfEven (n/step))*step) := by
    field_simp
    ring
  rw [heq,abs_neg,abs_mul,abs_of_pos hpos]
  nlinarith

/-- A rational number rounded to `prec` binary digits. -/
def roundToPrec (prec : ℕ) (q : ℚ) : ℚ :=
  if q = 0 then 0
  else
    let ulp : ℚ := 2^(Int.log 2 |q|-prec+1)
    roundHalfEven (q/ulp)*ulp

section
variable {prec : ℕ} {q : ℚ}

/-- The unit in the last place of a positive number. -/
def ulp (prec : ℕ) (q : ℚ) : ℚ := 2^(Int.log 2 q-prec+1)

theorem ulp_pos (prec : ℕ) (q : ℚ) : 0 < ulp prec q := by
  unfold ulp
  positivity

theorem roundToPrec_of_pos (h : 0 < q) :
    roundToPrec prec q = roundHalfEven (q/ulp prec q)*ulp prec q := by
  rw [roundToPrec,if_neg h.ne',abs_of_pos h]
  rfl

theorem roundToPrec_nonneg (prec : ℕ) {q : ℚ} (h : 0 ≤ q) : 0 ≤ roundToPrec prec q := by
  rcases h.eq_or_lt with rfl | hpos
  · simp [roundToPrec]
  · rw [roundToPrec_of_pos hpos]
    have hulp := ulp_pos prec q
    have hround := roundHalfEven_nonneg (div_nonneg h hulp.le)
    exact mul_nonneg (by exact_mod_cast hround) hulp.le

theorem ulp_mul_le (prec : ℕ) (h : 0 < q) : ulp prec q*2^prec ≤ 2*q ∧ q < ulp prec q*2^prec := by
  have hlow := Int.zpow_log_le_self (b := 2) (by decide) h
  have hhigh := Int.lt_zpow_succ_log_self (b := 2) (by decide) q
  have hulp : ulp prec q*2^prec = 2*2^(Int.log 2 q) := by
    unfold ulp
    rw [← zpow_natCast,← zpow_add₀ two_ne_zero]
    have hexp : Int.log 2 q-prec+1+prec = 1+Int.log 2 q := by ring
    rw [hexp,zpow_add₀ two_ne_zero,zpow_one]
  rw [zpow_add_one₀ (by norm_num)] at hhigh
  push_cast at hlow hhigh
  rw [hulp]
  constructor
  · linarith
  · linarith

theorem ulp_le_zpow {k : ℤ} (h : ulp prec q < 2*2^k) : ∃ j : ℕ, ulp prec q*2^j = 2^k := by
  unfold ulp at h ⊢
  rw [← zpow_one_add₀ two_ne_zero,zpow_lt_zpow_iff_right₀ one_lt_two] at h
  obtain ⟨j,hj⟩ := Int.eq_ofNat_of_zero_le (show 0 ≤ k-(Int.log 2 q-prec+1) by omega)
  refine ⟨j,?_⟩
  rw [← zpow_natCast,← zpow_add₀ two_ne_zero,← hj]
  congr 1
  ring

/-- An integer of few digits times a power of two is not rounded. -/
theorem roundToPrec_mul_zpow {n : ℤ} (hn : n.natAbs.size ≤ prec) (k : ℤ) :
    roundToPrec prec (n*2^k) = n*2^k := by
  unfold roundToPrec
  split_ifs with hzero
  · exact hzero.symm
  · have hpos : 0 < |(n : ℚ)*2^k| := abs_pos.mpr hzero
    have hlt : |(n : ℚ)| < 2^prec := by
      rw [← Int.cast_abs,Int.abs_eq_natAbs,Int.cast_natCast]
      exact_mod_cast Nat.size_le.mp hn
    have hshort : ulp prec |(n : ℚ)*2^k| < 2*2^k := by
      have hle := (ulp_mul_le prec hpos).1
      have htwo : (0 : ℚ) < 2^prec := by positivity
      have hk : (0 : ℚ) < 2^k := by positivity
      rw [abs_mul,abs_of_pos hk] at hle ⊢
      nlinarith
    obtain ⟨j,hj⟩ := ulp_le_zpow hshort
    have hulp : ulp prec |(n : ℚ)*2^k| ≠ 0 := (ulp_pos prec _).ne'
    change (roundHalfEven ((n : ℚ)*2^k/ulp prec |(n : ℚ)*2^k|) : ℚ)*ulp prec |(n : ℚ)*2^k| = n*2^k
    generalize ulp prec |(n : ℚ)*2^k| = u at hj hulp
    have hinteger : (n : ℚ)*2^k/u = ((n*2^j : ℤ) : ℚ) := by
      rw [div_eq_iff hulp,← hj]
      push_cast
      ring
    rw [hinteger,roundHalfEven_intCast,← hinteger,div_mul_cancel₀ _ hulp]

end

section
variable {d n : ℕ}

/-- The distance of the floating-point numbers around `n/10^d`, in units of `1/10^d`. -/
def spacing (prec d n : ℕ) : ℚ := ulp prec ((n : ℚ)/10^d)*10^d

theorem spacing_pos (prec d n : ℕ) : 0 < spacing prec d n :=
  mul_pos (ulp_pos _ _) (by positivity)

theorem roundToPrec_scaled (prec : ℕ) (hn : 0 < n) : roundToPrec prec ((n : ℚ)/10^d)*10^d =
    roundHalfEven (((n : ℤ) : ℚ)/spacing prec d n)*spacing prec d n := by
  have hquotient : (0 : ℚ) < (n : ℚ)/10^d := by positivity
  rw [roundToPrec_of_pos hquotient,spacing,Int.cast_natCast,div_div,mul_comm (10^d : ℚ),mul_assoc]

theorem spacing_bounds (prec : ℕ) (hn : 0 < n) :
    spacing prec d n*2^prec ≤ 2*n ∧ (n : ℚ) < spacing prec d n*2^prec := by
  have hquotient : (0 : ℚ) < (n : ℚ)/10^d := by positivity
  have hten : (0 : ℚ) < 10^d := by positivity
  obtain ⟨hlow,hhigh⟩ := ulp_mul_le prec hquotient
  rw [mul_div_assoc',le_div_iff₀ hten] at hlow
  rw [div_lt_iff₀ hten] at hhigh
  rw [spacing,mul_right_comm]
  exact ⟨hlow,hhigh⟩

theorem spacing_eq_zpow (prec d n : ℕ) : ∃ i : ℤ, spacing prec d n = 5^d*2^i := by
  refine ⟨Int.log 2 ((n : ℚ)/10^d)-prec+1+d,?_⟩
  have hten : (10 : ℚ)^d = 5^d*2^d := by rw [← mul_pow]; norm_num
  rw [spacing,ulp,hten,zpow_add₀ two_ne_zero _ (d : ℤ),zpow_natCast]
  ring

theorem five_pow_bounds (d : ℕ) :
    (2 : ℚ)^Nat.log 2 (5^d) ≤ 5^d ∧ (5 : ℚ)^d < 2^(Nat.log 2 (5^d)+1) := by
  constructor
  · exact_mod_cast Nat.pow_log_le_self 2 (pow_ne_zero d (by decide))
  · exact_mod_cast Nat.lt_pow_succ_log_self (by decide) (5^d)

theorem lt_of_mul_zpow_lt {m : ℚ} (hm : 0 < m) {a b : ℤ} (h : m*2^a < m*2^b) : a < b :=
  (zpow_lt_zpow_iff_right₀ one_lt_two).mp (lt_of_mul_lt_mul_left h hm.le)

/-- The first number with so many binary digits whose quotient has one more of them than the
quotients before it. -/
def coarseFrom (d size : ℕ) : ℕ := 5^d*2^(size-1-Nat.log 2 (5^d))

theorem cast_coarseFrom {size : ℕ} (h : Nat.log 2 (5^d) < size) :
    (coarseFrom d size : ℚ) = 5^d*2^((size : ℤ)-1-Nat.log 2 (5^d)) := by
  have hexp : ((size : ℤ)-1-Nat.log 2 (5^d)) = ((size-1-Nat.log 2 (5^d) : ℕ) : ℤ) := by omega
  rw [hexp,zpow_natCast]
  simp [coarseFrom]

/-- The floating-point numbers are closer than one unit up to the next coarse range. -/
theorem spacing_lt_one (hn : 0 < n) (hlog : Nat.log 2 (5^d) < 64)
    (h : n.size < 64 ∨ n < coarseFrom d n.size) : spacing (max n.size 64) d n < 1 := by
  obtain ⟨hlow,-⟩ := spacing_bounds (d := d) (max n.size 64) hn
  by_cases hshort : n.size < 64
  · have hsmall : (n : ℚ) < 2^63 := by exact_mod_cast Nat.size_le.mp (by omega : n.size ≤ 63)
    rw [max_eq_right (by omega)] at hlow ⊢
    have hpower : (2 : ℚ)^64 = 2*2^63 := by norm_num
    have hdouble : spacing 64 d n*2^64 < 1*2^64 := by
      rw [hpower] at hlow ⊢
      linarith
    exact lt_of_mul_lt_mul_right hdouble (by positivity)
  · rw [max_eq_left (by omega)] at hlow ⊢
    obtain ⟨i,hi⟩ := spacing_eq_zpow n.size d n
    have hpos : (0 : ℚ) < 5^d := by positivity
    have hsmall : (n : ℚ) < coarseFrom d n.size := by exact_mod_cast h.resolve_left hshort
    rw [cast_coarseFrom (by omega)] at hsmall
    have hexp : i+n.size < 1+((n.size : ℤ)-1-Nat.log 2 (5^d)) := by
      apply lt_of_mul_zpow_lt hpos
      rw [zpow_add₀ two_ne_zero,zpow_one_add₀ two_ne_zero,zpow_natCast,← mul_assoc,← hi]
      linarith
    have hle : (2 : ℚ)^i ≤ 2^(-((Nat.log 2 (5^d)+1 : ℕ) : ℤ)) :=
      zpow_le_zpow_right₀ one_le_two (by push_cast; omega)
    calc spacing n.size d n = 5^d*2^i := hi
      _ ≤ 5^d*2^(-((Nat.log 2 (5^d)+1 : ℕ) : ℤ)) := mul_le_mul_of_nonneg_left hle hpos.le
      _ < 2^(Nat.log 2 (5^d)+1)*2^(-((Nat.log 2 (5^d)+1 : ℕ) : ℤ)) :=
        mul_lt_mul_of_pos_right (five_pow_bounds d).2 (by positivity)
      _ = 1 := by
        rw [zpow_neg,zpow_natCast]
        exact mul_inv_cancel₀ (by positivity)

theorem spacing_eq (hn : 0 < n) (hlog : Nat.log 2 (5^d) < 64) (hsize : 64 ≤ n.size)
    (h : coarseFrom d n.size ≤ n) :
    spacing (max n.size 64) d n = 5^d/2^Nat.log 2 (5^d) := by
  obtain ⟨hlow,hhigh⟩ := spacing_bounds (d := d) (max n.size 64) hn
  rw [max_eq_left hsize] at hlow hhigh ⊢
  obtain ⟨i,hi⟩ := spacing_eq_zpow n.size d n
  have hpos : (0 : ℚ) < 5^d := by positivity
  have hlarge : (coarseFrom d n.size : ℚ) ≤ n := by exact_mod_cast h
  have hbits : (n : ℚ) < 2^n.size := by exact_mod_cast Nat.lt_size_self n
  rw [cast_coarseFrom (by omega)] at hlarge
  have hge : (n.size : ℤ)-1-Nat.log 2 (5^d) < i+n.size := by
    apply lt_of_mul_zpow_lt hpos
    rw [zpow_add₀ two_ne_zero,zpow_natCast,← mul_assoc,← hi]
    linarith
  have hle : Nat.log 2 (5^d)+i+n.size < 1+(n.size : ℤ) := by
    apply lt_of_mul_zpow_lt one_pos
    rw [one_mul,one_mul,zpow_add₀ two_ne_zero,zpow_add₀ two_ne_zero,zpow_one_add₀ two_ne_zero,
      zpow_natCast,zpow_natCast]
    have hpower : (0 : ℚ) < 2^i*2^n.size := by positivity
    have hfive := mul_le_mul_of_nonneg_right (five_pow_bounds d).1 hpower.le
    rw [← mul_assoc,← mul_assoc,← hi] at hfive
    linarith
  have hexp : i = -(Nat.log 2 (5^d) : ℤ) := by omega
  rw [hi,hexp,zpow_neg,zpow_natCast,div_eq_mul_inv]

/-- How far a number in a coarse range is from the nearest multiple of the spacing, in parts of a
unit. -/
def residue (d n : ℕ) : ℕ :=
  min (n*2^Nat.log 2 (5^d)%5^d) (5^d-n*2^Nat.log 2 (5^d)%5^d)

theorem abs_sub_coarse (d n : ℕ) :
    |(roundHalfEven (((n : ℤ) : ℚ)/(5^d/2^Nat.log 2 (5^d))) : ℚ)*(5^d/2^Nat.log 2 (5^d))-(n : ℤ)| =
      residue d n/2^Nat.log 2 (5^d) := by
  have hodd : Odd (5^d) := Odd.pow (by decide)
  have hdistance := abs_roundHalfEven_div hodd (n*2^Nat.log 2 (5^d))
  have hquotient : ((n : ℤ) : ℚ)/(5^d/2^Nat.log 2 (5^d)) =
      ((n*2^Nat.log 2 (5^d) : ℕ) : ℚ)/((5^d : ℕ) : ℚ) := by
    push_cast
    rw [div_div_eq_mul_div]
  have hpower : (0 : ℚ) < 2^Nat.log 2 (5^d) := by positivity
  have hscale (k : ℚ) : k*(5^d/2^Nat.log 2 (5^d))-(n : ℤ) =
      (k*((5^d : ℕ) : ℚ)-((n*2^Nat.log 2 (5^d) : ℕ) : ℚ))/2^Nat.log 2 (5^d) := by
    push_cast
    field_simp
  rw [hquotient,hscale,abs_div,abs_of_pos hpower,hdistance]
  rfl

/-- A number in a coarse range is found again if it is close enough to the nearest multiple. -/
theorem roundHalfEven_coarse (d n : ℕ) :
    roundHalfEven (roundHalfEven (((n : ℤ) : ℚ)/(5^d/2^Nat.log 2 (5^d)))*
      (5^d/2^Nat.log 2 (5^d))) = n ↔
    2*residue d n < 2^Nat.log 2 (5^d) ∨ 2*residue d n = 2^Nat.log 2 (5^d) ∧ Even n := by
  have hpower : (0 : ℚ) < 2^Nat.log 2 (5^d) := by positivity
  have hlt : (residue d n : ℚ)/2^Nat.log 2 (5^d) < 1/2 ↔ 2*residue d n < 2^Nat.log 2 (5^d) := by
    rw [div_lt_div_iff₀ hpower two_pos,one_mul,mul_comm]
    exact_mod_cast Iff.rfl
  have heq : (residue d n : ℚ)/2^Nat.log 2 (5^d) = 1/2 ↔ 2*residue d n = 2^Nat.log 2 (5^d) := by
    rw [div_eq_div_iff hpower.ne' two_ne_zero,one_mul,mul_comm]
    exact_mod_cast Iff.rfl
  rw [roundHalfEven_eq_iff,abs_sub_coarse,hlt,heq,Int.even_coe_nat]

/-- The numbers that are found again when their quotient by `10^d` is rounded, to their own number
of binary digits but at least 64, and brought back to whole units. -/
def SurvivesScaling (d n : ℕ) : Prop :=
  n.size < 64 ∨ n < coarseFrom d n.size ∨
    2*residue d n < 2^Nat.log 2 (5^d) ∨ 2*residue d n = 2^Nat.log 2 (5^d) ∧ Even n

instance (d n : ℕ) : Decidable (SurvivesScaling d n) := inferInstanceAs (Decidable (_ ∨ _))

theorem survivesScaling_iff (hlog : Nat.log 2 (5^d) < 64) (n : ℕ) :
    roundHalfEven (roundToPrec (max n.size 64) ((n : ℚ)/10^d)*10^d) = n ↔ SurvivesScaling d n := by
  rcases n.eq_zero_or_pos with rfl | hn
  · simp [roundToPrec,SurvivesScaling,roundHalfEven]
  · rw [roundToPrec_scaled _ hn]
    by_cases hfine : n.size < 64 ∨ n < coarseFrom d n.size
    · have hlt := spacing_lt_one hn hlog hfine
      refine iff_of_true (roundHalfEven_mul_of_lt_one (spacing_pos _ _ _) hlt n) ?_
      rw [SurvivesScaling,← or_assoc]
      exact .inl hfine
    · have hcoarse := hfine
      rw [not_or,not_lt,not_lt] at hcoarse
      rw [spacing_eq hn hlog hcoarse.1 hcoarse.2,roundHalfEven_coarse,SurvivesScaling,← or_assoc,
        or_iff_right hfine]

end

end ChainKit.Lib
