import Mathlib

/-! Numbers as lists of digits of a fixed length, the most significant digit first. On such lists
the lexicographic order is that of the numbers. -/
namespace ChainKit.Lib

def ofBigEndian (b : ℕ) (l : List ℕ) : ℕ := Nat.ofDigits b l.reverse

def lastDigits (b : ℕ) : ℕ → ℕ → List ℕ
  | 0,_ => []
  | k+1,v => v/b^k%b :: lastDigits b k v

section
variable {b : ℕ} {d : ℕ} {l l' : List ℕ}

@[simp] theorem ofBigEndian_nil (b : ℕ) : ofBigEndian b [] = 0 := rfl

theorem ofBigEndian_append (b : ℕ) (l l' : List ℕ) :
    ofBigEndian b (l ++ l') = ofBigEndian b l*b^l'.length+ofBigEndian b l' := by
  unfold ofBigEndian
  rw [List.reverse_append,Nat.ofDigits_append,List.length_reverse]
  ring

@[simp] theorem ofBigEndian_cons (b d : ℕ) (l : List ℕ) :
    ofBigEndian b (d :: l) = d*b^l.length+ofBigEndian b l := by
  rw [← List.singleton_append,ofBigEndian_append]
  simp [ofBigEndian]

theorem ofBigEndian_lt (hb : 1 < b) (hl : ∀ d ∈ l, d < b) : ofBigEndian b l < b^l.length := by
  unfold ofBigEndian
  rw [← List.length_reverse]
  apply Nat.ofDigits_lt_base_pow_length hb
  simpa using hl

theorem ofBigEndian_cons_lt {d' : ℕ} (hb : 1 < b) (hl : ∀ e ∈ l, e < b)
    (hlength : l.length = l'.length) (hd : d < d') :
    ofBigEndian b (d :: l) < ofBigEndian b (d' :: l') := by
  have hlt := ofBigEndian_lt hb hl
  rw [ofBigEndian_cons,ofBigEndian_cons,hlength]
  rw [hlength] at hlt
  calc d*b^l'.length+ofBigEndian b l < (d+1)*b^l'.length := by
        rw [Nat.add_mul]
        omega
    _ ≤ d'*b^l'.length := Nat.mul_le_mul_right _ hd
    _ ≤ d'*b^l'.length+ofBigEndian b l' := Nat.le_add_right _ _

/-- Digits in lexicographic order are numbers in order. -/
theorem lt_iff_ofBigEndian_lt (hb : 1 < b) (hl : ∀ d ∈ l, d < b) (hl' : ∀ d ∈ l', d < b)
    (hlength : l.length = l'.length) : l < l' ↔ ofBigEndian b l < ofBigEndian b l' := by
  induction l generalizing l' with
  | nil =>
    rw [List.eq_nil_of_length_eq_zero hlength.symm]
    simp
  | cons d l ih =>
    cases l' with
    | nil => cases hlength
    | cons d' l' =>
      have htail : l.length = l'.length := Nat.succ.inj hlength
      have hl := List.forall_mem_cons.mp hl
      have hl' := List.forall_mem_cons.mp hl'
      rw [List.cons_lt_cons_iff,ih hl.2 hl'.2 htail]
      rcases lt_trichotomy d d' with hlt | rfl | hgt
      · exact iff_of_true (.inl hlt) (ofBigEndian_cons_lt hb hl.2 htail hlt)
      · simp [htail]
      · have hrev := ofBigEndian_cons_lt hb hl'.2 htail.symm hgt
        refine iff_of_false ?_ (by omega)
        rintro (h | ⟨h,_⟩) <;> omega

theorem map_lt_map {α : Type} [LT α] {f : ℕ → α} (hf : ∀ d e, d < e → e < b → f d < f e)
    (hl' : ∀ d ∈ l', d < b) (h : l < l') : l.map f < l'.map f := by
  induction l generalizing l' with
  | nil =>
    cases l' with
    | nil => exact absurd h (lt_irrefl _)
    | cons d' l' => exact List.nil_lt_cons _ _
  | cons d l ih =>
    cases l' with
    | nil => exact absurd h (List.not_lt_nil _)
    | cons d' l' =>
      have hl' := List.forall_mem_cons.mp hl'
      rw [List.map_cons,List.map_cons,List.cons_lt_cons_iff]
      rcases List.cons_lt_cons_iff.mp h with hlt | ⟨rfl,hlt⟩
      · exact .inl (hf d d' hlt hl'.1)
      · exact .inr ⟨rfl,ih hl'.2 hlt⟩

@[simp] theorem length_lastDigits (b k v : ℕ) : (lastDigits b k v).length = k := by
  induction k with
  | zero => rfl
  | succ k ih => rw [lastDigits,List.length_cons,ih]

theorem lt_of_mem_lastDigits (hb : 0 < b) {k v : ℕ} (h : d ∈ lastDigits b k v) : d < b := by
  induction k with
  | zero => cases h
  | succ k ih =>
    rcases List.mem_cons.mp h with rfl | h
    · exact Nat.mod_lt _ hb
    · exact ih h

theorem ofBigEndian_lastDigits (b k v : ℕ) : ofBigEndian b (lastDigits b k v) = v%b^k := by
  induction k with
  | zero => simp [lastDigits,Nat.mod_one]
  | succ k ih =>
    rw [lastDigits,ofBigEndian_cons,length_lastDigits,ih,Nat.mod_pow_succ]
    ring

end

end ChainKit.Lib
