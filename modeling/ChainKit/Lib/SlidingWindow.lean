import Mathlib

/-! Sliding windows. A limiter admits an event when fewer than `m` recorded times lie in the
window that ends now. If every admitted event is recorded no earlier than it starts, then no
window of that width holds more than `m` starts. -/
namespace ChainKit.Lib
variable {α : Type} [LinearOrder α]

def countFrom (x : α) (times : List α) : ℕ := times.countP (fun t => decide (x ≤ t))

@[simp] theorem countFrom_concat (x t : α) (times : List α) :
    countFrom x (times ++ [t]) = countFrom x times+if x ≤ t then 1 else 0 := by
  simp [countFrom,List.countP_append,List.countP_cons]

theorem countFrom_le_length (x : α) (times : List α) : countFrom x times ≤ times.length :=
  List.countP_le_length

theorem countFrom_filter {x lower : α} (h : lower < x) (times : List α) :
    countFrom x (times.filter (fun t => decide (lower < t))) = countFrom x times := by
  rw [countFrom,countFrom,List.countP_filter]
  congr 1
  funext t
  by_cases ht : x ≤ t
  · simp [ht,lt_of_lt_of_le h ht]
  · simp [ht]

variable [AddCommGroup α]

/-- The number of times in the window of width `width` that starts at `a`. -/
def countIn (a width : α) (times : List α) : ℕ :=
  times.countP (fun t => decide (a ≤ t) && decide (t < a+width))

/-- Within the window before `now` the recorded times make up for all starts. -/
def Covers (now width : α) (starts recorded : List α) : Prop :=
  ∀ x, now-width < x → countFrom x starts ≤ countFrom x recorded

@[simp] theorem countIn_concat (a width t : α) (times : List α) :
    countIn a width (times ++ [t]) =
      countIn a width times+if a ≤ t ∧ t < a+width then 1 else 0 := by
  simp [countIn,List.countP_append,List.countP_cons]

theorem countIn_le_countFrom (a width : α) (times : List α) :
    countIn a width times ≤ countFrom a times := by
  apply List.countP_mono_left
  intro t _ ht
  exact (Bool.and_eq_true _ _ ▸ ht).1

/-- The number of times in the window of width `width` that ends at `t`. -/
def countWithin (t width : α) (times : List α) : ℕ :=
  times.countP (fun x => decide (t-width < x) && decide (x ≤ t))

/-- A limiter has kept everything that may still lie in a window that ends at `now` or later. -/
def Keeps (now width : α) (recorded kept : List α) : Prop :=
  ∀ x, now-width ≤ x → kept.filter (fun t => decide (x < t)) =
    recorded.filter (fun t => decide (x < t))

@[simp] theorem countWithin_concat (t width x : α) (times : List α) :
    countWithin t width (times ++ [x]) =
      countWithin t width times+if t-width < x ∧ x ≤ t then 1 else 0 := by
  simp [countWithin,List.countP_append,List.countP_cons]

theorem Keeps.concat {now width : α} {recorded kept : List α} (h : Keeps now width recorded kept)
    (t : α) : Keeps now width (recorded ++ [t]) (kept ++ [t]) := by
  intro x hx
  rw [List.filter_append,List.filter_append,h x hx]

theorem Keeps.drop {now width : α} {recorded kept : List α} (h : Keeps now width recorded kept) :
    Keeps now width recorded (kept.filter (fun t => decide (now-width < t))) := by
  intro x hx
  rw [List.filter_filter,← h x hx]
  apply List.filter_congr
  intro t _
  by_cases ht : x < t
  · simp [ht,lt_of_le_of_lt hx ht]
  · simp [ht]

/-- As long as no recorded time lies ahead, what is kept of the window that ends now is its
content. -/
theorem Keeps.length_eq {now width : α} {recorded kept : List α}
    (h : Keeps now width recorded kept) (hpast : ∀ t ∈ recorded, t ≤ now) :
    (kept.filter (fun t => decide (now-width < t))).length = countWithin now width recorded := by
  rw [h (now-width) le_rfl,← List.countP_eq_length_filter,countWithin]
  apply List.countP_congr
  intro t ht
  simp [hpast t ht]

variable {now now' width : α} {starts recorded : List α}

theorem Covers.concat (h : Covers now width starts recorded) {s r : α} (hsr : s ≤ r) :
    Covers now width (starts ++ [s]) (recorded ++ [r]) := by
  intro x hx
  have hx' := h x hx
  rw [countFrom_concat,countFrom_concat]
  by_cases hs : x ≤ s
  · rw [if_pos hs,if_pos (le_trans hs hsr)]
    omega
  · rw [if_neg hs]
    omega

variable [IsOrderedAddMonoid α]

theorem Covers.mono (h : Covers now width starts recorded) (hn : now ≤ now') :
    Covers now' width starts recorded := by
  intro x hx
  exact h x (lt_of_le_of_lt (sub_le_sub_right hn width) hx)

/-- An admitted event does not overfill any window. -/
theorem Covers.countIn_concat_le (h : Covers now width starts recorded) {m : ℕ}
    (hlen : recorded.length < m) {s : α} (hs : now ≤ s)
    (hbound : ∀ a, countIn a width starts ≤ m) (a : α) :
    countIn a width (starts ++ [s]) ≤ m := by
  rw [countIn_concat]
  by_cases hin : a ≤ s ∧ s < a+width
  · have ha : now-width < a := by
      rw [sub_lt_iff_lt_add]
      exact lt_of_le_of_lt hs hin.2
    have hle : countIn a width starts ≤ recorded.length := by
      calc
        countIn a width starts ≤ countFrom a starts := countIn_le_countFrom a width starts
        _ ≤ countFrom a recorded := h a ha
        _ ≤ recorded.length := countFrom_le_length a recorded
    rw [if_pos hin]
    omega
  · rw [if_neg hin]
    exact hbound a

theorem Keeps.mono {kept : List α} (h : Keeps now width recorded kept) (hn : now ≤ now') :
    Keeps now' width recorded kept := by
  intro x hx
  exact h x (le_trans (sub_le_sub_right hn width) hx)

/-- A window that ends at `t` holds no more of what was recorded up to `now ≤ t` than the one
that ends at `now`. -/
theorem countWithin_le_of_past {t : α} (ht : now ≤ t) (hpast : ∀ x ∈ recorded, x ≤ now) :
    countWithin t width recorded ≤ countWithin now width recorded := by
  apply List.countP_mono_left
  intro x hx h
  simp only [Bool.and_eq_true,decide_eq_true_eq] at h ⊢
  exact ⟨lt_of_le_of_lt (sub_le_sub_right ht width) h.1,hpast x hx⟩

end ChainKit.Lib
