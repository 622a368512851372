import Mathlib

/-! Where a text occurs in another that is put together from parts. -/
namespace ChainKit.Lib
variable {α : Type*}

/-- No end of the front runs into an occurrence of the text, and none holds one. -/
def Apart (t : List α) : List α → Prop
  | [] => True
  | a :: front => (¬t <+: a :: front ∧ ¬a :: front <+: t) ∧ Apart t front

instance Apart.decidable [DecidableEq α] (t : List α) :
    (front : List α) → Decidable (Apart t front)
  | [] => .isTrue trivial
  | a :: front =>
    have := Apart.decidable t front
    inferInstanceAs (Decidable ((¬t <+: a :: front ∧ ¬a :: front <+: t) ∧ Apart t front))

/-- Behind a front that it is apart from, a text occurs only where it occurs in the rest. -/
theorem infix_append_iff {t front : List α} (h : Apart t front) (rest : List α) :
    t <:+: front ++ rest ↔ t <:+: rest := by
  induction front with
  | nil => rfl
  | cons a front ih =>
    obtain ⟨⟨hinside,hinto⟩,hfront⟩ := h
    rw [List.cons_append,List.infix_cons_iff,ih hfront,or_iff_right]
    intro hstart
    have hhead : a :: front <+: a :: (front ++ rest) := List.prefix_append (a :: front) rest
    rcases List.prefix_or_prefix_of_prefix hstart hhead with h | h
    · exact hinside h
    · exact hinto h

theorem apart_of_notMem {c : α} {t front : List α} (h : c ∉ front) : Apart (c :: t) front := by
  induction front with
  | nil => trivial
  | cons a front ih =>
    rw [List.mem_cons,not_or] at h
    refine ⟨⟨?_,?_⟩,ih h.2⟩
    · intro hstart
      exact h.1 (List.cons_prefix_cons.mp hstart).1
    · intro hstart
      exact h.1 (List.cons_prefix_cons.mp hstart).1.symm

end ChainKit.Lib
