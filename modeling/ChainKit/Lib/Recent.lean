import Mathlib

/-! The most recent rows of a history, oldest first. Rows of the same time may come in any
order, so there may be more than one right answer. -/
namespace ChainKit.Lib
variable {α β : Type} [LinearOrder β] {time : α → β} {k : ℕ} {rows answer : List α}

def Chronological (time : α → β) (l : List α) : Prop := l.Pairwise (fun a b => time a ≤ time b)

/-- The answer has the `k` most recent rows, or all if there are fewer: none that it leaves out
is newer than one that it has. -/
structure IsRecent (time : α → β) (k : ℕ) (rows answer : List α) : Prop where
  chronological : Chronological time answer
  length : answer.length = min k rows.length
  newest : ∃ rest, (rest ++ answer).Perm rows ∧ ∀ a ∈ rest, ∀ b ∈ answer, time a ≤ time b

theorem IsRecent.of_perm {rows' : List α} (h : IsRecent time k rows answer)
    (hperm : rows.Perm rows') : IsRecent time k rows' answer := by
  obtain ⟨rest,hrest,hnewest⟩ := h.newest
  refine ⟨h.chronological,?_,rest,hrest.trans hperm,hnewest⟩
  rw [← hperm.length_eq]
  exact h.length

theorem isRecent_drop (h : Chronological time rows) :
    IsRecent time k rows (rows.drop (rows.length-k)) := by
  have hsplit := List.take_append_drop (rows.length-k) rows
  rw [Chronological,← hsplit,List.pairwise_append] at h
  obtain ⟨_,hlast,hacross⟩ := h
  refine ⟨hlast,?_,rows.take (rows.length-k),?_,hacross⟩
  · rw [List.length_drop]
    omega
  · rw [hsplit]

theorem isRecent_of_descending {sorted : List α} (hperm : sorted.Perm rows)
    (hsorted : sorted.Pairwise (fun a b => time b ≤ time a)) :
    IsRecent time k rows (sorted.take k).reverse := by
  have hchronological : Chronological time sorted.reverse := List.pairwise_reverse.mpr hsorted
  have hrecent : IsRecent time k sorted.reverse _ := isRecent_drop hchronological
  rw [List.length_reverse,← List.reverse_take] at hrecent
  exact hrecent.of_perm (sorted.reverse_perm.trans hperm)

/-- The end of a chronological history is enough when it is long enough. -/
theorem isRecent_drop_suffix {before last : List α} (h : Chronological time (before ++ last))
    (hk : before = [] ∨ k ≤ last.length) :
    IsRecent time k (before ++ last) (last.drop (last.length-k)) := by
  have hrecent : IsRecent time k (before ++ last) _ := isRecent_drop h
  obtain rfl | hk := hk
  · exact hrecent
  · have hlength : (before ++ last).length-k = before.length+(last.length-k) := by
      rw [List.length_append]
      omega
    rwa [hlength,List.drop_length_add_append] at hrecent

theorem chronological_concat {l : List α} {r : α} (hl : Chronological time l)
    (hr : ∀ q ∈ l, time q ≤ time r) : Chronological time (l ++ [r]) := by
  refine List.pairwise_append.mpr ⟨hl,List.pairwise_singleton _ r,?_⟩
  intro q hq r' hr'
  rw [List.mem_singleton.mp hr']
  exact hr q hq

/-- A list in front of a history, to which the pending rows are still to be added. If it is not
empty, then it has the last of the other rows, and not fewer than `cap` unless it has them all. -/
structure Follows (time : α → β) (cap : ℤ) (rows list pending : List α) : Prop where
  sublist : pending.Sublist rows
  chronological : Chronological time pending
  suffix : list ≠ [] → Chronological time rows ∧
    ∃ before, rows = before ++ (list ++ pending) ∧ (before = [] ∨ cap ≤ list.length)

namespace Follows
variable {cap : ℤ} {list pending : List α} {r : α}

theorem start (rows : List α) : Follows time cap rows [] [] :=
  ⟨List.nil_sublist rows,List.Pairwise.nil,fun h => absurd rfl h⟩

theorem concat (h : Follows time cap rows list pending) (hr : ∀ q ∈ rows, time q ≤ time r) :
    Follows time cap (rows ++ [r]) list (pending ++ [r]) := by
  refine ⟨h.sublist.append_right [r],?_,?_⟩
  · exact chronological_concat h.chronological fun q hq => hr q (h.sublist.subset hq)
  · intro hlist
    obtain ⟨hchronological,before,hsplit,hcap⟩ := h.suffix hlist
    refine ⟨chronological_concat hchronological hr,before,?_,hcap⟩
    rw [hsplit]
    simp

theorem drop (h : Follows time cap rows list pending) {pending' : List α}
    (hpending : pending'.Sublist pending) : Follows time cap rows [] pending' :=
  ⟨hpending.trans h.sublist,h.chronological.sublist hpending,fun hlist => absurd rfl hlist⟩

theorem add (h : Follows time cap rows list (r :: pending)) (hall : list = [] → rows = r :: pending)
    {list' : List α} (hlist : list' = [] ∨
      ∃ before, list ++ [r] = before ++ list' ∧ (before = [] ∨ cap ≤ list'.length)) :
    Follows time cap rows list' pending := by
  refine ⟨(List.sublist_cons_self r pending).trans h.sublist,h.chronological.of_cons,?_⟩
  intro hne
  obtain ⟨before',hadd,hcap'⟩ := hlist.resolve_left hne
  by_cases hempty : list = []
  · have hrows := hall hempty
    refine ⟨by rw [hrows]; exact h.chronological,before',?_,hcap'⟩
    rw [← List.append_assoc,← hadd,hempty,hrows]
    rfl
  · obtain ⟨hchronological,before,hsplit,hcap⟩ := h.suffix hempty
    refine ⟨hchronological,before ++ before',?_,?_⟩
    · calc rows = before ++ ((list ++ [r]) ++ pending) := by simpa using hsplit
        _ = before ++ before' ++ (list' ++ pending) := by simp [hadd]
    · -- Either rows have left the list just now, or it has grown.
      obtain rfl | hcap' := hcap'
      · obtain rfl | hcap := hcap
        · exact .inl rfl
        · right
          have hlength := congrArg List.length hadd
          simp only [List.length_append,List.length_singleton,List.length_nil] at hlength
          omega
      · exact .inr hcap'

/-- When nothing is pending, the end of the list answers for the history. -/
theorem isRecent (h : Follows time cap rows list []) (hlist : list ≠ [])
    (hk : k ≤ cap ∨ rows.length ≤ cap) :
    IsRecent time k rows (list.drop (list.length-k)) := by
  obtain ⟨hchronological,before,hsplit,hcap⟩ := h.suffix hlist
  rw [List.append_nil] at hsplit
  rw [hsplit] at hchronological ⊢
  refine isRecent_drop_suffix hchronological ?_
  rw [hsplit,List.length_append] at hk
  rw [← List.length_eq_zero_iff] at hcap ⊢
  omega

end Follows
end ChainKit.Lib
