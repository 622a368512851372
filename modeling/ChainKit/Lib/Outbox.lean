import Mathlib

/-! An outbox: items enter, wait in a bounded queue and are taken in batches. A batch is
delivered, put back in front of the queue or given up. Lost items are only counted. -/
namespace ChainKit.Lib
variable {α : Type}

/-- `entered` and `delivered` record the past. While `writtenOff` is set, the batch that is held
is already counted among the lost items. -/
structure Outbox (α : Type) where
  entered : List α := []
  delivered : List α := []
  held : List α := []
  waiting : List α := []
  lost : ℕ := 0
  writtenOff : Bool := false

namespace Outbox

/-- The moves of an outbox whose queue holds `cap` items and whose batches hold `batch`. A full
queue loses its oldest item to the one that enters, and a batch that is put back loses its oldest
items to what has entered meanwhile. -/
inductive Move (cap batch : ℕ) (o : Outbox α) : Outbox α → Prop
  | idle : Move cap batch o o
  | enter (x : α) (h : o.waiting.length < cap) : Move cap batch o
      { o with entered := o.entered ++ [x], waiting := o.waiting ++ [x] }
  | displace (x : α) (h : o.waiting ≠ []) : Move cap batch o
      { o with entered := o.entered ++ [x], waiting := o.waiting.tail ++ [x], lost := o.lost+1 }
  | refuse (x : α) : Move cap batch o
      { o with entered := o.entered ++ [x], lost := o.lost+1 }
  | shed (n : ℕ) (h : n ≤ o.waiting.length) : Move cap batch o
      { o with waiting := o.waiting.drop n, lost := o.lost+n }
  | take (n : ℕ) (hn : n ≤ batch) (h : o.held = []) (hw : o.writtenOff = false) :
      Move cap batch o { o with held := o.waiting.take n, waiting := o.waiting.drop n }
  | commit (hw : o.writtenOff = false) : Move cap batch o
      { o with delivered := o.delivered ++ o.held, held := [] }
  | restore (hw : o.writtenOff = false) : Move cap batch o
      { o with
        waiting := (o.held ++ o.waiting).drop ((o.held ++ o.waiting).length-cap)
        lost := o.lost+((o.held ++ o.waiting).length-cap)
        held := [] }
  | writeOff (hw : o.writtenOff = false) : Move cap batch o
      { o with lost := o.lost+o.held.length, writtenOff := true }
  | release (hw : o.writtenOff = true) : Move cap batch o
      { o with held := [], writtenOff := false }
  | clear (hw : o.writtenOff = false) : Move cap batch o
      { o with waiting := [], held := [], lost := o.lost+(o.waiting.length+o.held.length) }

/-- Every item that has entered is delivered, lost, held or waiting. A batch that is written off
is both lost and held. -/
def Conserved (o : Outbox α) : Prop :=
  o.entered.length+(if o.writtenOff then o.held.length else 0) =
    o.delivered.length+o.lost+o.held.length+o.waiting.length

theorem Conserved.length_eq {o : Outbox α} (h : o.Conserved) (hw : o.writtenOff = false) :
    o.entered.length = o.delivered.length+o.lost+o.held.length+o.waiting.length := by
  simpa [Conserved,hw] using h

/-- What is delivered, held and waiting has entered in this order. -/
def Ordered (o : Outbox α) : Prop := (o.delivered ++ o.held ++ o.waiting).Sublist o.entered

structure Bounded (cap batch : ℕ) (o : Outbox α) : Prop where
  waiting : o.waiting.length ≤ cap
  held : o.held.length ≤ batch

namespace Move
variable {cap batch : ℕ} {o o' : Outbox α}

theorem conserved (h : Move cap batch o o') (hc : o.Conserved) : o'.Conserved := by
  unfold Conserved at hc ⊢
  cases h with
  | idle => exact hc
  | enter x h =>
    simp only [List.length_append,List.length_singleton]
    omega
  | displace x h =>
    have hpos : 0 < o.waiting.length := List.length_pos_of_ne_nil h
    simp only [List.length_append,List.length_singleton,List.length_tail]
    omega
  | refuse x =>
    simp only [List.length_append,List.length_singleton]
    omega
  | shed n h =>
    simp only [List.length_drop]
    omega
  | take n hn h hw =>
    simp only [hw,h,Bool.false_eq_true,if_false,List.length_nil,List.length_take,
      List.length_drop] at hc ⊢
    omega
  | commit hw =>
    simp only [hw,Bool.false_eq_true,if_false,List.length_append,List.length_nil] at hc ⊢
    omega
  | restore hw =>
    simp only [hw,Bool.false_eq_true,if_false,List.length_drop,List.length_append,
      List.length_nil] at hc ⊢
    omega
  | writeOff hw =>
    simp only [hw,Bool.false_eq_true,if_false,if_true] at hc ⊢
    omega
  | release hw =>
    simp only [hw,Bool.false_eq_true,if_false,if_true,List.length_nil] at hc ⊢
    omega
  | clear hw =>
    simp only [hw,Bool.false_eq_true,if_false,List.length_nil] at hc ⊢
    omega

/-- No move changes the order. A batch that is put back stands where it was taken from. -/
theorem ordered (h : Move cap batch o o') (ho : o.Ordered) : o'.Ordered := by
  unfold Ordered at ho ⊢
  cases h with
  | idle => exact ho
  | enter x h =>
    rw [← List.append_assoc]
    exact ho.append (List.Sublist.refl [x])
  | displace x h =>
    rw [← List.append_assoc]
    have htail := (List.tail_sublist o.waiting).append_left (o.delivered ++ o.held)
    exact (htail.trans ho).append (List.Sublist.refl [x])
  | refuse x => exact ho.trans (List.sublist_append_left _ _)
  | shed n h => exact ((List.drop_sublist n _).append_left _).trans ho
  | take n hn h hw =>
    rw [h,List.append_nil] at ho
    simpa using ho
  | commit hw => simpa using ho
  | restore hw =>
    rw [List.append_assoc] at ho
    rw [List.append_nil]
    exact ((List.drop_sublist _ _).append_left _).trans ho
  | writeOff hw => exact ho
  | release hw =>
    rw [List.append_nil]
    exact ((List.sublist_append_left _ _).append_right _).trans ho
  | clear hw =>
    rw [List.append_nil,List.append_nil]
    rw [List.append_assoc] at ho
    exact (List.sublist_append_left _ _).trans ho

theorem bounded (h : Move cap batch o o') (hb : o.Bounded cap batch) : o'.Bounded cap batch := by
  obtain ⟨hw,hh⟩ := hb
  cases h with
  | idle => exact ⟨hw,hh⟩
  | enter x h => exact ⟨by simpa using h,hh⟩
  | displace x h =>
    have hpos : 0 < o.waiting.length := List.length_pos_of_ne_nil h
    refine ⟨?_,hh⟩
    simp only [List.length_append,List.length_singleton,List.length_tail]
    omega
  | refuse x => exact ⟨hw,hh⟩
  | shed n h =>
    refine ⟨?_,hh⟩
    simp only [List.length_drop]
    omega
  | take n hn h hw' =>
    constructor
    · simp only [List.length_drop]
      omega
    · simp only [List.length_take]
      omega
  | commit hw' => exact ⟨hw,Nat.zero_le _⟩
  | restore hw' =>
    refine ⟨?_,Nat.zero_le _⟩
    simp only [List.length_drop]
    omega
  | writeOff hw' => exact ⟨hw,hh⟩
  | release hw' => exact ⟨hw,Nat.zero_le _⟩
  | clear hw' => exact ⟨Nat.zero_le _,Nat.zero_le _⟩

end Move

/-- What holds of an outbox after any moves from the empty one. -/
structure Sound (cap batch : ℕ) (o : Outbox α) : Prop where
  conserved : o.Conserved
  ordered : o.Ordered
  bounded : o.Bounded cap batch

theorem sound_empty (cap batch : ℕ) : Sound cap batch ({} : Outbox α) :=
  ⟨rfl,List.Sublist.refl _,⟨Nat.zero_le _,Nat.zero_le _⟩⟩

theorem Move.sound {cap batch : ℕ} {o o' : Outbox α} (h : Move cap batch o o')
    (hs : o.Sound cap batch) : o'.Sound cap batch :=
  ⟨h.conserved hs.conserved,h.ordered hs.ordered,h.bounded hs.bounded⟩

end Outbox
end ChainKit.Lib
