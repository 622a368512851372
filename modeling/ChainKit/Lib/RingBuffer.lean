import Mathlib

/-! Ring buffers: a fixed number of slots that are written in turn, so that a new entry takes the
place of the oldest one once all slots are in use. -/
namespace ChainKit.Lib
variable {α : Type}

def newest (n : ℕ) (l : List α) : List α := l.drop (l.length-n)

theorem newest_of_le {n : ℕ} {l : List α} (h : l.length ≤ n) : newest n l = l := by
  rw [newest,Nat.sub_eq_zero_of_le h,List.drop_zero]

theorem newest_append_newest (n : ℕ) (l rs : List α) :
    newest n (newest n l ++ rs) = newest n (l ++ rs) := by
  rcases Nat.le_total l.length n with hle | hge
  · rw [newest_of_le hle]
  · have hlength : (newest n l).length = n := by
      rw [newest,List.length_drop]
      omega
    have hsplit : l ++ rs = l.take (l.length-n) ++ (newest n l ++ rs) := by
      rw [← List.append_assoc,newest,List.take_append_drop]
    have htake : (l.take (l.length-n)).length = l.length-n := by
      rw [List.length_take]
      omega
    have hcut : (l ++ rs).length-n = (l.take (l.length-n)).length+rs.length := by
      rw [htake,List.length_append]
      omega
    have hcut' : (newest n l ++ rs).length-n = rs.length := by
      rw [List.length_append,hlength]
      omega
    calc newest n (newest n l ++ rs) = (newest n l ++ rs).drop rs.length := by rw [newest,hcut']
      _ = (l ++ rs).drop ((l ++ rs).length-n) := by
        rw [hcut,hsplit,List.drop_length_add_append]

theorem newest_sublist (n : ℕ) (l : List α) : (newest n l).Sublist l := List.drop_sublist _ _

theorem newest_append_of_le {n : ℕ} {rs : List α} (h : n ≤ rs.length) (l : List α) :
    newest n (l ++ rs) = newest n rs := by
  have hcut : (l ++ rs).length-n = l.length+(rs.length-n) := by
    rw [List.length_append]
    omega
  rw [newest,hcut,List.drop_length_add_append,newest]

/-- `head` is the slot that is written next, and `full` says that every slot has been written. -/
structure RingBuffer (α : Type) where
  buf : List α
  head : ℕ
  full : Bool
  bound : head < buf.length

namespace RingBuffer

def size (h : RingBuffer α) : ℕ := h.buf.length

def new (size : ℕ) (hsize : 0 < size) (blank : α) : RingBuffer α where
  buf := List.replicate size blank
  head := 0
  full := false
  bound := by simpa using hsize

def add (h : RingBuffer α) (r : α) : RingBuffer α where
  buf := h.buf.set h.head r
  head := (h.head+1) % h.buf.length
  full := h.full || decide ((h.head+1) % h.buf.length = 0)
  bound := by
    rw [List.length_set]
    exact Nat.mod_lt _ (Nat.zero_lt_of_lt h.bound)

/-- The entries from the oldest to the newest. -/
def snapshot (h : RingBuffer α) : List α :=
  if h.full then h.buf.drop h.head ++ h.buf.take h.head else h.buf.take h.head

@[simp] theorem snapshot_new (size : ℕ) (hsize : 0 < size) (blank : α) :
    (new size hsize blank).snapshot = [] := by simp [new,snapshot]

@[simp] theorem size_new (size : ℕ) (hsize : 0 < size) (blank : α) :
    (new size hsize blank).size = size := by simp [new,RingBuffer.size]

@[simp] theorem size_add (h : RingBuffer α) (r : α) : (h.add r).size = h.size := by
  simp [add,RingBuffer.size]

theorem length_snapshot (h : RingBuffer α) :
    h.snapshot.length = if h.full then h.size else h.head := by
  have hbound := h.bound
  unfold snapshot size
  split_ifs
  · rw [List.length_append,List.length_drop,List.length_take]
    omega
  · rw [List.length_take]
    omega

theorem snapshot_add (h : RingBuffer α) (r : α) :
    (h.add r).snapshot = newest h.size (h.snapshot ++ [r]) := by
  have hbound := h.bound
  have hset : h.buf.set h.head r = h.buf.take h.head ++ r :: h.buf.drop (h.head+1) :=
    List.set_eq_take_append_cons_drop.trans (if_pos hbound)
  have htake : (h.buf.take h.head).length = h.head := by
    rw [List.length_take]
    omega
  rw [newest,List.length_append,length_snapshot,List.length_singleton]
  -- The head either moves on by one slot or starts again.
  rcases Nat.lt_or_ge (h.head+1) h.buf.length with hnext | hlast
  · have hmod : (h.head+1) % h.buf.length = h.head+1 := Nat.mod_eq_of_lt hnext
    have hfirst : (h.buf.set h.head r).take (h.head+1) = h.buf.take h.head ++ [r] := by
      simp [hset,List.take_append,htake]
    have hrest : (h.buf.set h.head r).drop (h.head+1) = h.buf.drop (h.head+1) := by
      rw [List.drop_set_of_lt (Nat.lt_succ_self _)]
    cases hfull : h.full with
    | false =>
      have hzero : h.head+1-h.size = 0 := by
        unfold size
        omega
      simp [snapshot,add,hfull,hmod,hfirst,hzero]
    | true =>
      have hone : h.size+1-h.size = 1 := by omega
      simp only [snapshot,add,hfull,hmod,hfirst,hrest,hone,Bool.true_or,if_true]
      rw [List.append_assoc,List.drop_append_of_le_length (by rw [List.length_drop]; omega),
        List.drop_drop]
  · have hsize : h.head+1 = h.buf.length := by omega
    have hmod : (h.head+1) % h.buf.length = 0 := by rw [hsize,Nat.mod_self]
    have hall : h.buf.set h.head r = h.buf.take h.head ++ [r] := by
      rw [hset,List.drop_eq_nil_of_le (by omega)]
    cases hfull : h.full with
    | false =>
      have hzero : h.head+1-h.size = 0 := by
        unfold size
        omega
      simp [snapshot,add,hfull,hmod,hall,hzero]
    | true =>
      have hone : h.size+1-h.size = 1 := by omega
      simp only [snapshot,add,hfull,hmod,hall,hone,Bool.true_or,if_true,List.drop_zero,
        List.take_zero,List.append_nil]
      rw [List.append_assoc,List.drop_append_of_le_length (by rw [List.length_drop]; omega),
        List.drop_drop,List.drop_eq_nil_of_le (by omega),List.nil_append]

def addAll (h : RingBuffer α) (rs : List α) : RingBuffer α := rs.foldl add h

@[simp] theorem size_addAll (h : RingBuffer α) (rs : List α) : (h.addAll rs).size = h.size := by
  induction rs generalizing h with
  | nil => rfl
  | cons r rs ih => exact (ih (h.add r)).trans (h.size_add r)

theorem snapshot_length_le (h : RingBuffer α) : h.snapshot.length ≤ h.size := by
  have hbound := h.bound
  rw [length_snapshot]
  split_ifs
  · exact le_rfl
  · exact hbound.le

/-- What is left is the end of all entries. -/
theorem snapshot_addAll (h : RingBuffer α) (rs : List α) :
    (h.addAll rs).snapshot = newest h.size (h.snapshot ++ rs) := by
  induction rs generalizing h with
  | nil =>
    rw [List.append_nil,newest_of_le h.snapshot_length_le]
    rfl
  | cons r rs ih =>
    calc (h.addAll (r :: rs)).snapshot = ((h.add r).addAll rs).snapshot := rfl
      _ = newest h.size (newest h.size (h.snapshot ++ [r]) ++ rs) := by
        rw [ih,size_add,snapshot_add]
      _ = newest h.size (h.snapshot ++ r :: rs) := by
        rw [newest_append_newest,List.append_assoc,List.singleton_append]

def Holds (h : RingBuffer α) (log : List α) : Prop := h.snapshot = newest h.size log

theorem holds_new (size : ℕ) (hsize : 0 < size) (blank : α) : (new size hsize blank).Holds [] := by
  simp [Holds,newest]

theorem Holds.addAll {h : RingBuffer α} {log : List α} (hlog : h.Holds log) (rs : List α) :
    (h.addAll rs).Holds (log ++ rs) := by
  rw [Holds,size_addAll,snapshot_addAll,hlog,newest_append_newest]

end RingBuffer
end ChainKit.Lib
