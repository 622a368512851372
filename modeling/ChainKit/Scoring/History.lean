import ChainKit.Lib.RingBuffer
import ChainKit.Config

/-! The penalties that a score remembers: a ring of records in memory, read from the newest to
the oldest. -/
namespace ChainKit
open Lib

inductive PenaltyCategory
  | health
  | rateLimit
  | error
  | latency
  deriving DecidableEq, Repr

/-- What a penalty is about. A missing map of metadata reads like an empty one. -/
structure Penalty where
  category : PenaltyCategory
  reason : String
  amount : ℚ
  metadata : String → Option String := fun _ => none

/-- The penalties are numbered as they are recorded, so that the entry of the ring and the row of
the store are known to be the same penalty. The source has no such number. -/
structure Recorded extends Penalty where
  serial : ℕ

/-- `PenaltyRecord`. The factor is filled in when the record is read. -/
structure PenaltyRecord where
  timestamp : ℤ
  penalty : Recorded
  decayFactor : ℚ := 0

abbrev PenaltyHistory := RingBuffer PenaltyRecord

def defaultPenaltyHistorySize : ℕ := 50

/-- The number of records that a history of the given size keeps. -/
def historyCapacity (size : ℤ) : ℕ := if size ≤ 0 then defaultPenaltyHistorySize else size.toNat

theorem historyCapacity_pos (size : ℤ) : 0 < historyCapacity size := by
  unfold historyCapacity
  split_ifs with h
  · decide
  · omega

def blankRecord : PenaltyRecord where
  timestamp := 0
  penalty := ⟨⟨.health,"",0,fun _ => none⟩,0⟩

def newPenaltyHistory (size : ℤ) : PenaltyHistory :=
  .new (historyCapacity size) (historyCapacity_pos size) blankRecord

@[simp] theorem snapshot_newPenaltyHistory (size : ℤ) : (newPenaltyHistory size).snapshot = [] :=
  RingBuffer.snapshot_new (historyCapacity size) (historyCapacity_pos size) blankRecord

/-- `computeDecayFactor`, where `pow` is `math.Pow`. -/
def computeDecayFactor (pow : ℚ → ℚ → ℚ) (now ts : ℤ) (decayRate : ℚ) (decayInterval : ℤ) : ℚ :=
  if decayInterval ≤ 0 ∨ decayRate ≤ 0 then 1
  else if now-ts ≤ 0 then 1
  else
    let f := pow (1-decayRate) ((now-ts : ℤ)/decayInterval)
    if f < 0 then 0 else if 1 < f then 1 else f

/-- What a query of the history asks for; the zero time and no category ask for everything. -/
structure HistoryQuery where
  limit : ℤ
  since : ℤ
  category : Option PenaltyCategory

namespace HistoryQuery

def defaultLimit : ℕ := 50
def maxLimit : ℕ := 200

def count (q : HistoryQuery) : ℕ :=
  min (if q.limit ≤ 0 then defaultLimit else q.limit.toNat) maxLimit

def passes (q : HistoryQuery) (r : PenaltyRecord) : Bool :=
  (q.since = 0 || q.since ≤ r.timestamp) && (q.category.all (· = r.penalty.category))

/-- The loop of `GetPenaltyHistory` over the records that are left. -/
def collect (q : HistoryQuery) (factor : ℤ → ℚ) :
    List PenaltyRecord → List PenaltyRecord → List PenaltyRecord
  | out,[] => out
  | out,r :: rest =>
    if q.count ≤ out.length then out
    else if q.passes r then
      q.collect factor (out ++ [{ r with decayFactor := factor r.timestamp }]) rest
    else q.collect factor out rest

/-- The record with the factor that is filled in when it is read. -/
def filled (factor : ℤ → ℚ) (r : PenaltyRecord) : PenaltyRecord :=
  { r with decayFactor := factor r.timestamp }

/-- The loop takes the first records that pass, as many as there is room for. -/
theorem collect_eq (q : HistoryQuery) (factor : ℤ → ℚ) (out l : List PenaltyRecord) :
    q.collect factor out l =
      out ++ ((l.filter q.passes).take (q.count-out.length)).map (filled factor) := by
  induction l generalizing out with
  | nil => simp [collect]
  | cons r rest ih =>
    unfold collect
    split_ifs with hfull hpasses
    · rw [Nat.sub_eq_zero_of_le hfull]
      simp
    · have hroom : q.count-out.length = q.count-(out.length+1)+1 := by omega
      rw [ih,List.filter_cons_of_pos hpasses,hroom]
      simp [filled]
    · rw [ih,List.filter_cons_of_neg hpasses]

theorem collect_sublist (q : HistoryQuery) (factor : ℤ → ℚ) (out l : List PenaltyRecord) :
    ∃ l' : List PenaltyRecord, l'.Sublist l ∧ q.collect factor out l =
      out ++ l'.map fun r => { r with decayFactor := factor r.timestamp } :=
  ⟨_,(List.take_sublist _ _).trans List.filter_sublist,q.collect_eq factor out l⟩

end HistoryQuery
end ChainKit
