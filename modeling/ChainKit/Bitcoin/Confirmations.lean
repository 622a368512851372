import ChainKit.Bitcoin.Fetchers

/-! The confirmations of transactions and of unspent outputs. -/
namespace ChainKit.Bitcoin
open Lib
variable {WIF Address : Type} {b : Btcd WIF Address}

structure TxConfirmationStatus where
  confirmed : Bool
  confirmations : Int64
  blockHeight : Int64
  blockHash : Bytes
  deriving DecidableEq

structure ApiStatus where
  confirmed : Bool
  blockHeight : Int64
  blockHash : Bytes

/-- How the request for a transaction ends at mempool.space. -/
inductive Mempool.TxReply
  | noRequest (e : GoError)
  | noResponse (e : GoError)
  | status (statusCode : ℕ)
  | noBody (e : GoError)
  | malformed (e : GoError)
  | tx (status : ApiStatus)

/-- `mempoolProvider.GetTxStatus`; `status` is any status code but 200. -/
def Mempool.getTxStatus (tip : Except GoError Int64) :
    Mempool.TxReply → Except GoError TxConfirmationStatus
  | .noRequest e => .error (requestError "failed to create request" (some e))
  | .noResponse e => .error (requestError "failed to fetch transaction" (some e))
  | .status statusCode =>
    if statusCode = 404 then .error (requestError "transaction not found" none)
    else .error (requestError ("unexpected status code: " ++ toString statusCode) none)
  | .noBody e => .error (requestError "failed to read response body" (some e))
  | .malformed e => .error (requestError "failed to decode response" (some e))
  | .tx s => .ok ⟨s.confirmed,confirmations tip s.confirmed s.blockHeight,s.blockHeight,s.blockHash⟩

/-- The confirmations that blockstream.info computes: a tip that is not known, or a block right
above it, counts as one confirmation. -/
def Blockstream.confirmations (tip : Option Int64) (confirmed : Bool) (blockHeight : Int64) :
    Int64 :=
  if confirmed ∧ blockHeight > 0 then
    let depth := match tip with
      | some tipHeight => if tipHeight > 0 then tipHeight-blockHeight+1 else 0
      | none => 0
    if depth = 0 then 1 else depth
  else 0

inductive Blockstream.StatusReply
  | failed (e : GoError)
  | malformed (e : GoError)
  | status (status : ApiStatus)

/-- `blockstream.GetTxStatus`. The tip is missing if it cannot be fetched or read. -/
def Blockstream.getTxStatus (text : Bytes → String) (txID : Bytes) (tip : Option Int64) :
    Blockstream.StatusReply → Except GoError TxConfirmationStatus
  | .failed e => .error (.wrap ("fetch tx status " ++ text txID ++ ": ") e "")
  | .malformed e => .error (.wrap "parse tx status response: " e "")
  | .status s =>
    .ok ⟨s.confirmed,confirmations tip s.confirmed s.blockHeight,s.blockHeight,s.blockHash⟩

inductive Tatum.TxReply
  | failed (e : GoError)
  | malformed (e : GoError)
  | tx (confirmations : Option Int64) (blockHash : Option Bytes) (blockHeight : Option Int64)

def Tatum.getTxStatus (text : Bytes → String) (txID : Bytes) :
    Tatum.TxReply → Except GoError TxConfirmationStatus
  | .failed e => .error (.wrap ("fetch tx status " ++ text txID ++ ": ") e "")
  | .malformed e => .error (.wrap "parse tx status response: " e "")
  | .tx confirmations blockHash blockHeight =>
    match confirmations with
    | none => .ok ⟨false,0,0,[]⟩
    | some n =>
      if n = 0 then .ok ⟨false,0,0,[]⟩
      else .ok ⟨true,n,blockHeight.getD 0,blockHash.getD []⟩

/-- Confirmed means at least one confirmation, and there are never less than none. -/
structure ConfirmedMeans (confirmed : Bool) (confirmations : Int64) : Prop where
  iff : confirmed = true ↔ 1 ≤ confirmations
  nonneg : 0 ≤ confirmations

theorem confirmedMeans_toInt {confirmed : Bool} {n : Int64} :
    ConfirmedMeans confirmed n ↔ (confirmed = true ↔ 1 ≤ n.toInt) ∧ 0 ≤ n.toInt := by
  constructor
  · rintro ⟨hiff,hnonneg⟩
    rw [Int64.le_iff_toInt_le] at hiff hnonneg
    exact ⟨hiff,hnonneg⟩
  · rintro ⟨hiff,hnonneg⟩
    exact ⟨by rw [Int64.le_iff_toInt_le]; exact hiff,Int64.le_iff_toInt_le.mpr hnonneg⟩

theorem toInt_depth {tip height : Int64} (htip : 0 < tip.toInt) (hheight : 0 < height.toInt) :
    (tip-height+1).toInt = tip.toInt-height.toInt+1 := by
  have htop := tip.toInt_lt
  have htop' := height.toInt_lt
  have hsub : (tip-height).toInt = tip.toInt-height.toInt := by
    rw [Int64.toInt_sub]
    exact Int.bmod_eq_of_le (by omega) (by omega)
  rw [Int64.toInt_add,hsub,Int64.toInt_one]
  exact Int.bmod_eq_of_le (by omega) (by omega)

theorem pos_iff_toInt {n : Int64} : n > 0 ↔ 0 < n.toInt := Int64.lt_iff_toInt_lt

/-- A tip that is known is at most `slack` below the block. -/
def NotBehind (tip : Option Int64) (height slack : ℤ) : Prop :=
  ∀ tipHeight ∈ tip, 0 < tipHeight.toInt → height ≤ tipHeight.toInt+slack

theorem notBehind_none (height slack : ℤ) : NotBehind none height slack := by
  intro tipHeight h
  cases h

theorem notBehind_some {tipHeight : Int64} {height slack : ℤ} :
    NotBehind (some tipHeight) height slack ↔
      (0 < tipHeight.toInt → height ≤ tipHeight.toInt+slack) := by
  simp [NotBehind]

theorem Mempool.confirmedMeans_iff {tip : Except GoError Int64} {confirmed : Bool}
    {height : Int64} : ConfirmedMeans confirmed (Mempool.confirmations tip confirmed height) ↔
      (confirmed = true → 0 < height.toInt ∧ NotBehind tip.toOption height.toInt 0) := by
  rw [confirmedMeans_toInt]
  unfold Mempool.confirmations
  cases confirmed with
  | false => simp
  | true =>
    simp only [true_and,true_iff,forall_const,pos_iff_toInt]
    split_ifs with hheight
    · cases tip with
      | error e => simp [hheight,notBehind_none,Except.toOption]
      | ok tipHeight =>
        simp only [Except.toOption,notBehind_some]
        split_ifs with htip
        · rw [toInt_depth htip hheight]
          omega
        · simp [hheight,htip]
    · simp [hheight]

theorem Blockstream.confirmedMeans_iff {tip : Option Int64} {confirmed : Bool}
    {height : Int64} :
    ConfirmedMeans confirmed (Blockstream.confirmations tip confirmed height) ↔
      (confirmed = true → 0 < height.toInt ∧ NotBehind tip height.toInt 1) := by
  rw [confirmedMeans_toInt]
  unfold Blockstream.confirmations
  cases confirmed with
  | false => simp
  | true =>
    simp only [true_and,true_iff,forall_const,pos_iff_toInt,← Int64.toInt_inj,Int64.toInt_zero]
    split_ifs with hheight hdepth
    · cases tip with
      | none => simp [hheight,notBehind_none]
      | some tipHeight =>
        simp only [notBehind_some] at hdepth ⊢
        split_ifs at hdepth with htip
        · rw [toInt_depth htip hheight] at hdepth
          rw [Int64.toInt_one]
          omega
        · simp [hheight,htip]
    · cases tip with
      | none => simp at hdepth
      | some tipHeight =>
        simp only [notBehind_some] at hdepth ⊢
        split_ifs at hdepth ⊢ with htip
        · rw [toInt_depth htip hheight] at hdepth ⊢
          omega
        · simp at hdepth
    · simp [hheight]

theorem Tatum.confirmedMeans_iff {text : Bytes → String} {txID : Bytes}
    {confirmations : Option Int64} {blockHash : Option Bytes} {blockHeight : Option Int64}
    {status : TxConfirmationStatus}
    (h : Tatum.getTxStatus text txID (.tx confirmations blockHash blockHeight) = .ok status) :
    ConfirmedMeans status.confirmed status.confirmations ↔ ∀ n ∈ confirmations, 0 ≤ n.toInt := by
  rw [confirmedMeans_toInt]
  simp only [Tatum.getTxStatus] at h
  cases confirmations with
  | none =>
    cases h
    simp
  | some n =>
    simp only [← Int64.toInt_inj,Int64.toInt_zero] at h
    split_ifs at h with hzero
    · cases h
      simp [hzero]
    · cases h
      simp only [true_iff,Option.mem_def,Option.some.injEq,forall_eq']
      omega

/-- Confirmed means at least one confirmation exactly when every confirmed entry has a height
above zero and the tip, where it is known, is not behind it. blockstream.info allows it to be one
behind, and Tatum is right unless the count that it passes on is negative. -/
theorem confirmed_iff_confirmations (b : Btcd WIF Address) (network : BitcoinNetwork)
    (address : Bytes) :
    (∀ tip apiUTXOs utxos,
      Mempool.getUTXOs b network address tip (.body (.ok apiUTXOs)) = .ok utxos →
      ((∀ u ∈ utxos, ConfirmedMeans u.confirmed u.confirmations) ↔
        ∀ u ∈ apiUTXOs, u.confirmed = true →
          0 < u.blockHeight.toInt ∧ NotBehind tip.toOption u.blockHeight.toInt 0)) ∧
    (∀ tip s status, Mempool.getTxStatus tip (.tx s) = .ok status →
      (ConfirmedMeans status.confirmed status.confirmations ↔
        (s.confirmed = true →
          0 < s.blockHeight.toInt ∧ NotBehind tip.toOption s.blockHeight.toInt 0))) ∧
    (∀ text txID tip s status, Blockstream.getTxStatus text txID tip (.status s) = .ok status →
      (ConfirmedMeans status.confirmed status.confirmations ↔
        (s.confirmed = true → 0 < s.blockHeight.toInt ∧ NotBehind tip s.blockHeight.toInt 1))) ∧
    ∀ text txID confirmations blockHash blockHeight status,
      Tatum.getTxStatus text txID (.tx confirmations blockHash blockHeight) = .ok status →
      (ConfirmedMeans status.confirmed status.confirmations ↔
        ∀ n ∈ confirmations, 0 ≤ n.toInt) := by
  refine ⟨?_,?_,?_,?_⟩
  · intro tip apiUTXOs utxos h
    simp only [Mempool.getUTXOs,bind_eq_ok,mapError_eq_ok,Except.ok.injEq] at h
    obtain ⟨scriptPubKey,_,_,rfl,rfl⟩ := h
    rw [List.forall_mem_map]
    refine forall₂_congr fun u _ => ?_
    rw [Mempool.confirmedMeans_iff,Int32.toInt_toInt64]
  · intro tip s status h
    cases h
    exact Mempool.confirmedMeans_iff
  · intro text txID tip s status h
    cases h
    exact Blockstream.confirmedMeans_iff
  · intro text txID confirmations blockHash blockHeight status h
    exact Tatum.confirmedMeans_iff h

theorem confirmed_at_depth :
    Mempool.getTxStatus (.ok 800010) (.tx ⟨true,800000,[]⟩) = .ok ⟨true,11,800000,[]⟩ ∧
      ConfirmedMeans true 11 := by
  have hstatus : Mempool.getTxStatus (.ok 800010) (.tx ⟨true,800000,[]⟩) =
      .ok ⟨true,11,800000,[]⟩ := by
    decide
  refine ⟨hstatus,((confirmed_iff_confirmations keyOne .mainnet []).2.1 _ _ _ hstatus).mpr ?_⟩
  intro _
  exact ⟨by decide,notBehind_some.mpr (by decide)⟩

/-- A tip that lags two blocks behind gives what is confirmed minus one confirmation at both
providers, Tatum passes a negative count on, and the first block has no confirmation. -/
theorem confirmed_without_confirmations :
    ((Mempool.getUTXOs keyOne .mainnet segwitAddress (.ok 799998)
      (.body (.ok [⟨legacyOutput.txHash,0,true,800000,100000⟩]))).toOption.map
        (·.map fun u => (u.confirmed,u.confirmations))) = some [(true,-1)] ∧
    Mempool.getTxStatus (.ok 799998) (.tx ⟨true,800000,[]⟩) = .ok ⟨true,-1,800000,[]⟩ ∧
    Blockstream.getTxStatus (fun _ => "") [] (some 799998) (.status ⟨true,800000,[]⟩) =
      .ok ⟨true,-1,800000,[]⟩ ∧
    Tatum.getTxStatus (fun _ => "") [] (.tx (some (-1)) none none) = .ok ⟨true,-1,0,[]⟩ ∧
    Mempool.getTxStatus (.ok 800000) (.tx ⟨true,0,[]⟩) = .ok ⟨true,0,0,[]⟩ := by
  decide +kernel

end ChainKit.Bitcoin
