import ChainKit.Bitcoin.Tx

/-! The balance of an address, as mempool.space computes it from sums and blockstream.info from
the unspent outputs. -/
namespace ChainKit.Bitcoin
open Lib

structure Balance where
  confirmed : UInt64
  unconfirmed : UInt64
  total : UInt64
  deriving DecidableEq

/-- `RequestError`, which does not unwrap to the error that it shows. -/
def requestError (message : String) (err : Option GoError) : GoError :=
  match err with
  | some e => .plain ("request error: " ++ message ++ ": " ++ e.error)
  | none => .plain ("request error: " ++ message)

structure TxoStats where
  fundedTxoSum : Int64
  spentTxoSum : Int64

/-- How the request for an address ends at mempool.space. -/
inductive AddressReply
  | noRequest (e : GoError)
  | noResponse (e : GoError)
  | status (statusCode : ℕ) (body : String)
  | malformed (e : GoError)
  | stats (chainStats mempoolStats : TxoStats)

def clamp (x : Int64) : Int64 := if x < 0 then 0 else x

/-- `mempoolProvider.GetBalance`; `status` is any status code but 200. -/
def Mempool.getBalance : AddressReply → Except GoError Balance
  | .noRequest e => .error (requestError "failed to create request" (some e))
  | .noResponse e => .error (requestError "failed to fetch balance" (some e))
  | .status statusCode body =>
    .error (requestError ("HTTP " ++ toString statusCode ++ ": " ++ body) none)
  | .malformed e => .error (requestError "failed to decode response" (some e))
  | .stats chainStats mempoolStats =>
    let confirmed := clamp (chainStats.fundedTxoSum-chainStats.spentTxoSum)
    let unconfirmed := clamp (mempoolStats.fundedTxoSum-mempoolStats.spentTxoSum)
    .ok ⟨confirmed.toUInt64,unconfirmed.toUInt64,(confirmed+unconfirmed).toUInt64⟩

/-- The loop that `CalculateBalanceFromUTXOs` and the provider of blockstream.info share. -/
def addUTXOs : UInt64 × UInt64 → List UTXO → UInt64 × UInt64
  | sums,[] => sums
  | (confirmed,unconfirmed),utxo :: rest =>
    if utxo.confirmed then addUTXOs (confirmed+utxo.amount.toUInt64,unconfirmed) rest
    else addUTXOs (confirmed,unconfirmed+utxo.amount.toUInt64) rest

def calculateBalanceFromUTXOs (utxos : List UTXO) : Balance :=
  let (confirmed,unconfirmed) := addUTXOs (0,0) utxos
  ⟨confirmed,unconfirmed,confirmed+unconfirmed⟩

structure UtxoResponse where
  txID : Bytes
  vout : UInt32
  value : UInt64
  confirmed : Bool

/-- How the request for the unspent outputs ends at blockstream.info. -/
inductive UtxoReply
  | failed (e : GoError)
  | malformed (e : GoError)
  | utxos (responses : List UtxoResponse)

/-- `blockstream.GetUTXOs`, with `text` for the address in an error. -/
def Blockstream.getUTXOs (text : Bytes → String) (address : Bytes) :
    UtxoReply → Except GoError (List UTXO)
  | .failed e => .error (.wrap ("fetch UTXOs for " ++ text address ++ ": ") e "")
  | .malformed e => .error (.wrap "parse UTXO response: " e "")
  | .utxos responses => .ok <| responses.map fun u =>
    ⟨u.txID,u.vout,u.value.toInt64,none,address,u.confirmed⟩

def Blockstream.getBalance (text : Bytes → String) (address : Bytes) (reply : UtxoReply) :
    Except GoError Balance := do
  let utxos ← (Blockstream.getUTXOs text address reply).mapError
    (.wrap "failed to fetch UTXOs: " · "")
  .ok (calculateBalanceFromUTXOs utxos)

inductive Place
  | block
  | mempool
  deriving DecidableEq

/-- An output to the address, with the transaction that spends it. -/
structure AddressOutput where
  txID : Bytes
  vout : UInt32
  value : ℕ
  funded : Place
  spent : Option Place

/-- Everything that has ever been paid to an address. -/
abbrev AddressHistory := List AddressOutput

namespace AddressHistory

def fundedIn (h : AddressHistory) (p : Place) : ℕ :=
  (h.map fun o => if o.funded = p then o.value else 0).sum

def spentIn (h : AddressHistory) (p : Place) : ℕ :=
  (h.map fun o => if o.spent = some p then o.value else 0).sum

def unspentIn (h : AddressHistory) (p : Place) : ℕ :=
  (h.map fun o => if o.spent = none ∧ o.funded = p then o.value else 0).sum

def unspent (h : AddressHistory) : ℕ :=
  (h.map fun o => if o.spent = none then o.value else 0).sum

def stats (h : AddressHistory) (p : Place) : TxoStats :=
  ⟨Int64.ofNat (h.fundedIn p),Int64.ofNat (h.spentIn p)⟩

def addressReply (h : AddressHistory) : AddressReply := .stats (h.stats .block) (h.stats .mempool)

def listing (h : AddressHistory) : List UtxoResponse :=
  (h.filter (·.spent = none)).map fun o =>
    ⟨o.txID,o.vout,UInt64.ofNat o.value,o.funded = .block⟩

def utxoReply (h : AddressHistory) : UtxoReply := .utxos h.listing

/-- No sum overflows a signed 64-bit integer. -/
structure Fits (h : AddressHistory) : Prop where
  funded : ∀ p, h.fundedIn p < 2^63
  spent : ∀ p, h.spentIn p < 2^63
  unspent : h.unspent < 2^63

theorem funded_eq (h : AddressHistory) : h.fundedIn .block + h.fundedIn .mempool =
    h.unspent + h.spentIn .block + h.spentIn .mempool := by
  induction h with
  | nil => rfl
  | cons o h ih =>
    simp only [fundedIn,unspent,spentIn,List.map_cons,List.sum_cons] at ih ⊢
    rcases o with ⟨_,_,value,funded,spent⟩
    rcases funded with _ | _ <;> rcases spent with _ | _ | _ <;> simp at ih ⊢ <;> omega

theorem unspent_eq (h : AddressHistory) :
    h.unspent = h.unspentIn .block + h.unspentIn .mempool := by
  induction h with
  | nil => rfl
  | cons o h ih =>
    simp only [unspent,unspentIn,List.map_cons,List.sum_cons] at ih ⊢
    rcases o with ⟨_,_,value,funded,spent⟩
    rcases funded with _ | _ <;> rcases spent with _ | _ <;> simp at ih ⊢ <;> omega

end AddressHistory

theorem toInt_sub_ofNat {x y : ℕ} (hx : x < 2^63) (hy : y < 2^63) :
    (Int64.ofNat x-Int64.ofNat y).toInt = x-y := by
  rw [Int64.toInt_sub,Int64.toInt_ofNat_of_lt hx,Int64.toInt_ofNat_of_lt hy]
  exact Int.bmod_eq_of_le (by omega) (by omega)

theorem toInt_clamp (x : Int64) : (clamp x).toInt = max 0 x.toInt := by
  unfold clamp
  split_ifs with h
  · rw [Int64.lt_iff_toInt_lt] at h
    simp only [Int64.toInt_zero] at h ⊢
    omega
  · rw [Int64.lt_iff_toInt_lt] at h
    simp only [Int64.toInt_zero] at h
    omega

theorem toNat_toUInt64 {x : Int64} (h : 0 ≤ x.toInt) : x.toUInt64.toNat = x.toInt.toNat := by
  rw [Int64.toNat_toUInt64_of_le (Int64.le_iff_toInt_le.mpr h)]
  rfl

def Reports (answer : Except GoError Balance) (total : ℕ) : Prop :=
  ∃ balance, answer = .ok balance ∧ balance.total.toNat = total

/-- The total of mempool.space is the sum of two differences, each cut off at zero. -/
theorem mempool_reports (h : AddressHistory) (hfits : h.Fits) :
    Reports (Mempool.getBalance h.addressReply)
      ((h.fundedIn .block-h.spentIn .block) + (h.fundedIn .mempool-h.spentIn .mempool)) := by
  refine ⟨_,rfl,?_⟩
  have hblock := toInt_sub_ofNat (hfits.funded .block) (hfits.spent .block)
  have hmempool := toInt_sub_ofNat (hfits.funded .mempool) (hfits.spent .mempool)
  have hbounds := hfits.funded .block
  have hbounds' := hfits.funded .mempool
  have hunspent := hfits.unspent
  have hsum := h.funded_eq
  set confirmed := Int64.ofNat (h.fundedIn .block)-Int64.ofNat (h.spentIn .block)
  set unconfirmed := Int64.ofNat (h.fundedIn .mempool)-Int64.ofNat (h.spentIn .mempool)
  have htotal : (clamp confirmed+clamp unconfirmed).toInt =
      max 0 confirmed.toInt + max 0 unconfirmed.toInt := by
    rw [Int64.toInt_add,toInt_clamp,toInt_clamp]
    exact Int.bmod_eq_of_le (by omega) (by omega)
  change (clamp confirmed+clamp unconfirmed).toUInt64.toNat = _
  rw [toNat_toUInt64 (by omega),htotal]
  omega

theorem addUTXOs_listing (address : Bytes) (h : AddressHistory) (a b : ℕ) :
    addUTXOs (UInt64.ofNat a,UInt64.ofNat b)
        (h.listing.map fun u => ⟨u.txID,u.vout,u.value.toInt64,none,address,u.confirmed⟩) =
      (UInt64.ofNat (a+h.unspentIn .block),UInt64.ofNat (b+h.unspentIn .mempool)) := by
  induction h generalizing a b with
  | nil => rfl
  | cons o h ih =>
    rcases o with ⟨txID,vout,value,funded,spent⟩
    cases spent with
    | some p => simpa [AddressHistory.unspentIn,AddressHistory.listing] using ih a b
    | none =>
      cases funded with
      | block =>
        have hrest := ih (a+value) b
        simp only [AddressHistory.unspentIn,AddressHistory.listing] at hrest ⊢
        simpa [addUTXOs,UInt64.ofNat_add,add_assoc] using hrest
      | mempool =>
        have hrest := ih a (b+value)
        simp only [AddressHistory.unspentIn,AddressHistory.listing] at hrest ⊢
        simpa [addUTXOs,UInt64.ofNat_add,add_assoc] using hrest

/-- blockstream.info always reports what is unspent. -/
theorem blockstream_reports (text : Bytes → String) (address : Bytes) (h : AddressHistory)
    (hfits : h.Fits) :
    Reports (Blockstream.getBalance text address h.utxoReply) h.unspent := by
  have hsums := addUTXOs_listing address h 0 0
  refine ⟨_,rfl,?_⟩
  rw [calculateBalanceFromUTXOs,show ((0,0) : UInt64 × UInt64) =
    (UInt64.ofNat 0,UInt64.ofNat 0) from rfl,hsums]
  change (UInt64.ofNat _+UInt64.ofNat _).toNat = h.unspent
  rw [← UInt64.ofNat_add,Nat.zero_add,Nat.zero_add,← h.unspent_eq]
  exact UInt64.toNat_ofNat_of_lt' (hfits.unspent.trans (by decide))

/-- Both providers report what is unspent exactly when no difference is cut off: nothing is
spent from the mempool, or from a block, beyond what was funded there. -/
theorem totals_agree_iff (text : Bytes → String) (address : Bytes) (h : AddressHistory)
    (hfits : h.Fits) :
    Reports (Mempool.getBalance h.addressReply) h.unspent ∧
      Reports (Blockstream.getBalance text address h.utxoReply) h.unspent ↔
    h.spentIn .block ≤ h.fundedIn .block ∧ h.spentIn .mempool ≤ h.fundedIn .mempool := by
  rw [and_iff_left (blockstream_reports text address h hfits)]
  obtain ⟨balance,hbalance,htotal⟩ := mempool_reports h hfits
  have hsum := h.funded_eq
  constructor
  · rintro ⟨balance',hbalance',htotal'⟩
    rw [hbalance] at hbalance'
    cases hbalance'
    omega
  · intro hspent
    exact ⟨balance,hbalance,by omega⟩

/-- An output of 100 satoshi, one of 40 that is spent in a block and one of 7 in the mempool. -/
def settledHistory : AddressHistory :=
  [⟨[],0,100,.block,none⟩,⟨[],1,40,.block,some .block⟩,⟨[],2,7,.mempool,none⟩]

theorem totals_agree_settled :
    Reports (Mempool.getBalance settledHistory.addressReply) 107 ∧
      Reports (Blockstream.getBalance (fun _ => "") [] settledHistory.utxoReply) 107 := by
  have hfits : settledHistory.Fits :=
    ⟨fun p => by cases p <;> decide,fun p => by cases p <;> decide,by decide⟩
  exact (totals_agree_iff (fun _ => "") [] settledHistory hfits).mpr (by decide)

/-- A confirmed output of 100 satoshi that a transaction in the mempool spends. -/
def pendingSpend : AddressHistory := [⟨[],0,100,.block,some .mempool⟩]

/-- The spend in the mempool is cut off: one provider still reports the spent output. -/
theorem totals_differ_pending :
    Reports (Mempool.getBalance pendingSpend.addressReply) 100 ∧
      Reports (Blockstream.getBalance (fun _ => "") [] pendingSpend.utxoReply) 0 ∧
      pendingSpend.unspent = 0 :=
  ⟨⟨_,rfl,by decide⟩,⟨_,rfl,by decide⟩,by decide⟩

end ChainKit.Bitcoin
