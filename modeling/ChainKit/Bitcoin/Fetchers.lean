import ChainKit.Bitcoin.Balance
import ChainKit.Bitcoin.TxId

/-! The unspent outputs as three providers return them, and the script that the signer finds in
each of them. -/
namespace ChainKit.Bitcoin
open Lib
variable {WIF Address : Type} {b : Btcd WIF Address}

/-- A `UTXO` with the fields that the signer does not read. -/
structure FetchedUTXO extends UTXO where
  confirmations : Int64
  spendable : Bool
  blockHeight : Int32
  deriving DecidableEq

namespace Mempool

structure ApiUTXO where
  txID : Bytes
  vout : UInt32
  confirmed : Bool
  blockHeight : Int32
  value : Int64

/-- How the request for the unspent outputs ends at mempool.space. A body is decoded after the
address. -/
inductive UtxoReply
  | noRequest (e : GoError)
  | noResponse (e : GoError)
  | status (statusCode : ℕ) (body : String)
  | body (decoded : Except GoError (List ApiUTXO))

/-- The confirmations of a transaction, from the height of its block and that of the tip, which
may not be known. -/
def confirmations (tip : Except GoError Int64) (confirmed : Bool) (blockHeight : Int64) : Int64 :=
  if confirmed ∧ blockHeight > 0 then
    match tip with
    | .ok tipHeight => if tipHeight > 0 then tipHeight-blockHeight+1 else 1
    | .error _ => 1
  else 0

def addressToScriptPubKey (b : Btcd WIF Address) (network : BitcoinNetwork) (address : Bytes) :
    Except GoError Bytes := do
  let params ← network.chaincfgNetwork.mapError (.wrap "failed to get network params: " · "")
  payToAddress b (.wrap "failed to decode address: " · "")
    (.wrap "failed to generate script: " · "") address params

/-- `mempoolProvider.GetUTXOs`; `status` is any status code but 200. -/
def getUTXOs (b : Btcd WIF Address) (network : BitcoinNetwork) (address : Bytes)
    (tip : Except GoError Int64) : UtxoReply → Except GoError (List FetchedUTXO)
  | .noRequest e => .error (requestError "failed to create request" (some e))
  | .noResponse e => .error (requestError "failed to fetch UTXOs" (some e))
  | .status statusCode body =>
    .error (requestError ("HTTP " ++ toString statusCode ++ ": " ++ body) none)
  | .body decoded => do
    let scriptPubKey ← (addressToScriptPubKey b network address).mapError
      (requestError "failed to decode address" <| some ·)
    let apiUTXOs ← decoded.mapError (requestError "failed to decode response" <| some ·)
    .ok <| apiUTXOs.map fun u =>
      { txHash := u.txID, vout := u.vout, amount := u.value, address := address,
        confirmed := u.confirmed,
        confirmations := confirmations tip u.confirmed u.blockHeight.toInt64,
        spendable := true, blockHeight := u.blockHeight, scriptPubKey := some scriptPubKey }

end Mempool

/-- `hex.DecodeString` without its error: the bytes in front of the first wrong digit. -/
def hexDecodeString : Bytes → Bytes
  | high :: low :: rest =>
    match fromHexChar high,fromHexChar low with
    | some h,some l => (16*h+l).toUInt8 :: hexDecodeString rest
    | _,_ => []
  | _ => []

theorem hexDecodeString_of_hexDecode {src bs : Bytes} (h : hexDecode src = some bs) :
    hexDecodeString src = bs := by
  induction src using hexDecode.induct generalizing bs with
  | case1 =>
    cases h
    rfl
  | case2 => cases h
  | case3 high low rest ih =>
    simp only [hexDecode,Option.bind_eq_bind,Option.bind_eq_some_iff,Option.some.injEq] at h
    obtain ⟨x,hx,y,hy,bs',hbs',rfl⟩ := h
    simp only [hexDecodeString,hx,hy,ih hbs']

namespace Blockcypher

/-- A row of the address endpoint, which stands for an input or for an output. -/
structure TXRef where
  txHash : Bytes
  txOutputN : ℤ
  value : ℤ
  spent : Bool
  confirmations : Int64
  script : Bytes

/-- The rows that the loop does not skip. -/
def TXRef.isUnspent (txRef : TXRef) : Bool := !(txRef.spent || txRef.txOutputN < 0)

/-- `blockcypher.GetUTXOs` on the rows of `GetAddr`. The script is never nil, since
`hex.DecodeString` returns a slice also for no digits. -/
def getUTXOs (text : Bytes → String) (address : Bytes) (reply : Except GoError (List TXRef)) :
    Except GoError (List FetchedUTXO) := do
  let txRefs ← reply.mapError (.wrap ("fetch address " ++ text address ++ ": ") · "")
  .ok <| (txRefs.filter (·.isUnspent)).map fun txRef =>
    { txHash := txRef.txHash, vout := UInt32.ofNat txRef.txOutputN.toNat,
      amount := Int64.ofInt txRef.value, confirmed := decide ((0 : Int64) < txRef.confirmations),
      confirmations := txRef.confirmations, scriptPubKey := some (hexDecodeString txRef.script),
      address := address, spendable := false, blockHeight := 0 }

end Blockcypher

/-- Inside `SignTransaction` an output gets this script. -/
def GetsScript (b : Btcd WIF Address) (params : Params) (script : Bytes) (u : UTXO) : Prop :=
  ∀ i, ∃ u', deriveScript b params i u = .ok u' ∧ u'.scriptPubKey = some script

theorem getsScript_of_some {params : Params} {script s : Bytes} {u : UTXO}
    (h : u.scriptPubKey = some s) : GetsScript b params script u ↔ s = script := by
  have hkeep (i : ℕ) : deriveScript b params i u = .ok u := by
    simp [deriveScript,h]
  constructor
  · intro hgets
    obtain ⟨u',hu',hscript⟩ := hgets 0
    rw [hkeep] at hu'
    cases hu'
    rw [h] at hscript
    exact Option.some.inj hscript
  · rintro rfl i
    exact ⟨u,hkeep i,h⟩

section
variable {params : Params} {address script : Bytes} {addr : Address}

theorem getsScript_of_none {u : UTXO} (h : u.scriptPubKey = none) (haddress : u.address ≠ [])
    (hdecode : b.decodeAddress u.address params = .ok addr)
    (hscript : b.payToAddrScript addr = .ok script) : GetsScript b params script u := by
  intro i
  refine ⟨{ u with scriptPubKey := some script },?_,rfl⟩
  rw [deriveScript,if_pos ⟨h,haddress⟩,bind_eq_ok]
  exact ⟨script,payToAddress_eq_ok.mpr ⟨addr,hdecode,hscript⟩,rfl⟩

theorem Mempool.getsScript {network : BitcoinNetwork} {tip : Except GoError Int64}
    {reply : Mempool.UtxoReply} {utxos : List FetchedUTXO}
    (hparams : network.chaincfgNetwork = .ok params)
    (hdecode : b.decodeAddress address params = .ok addr)
    (hscript : b.payToAddrScript addr = .ok script)
    (h : Mempool.getUTXOs b network address tip reply = .ok utxos) :
    ∀ u ∈ utxos, GetsScript b params script u.toUTXO := by
  unfold Mempool.getUTXOs at h
  split at h
  · cases h
  · cases h
  · cases h
  · simp only [bind_eq_ok,mapError_eq_ok,Mempool.addressToScriptPubKey,hparams,
      payToAddress_eq_ok,Except.ok.injEq] at h
    obtain ⟨_,⟨_,rfl,addr',haddr,hscript'⟩,apiUTXOs,_,rfl⟩ := h
    rw [hdecode] at haddr
    cases haddr
    rw [hscript] at hscript'
    cases hscript'
    intro u hu
    obtain ⟨entry,_,rfl⟩ := List.mem_map.mp hu
    exact (getsScript_of_some rfl).mpr rfl

theorem Blockstream.getsScript {text : Bytes → String} {reply : UtxoReply} {utxos : List UTXO}
    (haddress : address ≠ []) (hdecode : b.decodeAddress address params = .ok addr)
    (hscript : b.payToAddrScript addr = .ok script)
    (h : Blockstream.getUTXOs text address reply = .ok utxos) :
    ∀ u ∈ utxos, GetsScript b params script u := by
  unfold Blockstream.getUTXOs at h
  split at h
  · cases h
  · cases h
  · cases h
    intro u hu
    obtain ⟨entry,_,rfl⟩ := List.mem_map.mp hu
    exact getsScript_of_none rfl haddress hdecode hscript

/-- A row of an output of the address shows its script, or no script. -/
def Blockcypher.TXRef.Describes (script : Bytes) (txRef : Blockcypher.TXRef) : Prop :=
  hexDecode txRef.script = some script ∨ txRef.script = []

theorem Blockcypher.getsScript_iff {text : Bytes → String} {txRefs : List Blockcypher.TXRef}
    {utxos : List FetchedUTXO} (hsome : script ≠ [])
    (hrows : ∀ txRef ∈ txRefs, txRef.isUnspent = true → txRef.Describes script)
    (h : Blockcypher.getUTXOs text address (.ok txRefs) = .ok utxos) :
    (∀ u ∈ utxos, GetsScript b params script u.toUTXO) ↔
      ∀ txRef ∈ txRefs, txRef.isUnspent = true → txRef.script ≠ [] := by
  simp only [Blockcypher.getUTXOs,bind_eq_ok,mapError_eq_ok,Except.ok.injEq] at h
  obtain ⟨_,rfl,rfl⟩ := h
  rw [List.forall_mem_map]
  simp only [List.mem_filter,and_imp]
  refine forall₃_congr fun txRef hmem hunspent => ?_
  rw [getsScript_of_some rfl]
  constructor
  · rintro hscript hmissing
    rw [hmissing] at hscript
    exact hsome hscript.symm
  · intro hshown
    exact hexDecodeString_of_hexDecode
      ((hrows txRef hmem hunspent).resolve_right hshown)

end

/-- For an address that pays to a supported script, all outputs that mempool.space and
blockstream.info list get its script. Those of blockcypher do exactly when no row lacks its
script: an empty slice is not the nil that the signer fills in. -/
theorem fetched_scripts_iff {network : BitcoinNetwork} {params : Params}
    {address script : Bytes} {addr : Address}
    (hparams : network.chaincfgNetwork = .ok params) (haddress : address ≠ [])
    (hdecode : b.decodeAddress address params = .ok addr)
    (hscript : b.payToAddrScript addr = .ok script)
    (hsupported : getScriptClass script ≠ .other) :
    (∀ tip reply utxos, Mempool.getUTXOs b network address tip reply = .ok utxos →
      ∀ u ∈ utxos, GetsScript b params script u.toUTXO) ∧
    (∀ text reply utxos, Blockstream.getUTXOs text address reply = .ok utxos →
      ∀ u ∈ utxos, GetsScript b params script u) ∧
    ∀ text txRefs utxos, (∀ txRef ∈ txRefs, txRef.isUnspent = true → txRef.Describes script) →
      Blockcypher.getUTXOs text address (.ok txRefs) = .ok utxos →
      ((∀ u ∈ utxos, GetsScript b params script u.toUTXO) ↔
        ∀ txRef ∈ txRefs, txRef.isUnspent = true → txRef.script ≠ []) := by
  have hsome : script ≠ [] := by
    rintro rfl
    exact hsupported rfl
  refine ⟨?_,?_,?_⟩
  · intro tip reply utxos h
    exact Mempool.getsScript hparams hdecode hscript h
  · intro text reply utxos h
    exact Blockstream.getsScript haddress hdecode hscript h
  · intro text txRefs utxos hrows h
    exact Blockcypher.getsScript_iff hsome hrows h

def paymentRow (script : Bytes) : Blockcypher.TXRef :=
  ⟨legacyOutput.txHash,0,100000,false,6,script⟩

/-- Two unspent outputs, and between them one that is spent and has no script. -/
def segwitRows : List Blockcypher.TXRef :=
  [paymentRow (hexEncode segwitScript),⟨legacyOutput.txHash,1,70000,true,6,[]⟩,
    ⟨legacyOutput.txHash,2,50000,false,6,hexEncode segwitScript⟩]

theorem fetched_scripts_segwit :
    ∃ utxos, Blockcypher.getUTXOs (fun _ => "") segwitAddress (.ok segwitRows) = .ok utxos ∧
      utxos.length = 2 ∧ ∀ u ∈ utxos, GetsScript keyOne .mainNet segwitScript u.toUTXO := by
  refine ⟨_,rfl,rfl,?_⟩
  have hdecode : keyOne.decodeAddress segwitAddress .mainNet = .ok segwitScript := by
    decide +kernel
  have hparams : BitcoinNetwork.mainnet.chaincfgNetwork = .ok .mainNet := rfl
  have hall := fetched_scripts_iff hparams (by decide) hdecode rfl (by decide)
  refine (hall.2.2 (fun _ => "") segwitRows _ ?_ rfl).mpr ?_
  · intro txRef htxRef hunspent
    fin_cases htxRef
    · exact .inl (hexDecode_hexEncode segwitScript)
    · cases hunspent
    · exact .inl (hexDecode_hexEncode segwitScript)
  · decide +kernel

/-- The same unspent output: from blockstream.info it can be signed, and from a row of
blockcypher that shows no script it cannot. -/
theorem blockcypher_row_unsupported :
    (∃ utxos, Blockstream.getUTXOs (fun _ => "") segwitAddress
        (.utxos [⟨legacyOutput.txHash,0,100000,true⟩]) = .ok utxos ∧
      signedWire keyOne .mainnet payment utxos privWIF =
        .ok (paymentWire [] [segwitSignature,compressedKey])) ∧
    ∃ utxos, Blockcypher.getUTXOs (fun _ => "") segwitAddress (.ok [paymentRow []]) = .ok utxos ∧
      signTransaction keyOne .mainnet (some payment) (utxos.map (·.toUTXO)) privWIF =
        .error (.plain "unsupported script type for input 0: nonstandard") := by
  refine ⟨⟨_,rfl,?_⟩,_,rfl,?_⟩
  · decide +kernel
  · decide +kernel

end ChainKit.Bitcoin
