import ChainKit.Bitcoin.Tx

/-! The three ids of a transaction: that of the unsigned `Tx`, that of the signed one, and the
one that the broadcast reports. -/
namespace ChainKit.Bitcoin
open Lib
variable {WIF Address : Type} {b : Btcd WIF Address}

/-- The class of the script that locks an output, which is that of its address when the
script is missing. -/
def UTXO.lockingClass (b : Btcd WIF Address) (params : Params) (u : UTXO) :
    Except GoError ScriptClass := do
  let u ← deriveScript b params 0 u
  .ok (getScriptClass u.script)

theorem payToAddress_eq_ok {onDecode onScript : GoError → GoError} {address script : Bytes}
    {params : Params} : payToAddress b onDecode onScript address params = .ok script ↔
      ∃ addr, b.decodeAddress address params = .ok addr ∧ b.payToAddrScript addr = .ok script := by
  simp [payToAddress,bind_eq_ok]

theorem deriveScript_index {params : Params} {i : ℕ} {u u' : UTXO} (j : ℕ)
    (h : deriveScript b params i u = .ok u') : deriveScript b params j u = .ok u' := by
  unfold deriveScript at h ⊢
  split_ifs at h ⊢ with hmissing
  · simp only [bind_eq_ok,payToAddress_eq_ok] at h ⊢
    exact h
  · exact h

theorem lockingClass_of_deriveScript {params : Params} {i : ℕ} {u u' : UTXO}
    (h : deriveScript b params i u = .ok u') :
    u.lockingClass b params = .ok (getScriptClass u'.script) := by
  rw [UTXO.lockingClass,bind_eq_ok]
  exact ⟨u',deriveScript_index 0 h,rfl⟩

theorem deriveScripts_class {params : Params} {i : ℕ} {utxos utxos' : List UTXO}
    (h : deriveScripts b params i utxos = .ok utxos') :
    utxos.map (·.lockingClass b params) = utxos'.map (.ok <| getScriptClass ·.script) := by
  induction utxos generalizing i utxos' with
  | nil =>
    cases h
    rfl
  | cons u rest ih =>
    simp only [deriveScripts,bind_eq_ok] at h
    obtain ⟨u',hu,rest',hrest,hutxos⟩ := h
    cases hutxos
    rw [List.map_cons,List.map_cons,ih hrest,lockingClass_of_deriveScript hu]

theorem length_of_deriveScripts {params : Params} {i : ℕ} {utxos utxos' : List UTXO}
    (h : deriveScripts b params i utxos = .ok utxos') : utxos'.length = utxos.length := by
  have hlength := congrArg List.length (deriveScripts_class h)
  rw [List.length_map,List.length_map] at hlength
  exact hlength.symm

theorem deriveScripts_forall {params : Params} {i : ℕ} {utxos utxos' : List UTXO}
    {c : ScriptClass} (h : deriveScripts b params i utxos = .ok utxos') :
    (∀ u ∈ utxos, u.lockingClass b params = .ok c) ↔
      ∀ u ∈ utxos', getScriptClass u.script = c := by
  have hall := congrArg (fun classes => ∀ c' ∈ classes, c' = Except.ok c) (deriveScripts_class h)
  simpa using hall

/-- What signing does to an input, by the class of the script that locks it. -/
structure Signs (c : ScriptClass) (f : TxIn → TxIn) : Prop where
  keepsWitness : c = .pubKeyHash → ∀ ti, (f ti).witness = ti.witness
  setsWitness : c ≠ .pubKeyHash → ∀ ti, (f ti).witness ≠ []
  keepsRest : c = .witnessV0PubKeyHash →
    ∀ ti, { f ti with witness := [] } = { ti with witness := [] }

theorem signInput_signs {w : WIF} {fetch : OutPoint → Option TxOut} {i : ℕ} {u : UTXO}
    {msg msg' : MsgTx} (h : signInput b w fetch i u msg = .ok msg') :
    ∃ f, msg' = msg.setInput i f ∧ Signs (getScriptClass u.script) f := by
  unfold signInput at h
  split at h
  · rename_i hclass
    simp only [bind_eq_ok] at h
    obtain ⟨sigScript,_,hmsg⟩ := h
    cases hmsg
    exact ⟨_,rfl,⟨fun _ _ => rfl,fun hc => absurd hclass hc,by simp [hclass]⟩⟩
  · rename_i hclass
    simp only [bind_eq_ok,mapError_eq_ok,witnessSignature] at h
    obtain ⟨witness,⟨sig,_,hwitness⟩,hmsg⟩ := h
    cases hwitness
    cases hmsg
    exact ⟨_,rfl,⟨by simp [hclass],by simp,fun _ _ => rfl⟩⟩
  · rename_i hclass
    simp only [bind_eq_ok,mapError_eq_ok,witnessSignature] at h
    obtain ⟨witness,⟨sig,_,hwitness⟩,hmsg⟩ := h
    cases hwitness
    cases hmsg
    exact ⟨_,rfl,⟨by simp [hclass],by simp,by simp [hclass]⟩⟩
  · cases h

namespace MsgTx

theorem hasWitness_iff (msg : MsgTx) :
    msg.hasWitness = true ↔ ∃ j : ℕ, ∃ ti, msg.txIn[j]? = some ti ∧ ti.witness ≠ [] := by
  simp only [hasWitness,List.any_eq_true,Bool.not_eq_true',List.isEmpty_eq_false_iff,
    List.mem_iff_getElem?]
  grind

/-- A signed input has a witness unless its script is that of a public key hash. -/
theorem hasWitness_setInput {msg : MsgTx} {i : ℕ} {c : ScriptClass} {f : TxIn → TxIn}
    (hf : Signs c f) (hi : i < msg.txIn.length) : (msg.setInput i f).hasWitness = true ↔
      msg.hasWitness = true ∨ c ≠ .pubKeyHash := by
  simp only [hasWitness_iff,setInput,List.getElem?_modify]
  constructor
  · rintro ⟨j,ti,hti,hwitness⟩
    by_cases hc : c = .pubKeyHash
    · left
      obtain ⟨ti',hti',rfl⟩ := Option.map_eq_some_iff.mp hti
      refine ⟨j,ti',hti',?_⟩
      split_ifs at hwitness
      · rwa [hf.keepsWitness hc] at hwitness
      · exact hwitness
    · exact .inr hc
  · intro h
    by_cases hc : c = .pubKeyHash
    · obtain ⟨j,ti,hti,hwitness⟩ := h.resolve_right (fun hne => hne hc)
      refine ⟨j,_,by rw [hti]; rfl,?_⟩
      split_ifs
      · rwa [hf.keepsWitness hc]
      · exact hwitness
    · refine ⟨i,f msg.txIn[i],?_,hf.setsWitness hc _⟩
      simp [hi]

theorem stripped_setInput {msg : MsgTx} {i : ℕ} {f : TxIn → TxIn}
    (hf : Signs .witnessV0PubKeyHash f) : (msg.setInput i f).stripped = msg.stripped := by
  have hinputs : (msg.txIn.modify i f).map (fun ti => { ti with witness := [] }) =
      msg.txIn.map (fun ti => { ti with witness := [] }) := by
    apply List.ext_getElem?
    intro j
    simp only [List.getElem?_map,List.getElem?_modify,Option.map_eq_map]
    cases msg.txIn[j]? with
    | none => rfl
    | some ti =>
      by_cases hij : i = j
      · simpa [hij] using hf.keepsRest rfl ti
      · simp [hij]
  simp only [stripped,setInput,hinputs]

end MsgTx

theorem signInputs_hasWitness {w : WIF} {fetch : OutPoint → Option TxOut} {i : ℕ}
    {utxos : List UTXO} {msg msg' : MsgTx} (hlength : i + utxos.length ≤ msg.txIn.length)
    (h : signInputs b w fetch i utxos msg = .ok msg') : msg'.hasWitness = true ↔
      msg.hasWitness = true ∨ ∃ u ∈ utxos, getScriptClass u.script ≠ .pubKeyHash := by
  induction utxos generalizing i msg with
  | nil =>
    cases h
    simp
  | cons u rest ih =>
    simp only [signInputs,bind_eq_ok] at h
    obtain ⟨signed,hsigned,hrest⟩ := h
    obtain ⟨f,rfl,hf⟩ := signInput_signs hsigned
    rw [List.length_cons] at hlength
    have hlength' : i+1 + rest.length ≤ (msg.setInput i f).txIn.length := by
      simp only [MsgTx.setInput,List.length_modify]
      omega
    rw [ih hlength' hrest,MsgTx.hasWitness_setInput hf (by omega)]
    simp [or_assoc]

/-- Signing native witness inputs leaves what the id commits to. -/
theorem signInputs_stripped {w : WIF} {fetch : OutPoint → Option TxOut} {i : ℕ}
    {utxos : List UTXO} {msg msg' : MsgTx}
    (hclass : ∀ u ∈ utxos, getScriptClass u.script = .witnessV0PubKeyHash)
    (h : signInputs b w fetch i utxos msg = .ok msg') : msg'.stripped = msg.stripped := by
  induction utxos generalizing i msg with
  | nil =>
    cases h
    rfl
  | cons u rest ih =>
    simp only [signInputs,bind_eq_ok] at h
    obtain ⟨signed,hsigned,hrest⟩ := h
    obtain ⟨f,rfl,hf⟩ := signInput_signs hsigned
    rw [hclass u (by simp)] at hf
    rw [ih (fun v hv => hclass v (by simp [hv])) hrest,MsgTx.stripped_setInput hf]

theorem wireInput_witness {text : String} {input : TxInput} {ti : TxIn}
    (h : wireInput b text input = .ok ti) : ti.witness = [] := by
  simp only [wireInput,bind_eq_ok] at h
  obtain ⟨hash,_,hti⟩ := h
  cases hti
  rfl

theorem hasWitness_of_wireInputs {text : String} {inputs : List TxInput} {msg : MsgTx}
    (h : inputs.mapM (wireInput b text) = .ok msg.txIn) : msg.hasWitness = false := by
  have hinputs := forall_of_mapM (fun _ _ => wireInput_witness) h
  rw [MsgTx.hasWitness,List.any_eq_false]
  intro ti hti
  simp [hinputs ti hti]

theorem unsignedTx_eq_ok {tx : Tx} {params : Params} {msg : MsgTx}
    (h : unsignedTx b tx params = .ok msg) :
    msg.hasWitness = false ∧ msg.txIn.length = tx.inputs.length := by
  simp only [unsignedTx,bind_eq_ok] at h
  obtain ⟨txIn,htxIn,txOut,_,hmsg⟩ := h
  cases hmsg
  exact ⟨hasWitness_of_wireInputs htxIn,length_of_mapM htxIn⟩

theorem Tx.wire_eq_ok {tx : Tx} {params : Params} {msg : MsgTx}
    (h : tx.wire b params = .ok msg) :
    msg.hasWitness = false ∧ msg.txIn.length = tx.inputs.length := by
  simp only [Tx.wire,bind_eq_ok] at h
  obtain ⟨txIn,htxIn,txOut,_,hmsg⟩ := h
  cases hmsg
  exact ⟨hasWitness_of_wireInputs htxIn,length_of_mapM htxIn⟩

theorem signedWire_eq_ok {network : BitcoinNetwork} {tx : Tx} {utxos : List UTXO}
    {privWIF : Bytes} {params : Params} {msg' : MsgTx}
    (hparams : network.chaincfgNetwork = .ok params)
    (h : signedWire b network tx utxos privWIF = .ok msg') : ∃ w msg utxos',
      utxos.length = tx.inputs.length ∧ unsignedTx b tx params = .ok msg ∧
      deriveScripts b params 0 utxos = .ok utxos' ∧
      signInputs b w (prevOuts msg utxos') 0 utxos' msg = .ok msg' := by
  simp only [signedWire,bind_eq_ok,require_eq_ok,hparams,Except.ok.injEq] at h
  obtain ⟨_,hlength,w,_,_,rfl,_,_,msg,hmsg,utxos',hutxos,hsign⟩ := h
  exact ⟨w,msg,utxos',hlength,hmsg,hutxos,hsign⟩

theorem signTransaction_eq_ok {network : BitcoinNetwork} {tx : Tx} {utxos : List UTXO}
    {privWIF : Bytes} {signed : SignedTx}
    (h : signTransaction b network (some tx) utxos privWIF = .ok signed) :
    ∃ msg, signedWire b network tx utxos privWIF = .ok msg ∧ signed.id = msg.txHash.string ∧
      signed.rawSigned = msg.serialize := by
  simp only [signTransaction,bind_eq_ok] at h
  obtain ⟨msg,hmsg,hsigned⟩ := h
  cases hsigned
  exact ⟨msg,hmsg,rfl,rfl⟩

/-- A signed transaction has no witness exactly when all of its inputs spend public key hashes. -/
theorem signedWire_hasWitness {network : BitcoinNetwork} {tx : Tx} {utxos : List UTXO}
    {privWIF : Bytes} {params : Params} {msg' : MsgTx}
    (hparams : network.chaincfgNetwork = .ok params)
    (h : signedWire b network tx utxos privWIF = .ok msg') :
    msg'.hasWitness = false ↔ ∀ u ∈ utxos, u.lockingClass b params = .ok .pubKeyHash := by
  obtain ⟨w,msg,utxos',hlength,hmsg,hderive,hsign⟩ := signedWire_eq_ok hparams h
  obtain ⟨hplain,hinputs⟩ := unsignedTx_eq_ok hmsg
  have hlength' := length_of_deriveScripts hderive
  have hwitness := signInputs_hasWitness (by omega) hsign
  rw [deriveScripts_forall hderive,← Bool.not_eq_true,hwitness]
  simp [hplain]

theorem pushTx_eq_ok {text : Bytes → String} {reply : PushReply} {rawTx id : Bytes}
    (h : pushTx text reply rawTx = .ok id) : id = computeTxID rawTx := by
  unfold pushTx at h
  split at h
  · cases h
  · cases h
  · cases h
  · split_ifs at h
    cases h
    rfl

def idText (n : ℕ) : Bytes := hexEncode (Sha256.bigEndian 32 n)

def privWIF : Bytes := ascii "KwDiBf89QgGbjEhKnhXJuH7LrciVrZi3qYjgd9M7rFU73sVHnoWn"

def compressedKey : Bytes :=
  Sha256.bigEndian 33 0x0279be667ef9dcbbac55a06295ce870b07029bfcdb2dce28d959f2815b16f81798

def segwitAddress : Bytes := ascii "bc1qw508d6qejxtdg4y5r3zarvary0c5xw7kv8f3t4"
def segwitScript : Bytes := Sha256.bigEndian 22 0x0014751e76e8199196d454941c45d1b3a323f1433bd6

/-- A signature in DER with the byte of `SigHashAll`. -/
def derSignature (r s : ℕ) : Bytes :=
  [0x30,0x44,0x02,0x20] ++ Sha256.bigEndian 32 r ++ [0x02,0x20] ++ Sha256.bigEndian 32 s ++ [0x01]

def legacySignature : Bytes :=
  addData (derSignature 0x0e4220acf6e9dc8e9c71bf95b3aa46d2f2ec9d9d2efe48273c339154f6974431
    0x7c8ad2fa827a0f9feedd96c6b61c89841d79386b63a312c07349b4a1bb261ee7) ++ addData compressedKey

def segwitSignature : Bytes :=
  derSignature 0x1a95150941531b4500a2321ea9177d3ea267a0e50ef1d4165afa7f97165f1edb
    0x5513faa132f1cb531f7de322223ae52afe52293c6db9088ea7b5def481bfd42e

/-- The private key 1 of the main network, with what btcd computes for it and for the
transactions below. -/
def keyOne : Btcd Unit Bytes where
  hexError _ := .plain "encoding/hex: invalid byte"
  quote _ := ""
  decodeWIF text :=
    if text = privWIF then .ok () else .error (.plain "malformed private key")
  isForNet _ params := params = .mainNet
  serializePubKey _ := compressedKey
  serializeCompressed _ := compressedKey
  hash160 _ := ⟨Sha256.bigEndian 20 0x751e76e8199196d454941c45d1b3a323f1433bd6,
    Sha256.length_bigEndian _ _⟩
  decodeAddress address params :=
    if address = segwitAddress ∧ params = .mainNet then .ok segwitScript
    else .error (.plain "decoded address is of unknown format")
  payToAddrScript script := .ok script
  signatureScript _ _ _ _ := .ok legacySignature
  rawTxInWitnessSignature _ _ _ _ _ _ := .ok segwitSignature
  className _ := "nonstandard"

def legacyOutput : UTXO where
  txHash := idText 0xf4184fc596403b9d638783cf57adfe4c75c605f6356fbc91338530e9831e9e16
  vout := 0
  amount := 100000
  scriptPubKey :=
    some (Sha256.bigEndian 25 0x76a914751e76e8199196d454941c45d1b3a323f1433bd688ac)
  address := []
  confirmed := true

def segwitOutput : UTXO := { legacyOutput with scriptPubKey := none, address := segwitAddress }

def payment : Tx where
  version := 2
  inputs := [⟨legacyOutput.txHash,0⟩]
  outputs := [⟨segwitAddress,90000⟩]
  fee := 0
  status := .pending
  params := some .mainNet

/-- The payment on the wire, with the two fields that a signature fills in. -/
def paymentWire (signatureScript : Bytes) (witness : List Bytes) : MsgTx where
  version := 2
  txIn := [⟨⟨⟨(Sha256.bigEndian 32
      0xf4184fc596403b9d638783cf57adfe4c75c605f6356fbc91338530e9831e9e16).reverse,by simp⟩,0⟩,
    signatureScript,witness,0xffffffff⟩]
  txOut := [⟨90000,segwitScript⟩]
  lockTime := 0

def paymentSigned (msg : MsgTx) : SignedTx where
  id := msg.txHash.string
  version := 2
  inputs := payment.inputs
  outputs := payment.outputs
  rawSigned := msg.serialize
  fee := 0
  status := .pending

theorem signTransaction_payment {utxos : List UTXO} {msg : MsgTx}
    (h : signedWire keyOne .mainnet payment utxos privWIF = .ok msg) :
    signTransaction keyOne .mainnet (some payment) utxos privWIF = .ok (paymentSigned msg) := by
  rw [signTransaction,h]
  rfl

theorem signedWire_legacy : signedWire keyOne .mainnet payment [legacyOutput] privWIF =
    .ok (paymentWire legacySignature []) := by
  decide +kernel

theorem signedWire_segwit : signedWire keyOne .mainnet payment [segwitOutput] privWIF =
    .ok (paymentWire [] [segwitSignature,compressedKey]) := by
  decide +kernel

/-- The messages whose digests the two ids of a signed transaction are made of. -/
def digested (msg : MsgTx) : Set Bytes :=
  {msg.serialize,msg.serializeNoWitness,
    Sha256.sum256 msg.serialize,Sha256.sum256 msg.serializeNoWitness}

/-- The broadcast reports the id of the signed transaction exactly when no input of it has a
witness: `computeTxID` hashes the raw bytes, and the id leaves the witnesses out. -/
theorem pushTx_id_iff {network : BitcoinNetwork} {tx : Tx} {utxos : List UTXO}
    {privWIF : Bytes} {params : Params} {signed : SignedTx} {msg : MsgTx}
    {text : Bytes → String} {reply : PushReply} {id : Bytes}
    (hparams : network.chaincfgNetwork = .ok params)
    (hsign : signTransaction b network (some tx) utxos privWIF = .ok signed)
    (hmsg : signedWire b network tx utxos privWIF = .ok msg)
    (hsha : Set.InjOn Sha256.sum256 (digested msg))
    (hpush : pushTx text reply signed.rawSigned = .ok id) :
    id = signed.id ↔ ∀ u ∈ utxos, u.lockingClass b params = .ok .pubKeyHash := by
  obtain ⟨msg',hmsg',hid,hraw⟩ := signTransaction_eq_ok hsign
  rw [hmsg] at hmsg'
  cases hmsg'
  rw [pushTx_eq_ok hpush,hid,hraw,← signedWire_hasWitness hparams hmsg,
    ← msg.serialize_eq_serializeNoWitness]
  constructor
  · intro h
    have hdouble : doubleHashH msg.serialize = msg.txHash := Hash.string_injective h
    have hdigest : Sha256.sum256 msg.serialize = Sha256.sum256 msg.serializeNoWitness :=
      hsha (by simp [digested]) (by simp [digested]) (congrArg Subtype.val hdouble)
    exact hsha (by simp [digested]) (by simp [digested]) hdigest
  · intro h
    rw [computeTxID,h]
    rfl

theorem pushTx_id_legacy :
    let msg := paymentWire legacySignature []
    let id := idText 0xf592fbce60a97a38ba256e0dba96b029eedbdb54df46dbd7bea6af114afc0577
    Set.InjOn Sha256.sum256 (digested msg) ∧
      (∀ u ∈ [legacyOutput], u.lockingClass keyOne .mainNet = .ok .pubKeyHash) ∧
      id = (paymentSigned msg).id := by
  intro msg id
  have hplain : msg.serialize = msg.serializeNoWitness := by decide +kernel
  have hfixed : Sha256.sum256 msg.serialize ≠ Sha256.sum256 (Sha256.sum256 msg.serialize) := by
    decide +kernel
  have hsha : Set.InjOn Sha256.sum256 (digested msg) := by
    have hpair : digested msg = {msg.serialize,Sha256.sum256 msg.serialize} := by
      simp [digested,← hplain]
    rw [hpair,Set.injOn_pair]
    exact fun h => absurd h hfixed
  have hpush : pushTx (fun _ => "") (.response 200 (ascii "Transaction Submitted"))
      (paymentSigned msg).rawSigned = .ok id := by
    decide +kernel
  have hclass : ∀ u ∈ [legacyOutput], u.lockingClass keyOne .mainNet = .ok .pubKeyHash := by
    decide +kernel
  exact ⟨hsha,hclass,(pushTx_id_iff rfl (signTransaction_payment signedWire_legacy)
    signedWire_legacy hsha hpush).mpr hclass⟩

/-- A native witness input: the broadcast reports the digest of the bytes with the witness. -/
theorem pushTx_reports_witness_hash :
    let signed := paymentSigned (paymentWire [] [segwitSignature,compressedKey])
    let id := idText 0xb38af44678602b7fd13affe7427d7b20d551236596d34903f46f7e85bb9cd96c
    signTransaction keyOne .mainnet (some payment) [segwitOutput] privWIF = .ok signed ∧
      pushTx (fun _ => "") (.response 200 (ascii "Transaction Submitted")) signed.rawSigned =
        .ok id ∧
      signed.id = idText 0x7494e1dfd4e4c01f87f4c6fe1f4aa199752edf166d2e070285b3c11770c8745b ∧
      id ≠ signed.id := by
  intro signed id
  have hpush : pushTx (fun _ => "") (.response 200 (ascii "Transaction Submitted"))
      signed.rawSigned = .ok id := by
    decide +kernel
  have hid : signed.id =
      idText 0x7494e1dfd4e4c01f87f4c6fe1f4aa199752edf166d2e070285b3c11770c8745b := by
    decide +kernel
  refine ⟨signTransaction_payment signedWire_segwit,hpush,hid,?_⟩
  rw [hid]
  decide +kernel

theorem wireInput_agree {text text' : String} {input : TxInput} {ti ti' : TxIn}
    (h : wireInput b text input = .ok ti) (h' : wireInput b text' input = .ok ti') : ti = ti' := by
  simp only [wireInput,bind_eq_ok,mapError_eq_ok] at h h'
  obtain ⟨hash,hhash,hti⟩ := h
  obtain ⟨hash',hhash',hti'⟩ := h'
  rw [hhash] at hhash'
  cases hhash'
  rw [hti] at hti'
  exact Except.ok.inj hti'

/-- An address that two networks read pays to the same script in both. -/
def ScriptsAgree (b : Btcd WIF Address) (params params' : Params) : Prop :=
  ∀ address addr addr', b.decodeAddress address params = .ok addr →
    b.decodeAddress address params' = .ok addr' → b.payToAddrScript addr = b.payToAddrScript addr'

/-- The unsigned path and the signed path build the same wire transaction. -/
theorem wire_eq_unsignedTx {tx : Tx} {params params' : Params} {msg msg' : MsgTx}
    (hagree : ScriptsAgree b params params') (h : tx.wire b params = .ok msg)
    (h' : unsignedTx b tx params' = .ok msg') : msg = msg' := by
  simp only [Tx.wire,bind_eq_ok] at h
  simp only [unsignedTx,bind_eq_ok] at h'
  obtain ⟨txIn,htxIn,txOut,htxOut,hmsg⟩ := h
  obtain ⟨txIn',htxIn',txOut',htxOut',hmsg'⟩ := h'
  have hinputs : txIn = txIn' := mapM_agree (fun _ _ _ => wireInput_agree) htxIn htxIn'
  have houtputs : txOut = txOut' := by
    refine mapM_agree ?_ htxOut htxOut'
    intro output o o' ho ho'
    simp only [bind_eq_ok,payToAddress_eq_ok,Except.ok.injEq] at ho ho'
    obtain ⟨script,⟨addr,haddr,hscript⟩,rfl⟩ := ho
    obtain ⟨script',⟨addr',haddr',hscript'⟩,rfl⟩ := ho'
    rw [hagree output.address addr addr' haddr haddr',hscript'] at hscript
    cases hscript
    rfl
  rw [hinputs,houtputs,hmsg'] at hmsg
  exact (Except.ok.inj hmsg).symm

theorem Tx.serialize_eq_ok {tx : Tx} {s : Bytes} (h : tx.serialize b = .ok s) :
    ∃ params msg, tx.params = some params ∧ tx.wire b params = .ok msg ∧
      s = msg.serializeNoWitness := by
  unfold Tx.serialize at h
  split at h
  · cases h
  · rename_i params hparams
    simp only [bind_eq_ok] at h
    obtain ⟨msg,hmsg,hs⟩ := h
    cases hs
    exact ⟨params,msg,hparams,hmsg,
      msg.serialize_eq_serializeNoWitness.mpr (Tx.wire_eq_ok hmsg).1⟩

theorem Tx.hash_eq_ok {tx : Tx} {id : Bytes} :
    tx.hash b = .ok id ↔ ∃ s, tx.serialize b = .ok s ∧ (hashH s).string = id := by
  simp [Tx.hash,bind_eq_ok]

theorem createTransaction_eq_ok {network : BitcoinNetwork} {params : Params}
    {utxos : List UTXO} {outputs : List TxOutput} {tx : Tx}
    (hparams : network.chaincfgNetwork = .ok params)
    (h : createTransaction network utxos outputs = .ok tx) :
    tx.inputs ≠ [] ∧ tx.params = some params := by
  simp only [createTransaction,bind_eq_ok,require_eq_ok,hparams,Except.ok.injEq] at h
  obtain ⟨_,hutxos,_,_,_,rfl,htx⟩ := h
  subst htx
  exact ⟨by simpa using hutxos,rfl⟩

/-- The id of a signed transaction with native witness inputs is the double digest of what
the unsigned one serializes to. -/
theorem id_of_segwit {network' : BitcoinNetwork} {tx : Tx} {utxos : List UTXO}
    {privWIF : Bytes} {params params' : Params} {signed : SignedTx} {s : Bytes}
    (hparams : tx.params = some params) (hparams' : network'.chaincfgNetwork = .ok params')
    (hagree : ScriptsAgree b params params')
    (hsign : signTransaction b network' (some tx) utxos privWIF = .ok signed)
    (hsegwit : ∀ u ∈ utxos, u.lockingClass b params' = .ok .witnessV0PubKeyHash)
    (hs : tx.serialize b = .ok s) : signed.id = (doubleHashH s).string := by
  obtain ⟨signedMsg,hsigned,hid,_⟩ := signTransaction_eq_ok hsign
  obtain ⟨w,msg,utxos',_,hmsg,hderive,hinputs⟩ := signedWire_eq_ok hparams' hsigned
  obtain ⟨_,msg',hsome,hmsg',rfl⟩ := Tx.serialize_eq_ok hs
  rw [hparams] at hsome
  cases hsome
  have hstripped := signInputs_stripped ((deriveScripts_forall hderive).mp hsegwit) hinputs
  rw [hid,MsgTx.txHash_congr hstripped,wire_eq_unsignedTx hagree hmsg' hmsg]
  rfl

/-- The id of an unsigned transaction is a single digest and that of the signed one a double
digest, so the two agree only where SHA-256 has a fixed point. Since a transaction is longer
than a digest, that would be a collision. -/
theorem hash_ne_id {network network' : BitcoinNetwork} {inputs utxos : List UTXO}
    {outputs : List TxOutput} {tx : Tx} {privWIF : Bytes} {params params' : Params}
    {signed : SignedTx}
    (hparams : network.chaincfgNetwork = .ok params)
    (hparams' : network'.chaincfgNetwork = .ok params')
    (hagree : ScriptsAgree b params params')
    (hcreate : createTransaction network inputs outputs = .ok tx)
    (hsign : signTransaction b network' (some tx) utxos privWIF = .ok signed)
    (hsegwit : ∀ u ∈ utxos, u.lockingClass b params' = .ok .witnessV0PubKeyHash) :
    (tx.hash b = .ok signed.id ↔
      ∃ s, tx.serialize b = .ok s ∧ Sha256.sum256 (Sha256.sum256 s) = Sha256.sum256 s) ∧
    ∀ s, tx.serialize b = .ok s → Set.InjOn Sha256.sum256 {s,Sha256.sum256 s} →
      tx.hash b ≠ .ok signed.id := by
  obtain ⟨hinputs,hsome⟩ := createTransaction_eq_ok hparams hcreate
  have hiff : tx.hash b = .ok signed.id ↔
      ∃ s, tx.serialize b = .ok s ∧ Sha256.sum256 (Sha256.sum256 s) = Sha256.sum256 s := by
    rw [Tx.hash_eq_ok]
    refine exists_congr fun s => and_congr_right fun hs => ?_
    rw [id_of_segwit hsome hparams' hagree hsign hsegwit hs,Hash.string_injective.eq_iff,
      Subtype.ext_iff,eq_comm]
    rfl
  refine ⟨hiff,?_⟩
  intro s hs hsha hhash
  obtain ⟨s',hs',hfixed⟩ := hiff.mp hhash
  rw [hs] at hs'
  cases hs'
  obtain ⟨_,msg,_,hmsg,hbytes⟩ := Tx.serialize_eq_ok hs
  have heq : Sha256.sum256 s = s := hsha (by simp) (by simp) hfixed
  have hlength := congrArg List.length heq
  rw [Sha256.length_sum256] at hlength
  have hne : msg.txIn ≠ [] := by
    intro hnil
    have hcount := (Tx.wire_eq_ok hmsg).2
    rw [hnil] at hcount
    exact hinputs (List.length_eq_zero_iff.mp hcount.symm)
  have hlong := msg.length_serializeNoWitness hne
  rw [← hbytes] at hlong
  omega

theorem hash_ne_id_payment :
    let signed := paymentSigned (paymentWire [] [segwitSignature,compressedKey])
    createTransaction .mainnet [segwitOutput] payment.outputs = .ok payment ∧
      ((payment.hash keyOne = .ok signed.id ↔ ∃ s, payment.serialize keyOne = .ok s ∧
        Sha256.sum256 (Sha256.sum256 s) = Sha256.sum256 s) ∧
      ∀ s, payment.serialize keyOne = .ok s → Set.InjOn Sha256.sum256 {s,Sha256.sum256 s} →
        payment.hash keyOne ≠ .ok signed.id) := by
  intro signed
  have hcreate : createTransaction .mainnet [segwitOutput] payment.outputs = .ok payment := rfl
  have hagree : ScriptsAgree keyOne .mainNet .mainNet := by
    intro address addr addr' h h'
    rw [h] at h'
    cases h'
    rfl
  have hsegwit : ∀ u ∈ [segwitOutput],
      u.lockingClass keyOne .mainNet = .ok .witnessV0PubKeyHash := by
    decide +kernel
  exact ⟨hcreate,hash_ne_id rfl rfl hagree hcreate (signTransaction_payment signedWire_segwit)
    hsegwit⟩

/-- The id before signing is not the one that appears on chain. -/
theorem hash_changes_by_signing :
    let signed := paymentSigned (paymentWire [] [segwitSignature,compressedKey])
    createTransaction .mainnet [segwitOutput] payment.outputs = .ok payment ∧
      signTransaction keyOne .mainnet (some payment) [segwitOutput] privWIF = .ok signed ∧
      payment.hash keyOne =
        .ok (idText 0x2959c5910587a29eba65305bda30d342bbe12b7d6eae2adafa177770da4e2bf5) ∧
      signed.id = idText 0x7494e1dfd4e4c01f87f4c6fe1f4aa199752edf166d2e070285b3c11770c8745b := by
  intro signed
  refine ⟨rfl,signTransaction_payment signedWire_segwit,?_,?_⟩
  · decide +kernel
  · decide +kernel

end ChainKit.Bitcoin
