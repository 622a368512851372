import ChainKit.Bitcoin.Decoding
import ChainKit.Bitcoin.Signing

/-! What the bytes of a signed transaction say when they are read again. -/
namespace ChainKit.Bitcoin
open Lib
variable {WIF Address : Type} {b : Btcd WIF Address}

def TxIn.bare (ti : TxIn) : TxIn := { ti with signatureScript := [], witness := [] }

namespace MsgTx

def bare (msg : MsgTx) : MsgTx := { msg with txIn := msg.txIn.map TxIn.bare }

@[simp] theorem bare_version (msg : MsgTx) : msg.bare.version = msg.version := rfl
@[simp] theorem bare_txOut (msg : MsgTx) : msg.bare.txOut = msg.txOut := rfl
@[simp] theorem bare_lockTime (msg : MsgTx) : msg.bare.lockTime = msg.lockTime := rfl
@[simp] theorem length_bare_txIn (msg : MsgTx) : msg.bare.txIn.length = msg.txIn.length :=
  List.length_map _

theorem bare_setInput {msg : MsgTx} {i : ℕ} {f : TxIn → TxIn}
    (hf : ∀ ti, (f ti).bare = ti.bare) : (msg.setInput i f).bare = msg.bare := by
  have hinputs : (msg.txIn.modify i f).map TxIn.bare = msg.txIn.map TxIn.bare := by
    apply List.ext_getElem?
    intro j
    simp only [List.getElem?_map,List.getElem?_modify,Option.map_eq_map]
    cases msg.txIn[j]? with
    | none => rfl
    | some ti =>
      by_cases hij : i = j
      · simpa [hij] using hf ti
      · simp [hij]
  simp only [bare,setInput,hinputs]

theorem map_txIn_of_bare {γ : Type} {msg msg' : MsgTx} (h : msg'.bare = msg.bare) (g : TxIn → γ)
    (hg : ∀ ti, g ti.bare = g ti) : msg'.txIn.map g = msg.txIn.map g := by
  have hmap := congrArg (fun m => m.txIn.map g) h
  simpa [bare,Function.comp_def,hg] using hmap

theorem bare_of_unsigned {msg : MsgTx}
    (h : ∀ ti ∈ msg.txIn, ti.signatureScript = [] ∧ ti.witness = []) : msg.bare = msg := by
  have hinputs : msg.txIn.map TxIn.bare = msg.txIn := by
    refine (List.map_congr_left fun ti hti => ?_).trans (List.map_id' _)
    obtain ⟨hscript,hwitness⟩ := h ti hti
    cases ti
    cases hscript
    cases hwitness
    rfl
  rw [bare,hinputs]

theorem hasWitness_bare (msg : MsgTx) : msg.bare.hasWitness = false := by
  change anyWitness msg.bare.txIn = false
  simp [anyWitness_eq_false,bare,TxIn.bare]

theorem length_serialize_bare (msg : MsgTx) :
    msg.bare.serialize.length ≤ msg.serialize.length := by
  have hinputs :
      (msg.bare.txIn.flatMap writeTxIn).length ≤ (msg.txIn.flatMap writeTxIn).length := by
    rw [bare,List.flatMap_map,List.length_flatMap,List.length_flatMap]
    apply List.sum_le_sum
    intro ti _
    have hlength := length_writeTxIn ti
    have hhash := ti.previousOutPoint.hash.property
    simp only [writeTxIn,TxIn.bare,writeVarBytes,writeVarInt,List.length_append,List.length_nil,
      length_littleEndian,hhash] at hlength ⊢
    simp only [Nat.reduceLT,if_true,length_littleEndian]
    omega
  simp only [serialize,btcEncode,hasWitness_bare,Bool.and_false,Bool.false_eq_true,if_false,
    bare_version,bare_txOut,bare_lockTime,length_bare_txIn,List.length_append,List.length_nil,
    length_littleEndian]
  omega

end MsgTx

theorem signInput_bare {w : WIF} {fetch : OutPoint → Option TxOut} {i : ℕ} {u : UTXO}
    {msg msg' : MsgTx} (h : signInput b w fetch i u msg = .ok msg') : msg'.bare = msg.bare := by
  obtain ⟨_,_,_,rfl⟩ | ⟨_,_,_,rfl⟩ | ⟨_,_,_,rfl⟩ := signInput_cases h
  · exact MsgTx.bare_setInput fun _ => rfl
  · exact MsgTx.bare_setInput fun _ => rfl
  · exact MsgTx.bare_setInput fun _ => rfl

/-- The signing loop changes nothing but scripts and witnesses. -/
theorem signInputs_bare {w : WIF} {fetch : OutPoint → Option TxOut} {i : ℕ} {utxos : List UTXO}
    {msg msg' : MsgTx} (h : signInputs b w fetch i utxos msg = .ok msg') :
    msg'.bare = msg.bare := by
  induction utxos generalizing i msg with
  | nil =>
    cases h
    rfl
  | cons u rest ih =>
    simp only [signInputs,bind_eq_ok] at h
    obtain ⟨signed,hsigned,hrest⟩ := h
    rw [ih hrest,signInput_bare hsigned]

/-- A wire transaction spends the inputs of a `Tx`, in order and with no lock, and pays to its
outputs, in order, by the scripts of their addresses. -/
structure Tx.Describes (b : Btcd WIF Address) (params : Params) (tx : Tx) (msg : MsgTx) : Prop where
  version : msg.version = tx.version
  lockTime : msg.lockTime = 0
  inputs : tx.inputs.map (·.outPoint b.hexError) = msg.txIn.map (.ok ·.previousOutPoint)
  sequences : ∀ ti ∈ msg.txIn, ti.sequence = 0xffffffff
  outputs : tx.outputs.map (fun o => (o.value,payToAddress b id id o.address params)) =
    msg.txOut.map fun txo => (txo.value,.ok txo.pkScript)

theorem wireInput_sequence {text : String} {input : TxInput} {ti : TxIn}
    (h : wireInput b text input = .ok ti) : ti.sequence = 0xffffffff := by
  obtain ⟨_,_,rfl⟩ := wireInput_eq_ok.mp h
  rfl

theorem payToAddress_id {onDecode onScript : GoError → GoError} {address script : Bytes}
    {params : Params} (h : payToAddress b onDecode onScript address params = .ok script) :
    payToAddress b id id address params = .ok script := by
  rw [payToAddress_eq_ok] at h ⊢
  exact h

theorem unsignedTx_describes {tx : Tx} {params : Params} {msg : MsgTx}
    (h : unsignedTx b tx params = .ok msg) : tx.Describes b params msg := by
  have hpoints := unsignedTx_outPoints h
  simp only [unsignedTx,bind_eq_ok] at h
  obtain ⟨txIn,htxIn,txOut,htxOut,hmsg⟩ := h
  cases hmsg
  refine ⟨rfl,rfl,hpoints,forall_of_mapM (fun _ _ => wireInput_sequence) htxIn,?_⟩
  refine map_eq_of_mapM ?_ htxOut
  intro output txo htxo
  obtain ⟨script,hscript,htxo⟩ := bind_eq_ok.mp htxo
  cases htxo
  rw [payToAddress_id hscript]

theorem Tx.Describes.congr {tx : Tx} {params : Params} {msg msg' : MsgTx}
    (h : tx.Describes b params msg) (hbare : msg'.bare = msg.bare) :
    tx.Describes b params msg' := by
  have hpoints := MsgTx.map_txIn_of_bare hbare TxIn.previousOutPoint fun _ => rfl
  have hsequences := MsgTx.map_txIn_of_bare hbare TxIn.sequence fun _ => rfl
  have hversion : msg'.version = msg.version := by simpa using congrArg MsgTx.version hbare
  have houtputs : msg'.txOut = msg.txOut := by simpa using congrArg MsgTx.txOut hbare
  have hlock : msg'.lockTime = msg.lockTime := by simpa using congrArg MsgTx.lockTime hbare
  refine ⟨hversion.trans h.version,hlock.trans h.lockTime,?_,?_,?_⟩
  · have hmap := congrArg (List.map (Except.ok : OutPoint → Except GoError OutPoint)) hpoints
    rw [List.map_map,List.map_map] at hmap
    exact h.inputs.trans hmap.symm
  · intro ti hti
    have hmem : ti.sequence ∈ msg.txIn.map TxIn.sequence := by
      rw [← hsequences]
      exact List.mem_map_of_mem hti
    obtain ⟨ti',hti',hsequence⟩ := List.mem_map.mp hmem
    rw [← hsequence]
    exact h.sequences ti' hti'
  · rw [houtputs]
    exact h.outputs

theorem wireInput_unsigned {text : String} {input : TxInput} {ti : TxIn}
    (h : wireInput b text input = .ok ti) : ti.signatureScript = [] ∧ ti.witness = [] := by
  obtain ⟨_,_,rfl⟩ := wireInput_eq_ok.mp h
  exact ⟨rfl,rfl⟩

theorem unsignedTx_bare {tx : Tx} {params : Params} {msg : MsgTx}
    (h : unsignedTx b tx params = .ok msg) : msg.bare = msg := by
  simp only [unsignedTx,bind_eq_ok] at h
  obtain ⟨txIn,htxIn,txOut,_,hmsg⟩ := h
  cases hmsg
  exact MsgTx.bare_of_unsigned (forall_of_mapM (fun _ _ => wireInput_unsigned) htxIn)

section
variable {network : BitcoinNetwork} {tx : Tx} {utxos : List UTXO} {privWIF : Bytes}
  {params : Params} {signed : SignedTx}

/-- The steps of `SignTransaction` that make the bytes, with what they leave as it was. -/
theorem signTransaction_bare (hparams : network.chaincfgNetwork = .ok params)
    (hsign : signTransaction b network (some tx) utxos privWIF = .ok signed) :
    ∃ unsigned msg : MsgTx, unsignedTx b tx params = .ok unsigned ∧ msg.bare = unsigned ∧
      signed.rawSigned = msg.serialize ∧ signed.id = msg.txHash.string := by
  obtain ⟨msg,hmsg,hid,hraw⟩ := signTransaction_eq_ok hsign
  obtain ⟨w,unsigned,utxos',_,hunsigned,_,hinputs⟩ := signedWire_eq_ok hparams hmsg
  refine ⟨unsigned,msg,hunsigned,?_,hraw,hid⟩
  rw [signInputs_bare hinputs,unsignedTx_bare hunsigned]

theorem txIn_ne_nil_of_bare {unsigned msg : MsgTx}
    (hunsigned : unsignedTx b tx params = .ok unsigned)
    (hbare : msg.bare = unsigned) (hinputs : tx.inputs ≠ []) : msg.txIn ≠ [] := by
  have hlength := (unsignedTx_eq_ok hunsigned).2
  rw [← hbare,MsgTx.bare,List.length_map] at hlength
  intro hnil
  rw [hnil] at hlength
  exact hinputs (List.eq_nil_of_length_eq_zero hlength.symm)

/-- The bytes of a signed transaction, up to the size of a block, read as a transaction that the
`Tx` describes, with the id that was reported. -/
theorem signTransaction_readBack (hparams : network.chaincfgNetwork = .ok params)
    (hsign : signTransaction b network (some tx) utxos privWIF = .ok signed)
    (hinputs : tx.inputs ≠ []) (hsize : signed.rawSigned.length ≤ 4000000) :
    ∃ msg, deserialize signed.rawSigned = .ok (msg,[]) ∧ tx.Describes b params msg ∧
      msg.txHash.string = signed.id := by
  obtain ⟨unsigned,msg,hunsigned,hbare,hraw,hid⟩ := signTransaction_bare hparams hsign
  refine ⟨msg,?_,?_,hid.symm⟩
  · rw [deserialize_eq_ok_iff hsize,List.append_nil]
    exact ⟨txIn_ne_nil_of_bare hunsigned hbare hinputs,hraw⟩
  · apply (unsignedTx_describes hunsigned).congr
    rw [hbare,unsignedTx_bare hunsigned]

def pairSigned : Except GoError SignedTx :=
  signTransaction pairKey .mainnet (some pairPayment) [segwitOutput,secondOutput] Bitcoin.privWIF

theorem pairSigned_ok : ∃ signed, pairSigned = .ok signed ∧
    signed.rawSigned.length ≤ 4000000 := by
  have hok : pairSigned.toOption.any (fun signed =>
      decide (signed.rawSigned.length ≤ 4000000)) = true := by decide +kernel
  cases hsign : pairSigned with
  | error e =>
    rw [hsign] at hok
    cases hok
  | ok signed =>
    rw [hsign] at hok
    exact ⟨signed,rfl,of_decide_eq_true hok⟩

theorem signTransaction_readBack_segwit :
    ∃ signed msg, pairSigned = .ok signed ∧ deserialize signed.rawSigned = .ok (msg,[]) ∧
      pairPayment.Describes pairKey .mainNet msg ∧ msg.txHash.string = signed.id := by
  obtain ⟨signed,hsign,hsize⟩ := pairSigned_ok
  obtain ⟨msg,hmsg⟩ := signTransaction_readBack rfl hsign (by decide) hsize
  exact ⟨signed,msg,hsign,hmsg⟩

/-- What `Serialize` writes of a `Tx` and what `SignTransaction` writes of it for the same
network read as transactions that differ in nothing but scripts and witnesses. -/
theorem serialize_readBack {s : Bytes} (hparams : network.chaincfgNetwork = .ok params)
    (htx : tx.params = some params) (hs : tx.serialize b = .ok s)
    (hsign : signTransaction b network (some tx) utxos privWIF = .ok signed)
    (hinputs : tx.inputs ≠ []) (hsize : signed.rawSigned.length ≤ 4000000) :
    ∃ msg, deserialize signed.rawSigned = .ok (msg,[]) ∧ deserialize s = .ok (msg.bare,[]) := by
  obtain ⟨unsigned,msg,hunsigned,hbare,hraw,_⟩ := signTransaction_bare hparams hsign
  obtain ⟨params',wire,htx',hwire,hs'⟩ := Tx.serialize_eq_ok hs
  rw [htx,Option.some.injEq] at htx'
  subst htx'
  have hagree : ScriptsAgree b params params := by
    intro address addr addr' haddr haddr'
    rw [haddr] at haddr'
    cases haddr'
    rfl
  have hsame : wire = msg.bare := by
    rw [hbare]
    exact wire_eq_unsignedTx hagree hwire hunsigned
  have hs : s = msg.bare.serialize := by
    rw [hs',← hsame]
    exact (wire.serialize_eq_serializeNoWitness.mpr (Tx.wire_eq_ok hwire).1).symm
  have hne := txIn_ne_nil_of_bare hunsigned hbare hinputs
  refine ⟨msg,?_,?_⟩
  · rw [deserialize_eq_ok_iff hsize,List.append_nil]
    exact ⟨hne,hraw⟩
  · have hshorter : s.length ≤ 4000000 := by
      rw [hs]
      rw [hraw] at hsize
      exact msg.length_serialize_bare.trans hsize
    rw [deserialize_eq_ok_iff hshorter,List.append_nil]
    exact ⟨by simpa [MsgTx.bare] using hne,hs⟩

theorem serialize_readBack_segwit :
    ∃ s signed msg, pairPayment.serialize pairKey = .ok s ∧ pairSigned = .ok signed ∧
      deserialize signed.rawSigned = .ok (msg,[]) ∧ deserialize s = .ok (msg.bare,[]) := by
  obtain ⟨s,hs⟩ := exists_eq_ok (x := pairPayment.serialize pairKey) (by decide +kernel)
  obtain ⟨signed,hsign,hsize⟩ := pairSigned_ok
  obtain ⟨msg,hmsg⟩ := serialize_readBack rfl rfl hs hsign (by decide) hsize
  exact ⟨s,signed,msg,hs,hsign,hmsg⟩

end

end ChainKit.Bitcoin
