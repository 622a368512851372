import ChainKit.Bitcoin.TxId
import ChainKit.Lib.Keyed

/-! Which output each input of a transaction is signed with: the turns of the signing loop. -/
namespace ChainKit.Bitcoin
open Lib
variable {WIF Address : Type} {b : Btcd WIF Address}

def UTXO.outPoint (hexError : Bytes → GoError) (u : UTXO) : Except GoError OutPoint := do
  let hash ← newHashFromStr hexError u.txHash
  .ok ⟨hash,u.vout⟩

def TxInput.outPoint (hexError : Bytes → GoError) (input : TxInput) : Except GoError OutPoint := do
  let hash ← newHashFromStr hexError input.previousTxID
  .ok ⟨hash,input.outputIndex⟩

theorem wireInput_eq_ok {text : String} {input : TxInput} {ti : TxIn} :
    wireInput b text input = .ok ti ↔
      ∃ outPoint, input.outPoint b.hexError = .ok outPoint ∧ ti = newTxIn outPoint := by
  simp only [wireInput,TxInput.outPoint,bind_eq_ok,mapError_eq_ok,Except.ok.injEq]
  constructor
  · rintro ⟨hash,hhash,rfl⟩
    exact ⟨_,⟨hash,hhash,rfl⟩,rfl⟩
  · rintro ⟨_,⟨hash,hhash,rfl⟩,rfl⟩
    exact ⟨hash,hhash,rfl⟩

theorem unsignedTx_outPoints {tx : Tx} {params : Params} {msg : MsgTx}
    (h : unsignedTx b tx params = .ok msg) :
    tx.inputs.map (·.outPoint b.hexError) = msg.txIn.map (.ok ·.previousOutPoint) := by
  simp only [unsignedTx,bind_eq_ok] at h
  obtain ⟨txIn,htxIn,txOut,_,hmsg⟩ := h
  cases hmsg
  refine map_eq_of_mapM ?_ htxIn
  intro input ti hti
  obtain ⟨outPoint,hpoint,rfl⟩ := wireInput_eq_ok.mp hti
  exact hpoint

theorem MsgTx.txIn_setInput {msg : MsgTx} {i : ℕ} {f : TxIn → TxIn} {ti : TxIn} :
    (msg.setInput i f).txIn[i]? = some ti ↔ ∃ ti', msg.txIn[i]? = some ti' ∧ f ti' = ti := by
  rw [MsgTx.setInput,List.getElem?_modify_eq]
  exact Option.map_eq_some_iff

/-- What a turn of the signing loop does, by the class of the script. -/
theorem signInput_cases {w : WIF} {fetch : OutPoint → Option TxOut} {i : ℕ} {u : UTXO}
    {msg msg' : MsgTx} (h : signInput b w fetch i u msg = .ok msg') :
    (getScriptClass u.script = .pubKeyHash ∧ ∃ sigScript,
      b.signatureScript msg i u.script w = .ok sigScript ∧
      msg' = msg.setInput i fun ti => { ti with signatureScript := sigScript }) ∨
    (getScriptClass u.script = .witnessV0PubKeyHash ∧ ∃ sig,
      b.rawTxInWitnessSignature msg fetch i u.amount u.script w = .ok sig ∧
      msg' = msg.setInput i fun ti => { ti with witness := [sig,b.serializeCompressed w] }) ∨
    (getScriptClass u.script = .scriptHash ∧ ∃ sig,
      b.rawTxInWitnessSignature msg fetch i u.amount (redeemScript b w) w = .ok sig ∧
      msg' = msg.setInput i fun ti => { ti with
        signatureScript := addData (redeemScript b w),
        witness := [sig,b.serializeCompressed w] }) := by
  unfold signInput at h
  split at h
  · rename_i hclass
    simp only [bind_eq_ok,mapError_eq_ok,Except.ok.injEq] at h
    obtain ⟨sigScript,hsig,rfl⟩ := h
    exact .inl ⟨hclass,sigScript,hsig,rfl⟩
  · rename_i hclass
    simp only [bind_eq_ok,mapError_eq_ok,witnessSignature,Except.ok.injEq] at h
    obtain ⟨_,⟨sig,hsig,rfl⟩,rfl⟩ := h
    exact .inr (.inl ⟨hclass,sig,hsig,rfl⟩)
  · rename_i hclass
    simp only [bind_eq_ok,mapError_eq_ok,witnessSignature,Except.ok.injEq] at h
    obtain ⟨_,⟨sig,hsig,rfl⟩,rfl⟩ := h
    exact .inr (.inr ⟨hclass,sig,hsig,rfl⟩)
  · cases h

theorem signInput_setInput {w : WIF} {fetch : OutPoint → Option TxOut} {i : ℕ} {u : UTXO}
    {msg msg' : MsgTx} (h : signInput b w fetch i u msg = .ok msg') :
    ∃ f, msg' = msg.setInput i f ∧ ∀ ti, (f ti).previousOutPoint = ti.previousOutPoint := by
  obtain ⟨_,_,_,rfl⟩ | ⟨_,_,_,rfl⟩ | ⟨_,_,_,rfl⟩ := signInput_cases h
  · exact ⟨_,rfl,fun _ => rfl⟩
  · exact ⟨_,rfl,fun _ => rfl⟩
  · exact ⟨_,rfl,fun _ => rfl⟩

/-- The loop that has come to position `i` with `msg` makes a turn for position `j` in which it
signs `before` with the output `u` and goes on with `after`. -/
inductive SignTurn (b : Btcd WIF Address) (w : WIF) (fetch : OutPoint → Option TxOut) :
    ℕ → List UTXO → MsgTx → ℕ → UTXO → MsgTx → MsgTx → Prop
  | here {i u rest msg msg'} (h : signInput b w fetch i u msg = .ok msg') :
      SignTurn b w fetch i (u :: rest) msg i u msg msg'
  | later {i v rest msg msg' j u before after} (h : signInput b w fetch i v msg = .ok msg')
      (hrest : SignTurn b w fetch (i+1) rest msg' j u before after) :
      SignTurn b w fetch i (v :: rest) msg j u before after

section
variable {w : WIF} {fetch : OutPoint → Option TxOut} {i j : ℕ} {utxos : List UTXO} {u : UTXO}
  {msg msg' before after : MsgTx}

namespace SignTurn

theorem getElem? (h : SignTurn b w fetch i utxos msg j u before after) :
    ∃ k, j = i+k ∧ utxos[k]? = some u := by
  induction h with
  | here _ => exact ⟨0,rfl,rfl⟩
  | later _ _ ih =>
    obtain ⟨k,hj,hu⟩ := ih
    exact ⟨k+1,by omega,hu⟩

theorem signInput (h : SignTurn b w fetch i utxos msg j u before after) :
    signInput b w fetch j u before = .ok after := by
  induction h with
  | here h => exact h
  | later _ _ ih => exact ih

theorem input_before (h : SignTurn b w fetch i utxos msg j u before after) :
    before.txIn[j]? = msg.txIn[j]? := by
  induction h with
  | here _ => rfl
  | later hturn hrest ih =>
    obtain ⟨k,hj,_⟩ := hrest.getElem?
    obtain ⟨f,rfl,_⟩ := signInput_setInput hturn
    rw [ih,MsgTx.setInput,List.getElem?_modify_ne _ _ (by omega)]

end SignTurn

theorem signInputs_earlier (h : signInputs b w fetch i utxos msg = .ok msg') (hj : j < i) :
    msg'.txIn[j]? = msg.txIn[j]? := by
  induction utxos generalizing i msg with
  | nil =>
    cases h
    rfl
  | cons u rest ih =>
    simp only [signInputs,bind_eq_ok] at h
    obtain ⟨signed,hsigned,hrest⟩ := h
    obtain ⟨f,rfl,_⟩ := signInput_setInput hsigned
    rw [ih hrest (by omega),MsgTx.setInput,List.getElem?_modify_ne _ _ (by omega)]

/-- A loop that succeeds makes a turn for each output, and what that turn makes of its input
stays. -/
theorem signInputs_turn {k : ℕ} (h : signInputs b w fetch i utxos msg = .ok msg')
    (hu : utxos[k]? = some u) : ∃ before after,
      SignTurn b w fetch i utxos msg (i+k) u before after ∧
      msg'.txIn[i+k]? = after.txIn[i+k]? := by
  induction utxos generalizing i msg k with
  | nil => simp at hu
  | cons v rest ih =>
    simp only [signInputs,bind_eq_ok] at h
    obtain ⟨signed,hsigned,hrest⟩ := h
    cases k with
    | zero =>
      rw [List.getElem?_cons_zero] at hu
      cases hu
      exact ⟨msg,signed,.here hsigned,signInputs_earlier hrest (by omega)⟩
    | succ k =>
      obtain ⟨before,after,hturn,hkept⟩ := ih hrest hu
      rw [show i+(k+1) = i+1+k by omega]
      exact ⟨before,after,.later hsigned hturn,hkept⟩

end

/-- The values that a run of `SignTransaction` without an error goes through. -/
structure SigningRun (b : Btcd WIF Address) (network : BitcoinNetwork) (tx : Tx)
    (utxos : List UTXO) (privWIF : Bytes) where
  w : WIF
  netParams : Params
  wireTx : MsgTx
  outputs : List UTXO
  signed : MsgTx
  sameLength : utxos.length = tx.inputs.length
  decodeWIF : b.decodeWIF privWIF = .ok w
  chaincfgNetwork : network.chaincfgNetwork = .ok netParams
  unsignedTx : unsignedTx b tx netParams = .ok wireTx
  deriveScripts : deriveScripts b netParams 0 utxos = .ok outputs
  signInputs : signInputs b w (prevOuts wireTx outputs) 0 outputs wireTx = .ok signed

section
variable {network : BitcoinNetwork} {tx : Tx} {utxos : List UTXO} {privWIF : Bytes}

theorem exists_signingRun {signed : SignedTx}
    (h : signTransaction b network (some tx) utxos privWIF = .ok signed) :
    ∃ run : SigningRun b network tx utxos privWIF, signed.rawSigned = run.signed.serialize := by
  obtain ⟨msg,hmsg,_,hraw⟩ := signTransaction_eq_ok h
  simp only [signedWire,bind_eq_ok,mapError_eq_ok,require_eq_ok] at hmsg
  obtain ⟨_,hlength,w,hw,params,hparams,_,_,wireTx,hwire,outputs,houtputs,hsign⟩ := hmsg
  exact ⟨⟨w,params,wireTx,outputs,msg,hlength,hw,hparams,hwire,houtputs,hsign⟩,hraw⟩

namespace SigningRun
variable (run : SigningRun b network tx utxos privWIF)

def Turn (i : ℕ) (u : UTXO) (before after : MsgTx) : Prop :=
  SignTurn b run.w (prevOuts run.wireTx run.outputs) 0 run.outputs run.wireTx i u before after

/-- Input `i` is signed with the data of the output that it spends, in the arguments of the
signature and in the map of the outputs. -/
def Matched (i : ℕ) : Prop :=
  ∃ input u before after outPoint, tx.inputs[i]? = some input ∧ run.Turn i u before after ∧
    input.outPoint b.hexError = .ok outPoint ∧ u.outPoint b.hexError = .ok outPoint ∧
    prevOuts run.wireTx run.outputs outPoint = some ⟨u.amount,u.script⟩

theorem exists_turn_iff {i : ℕ} {u : UTXO} :
    (∃ before after, run.Turn i u before after) ↔ run.outputs[i]? = some u := by
  constructor
  · rintro ⟨before,after,hturn⟩
    obtain ⟨k,hi,hu⟩ := hturn.getElem?
    rw [Nat.zero_add] at hi
    rwa [hi]
  · intro hu
    obtain ⟨before,after,hturn,_⟩ := signInputs_turn run.signInputs hu
    rw [Nat.zero_add] at hturn
    exact ⟨before,after,hturn⟩

theorem length_outputs : run.outputs.length = tx.inputs.length :=
  (length_of_deriveScripts run.deriveScripts).trans run.sameLength

theorem length_txIn : run.wireTx.txIn.length = tx.inputs.length :=
  (unsignedTx_eq_ok run.unsignedTx).2

theorem exists_signed_input {i : ℕ} {u : UTXO} (hu : run.outputs[i]? = some u) :
    ∃ before after ti, run.Turn i u before after ∧ after.txIn[i]? = some ti ∧
      run.signed.txIn[i]? = some ti := by
  obtain ⟨before,after,hturn,hkept⟩ := signInputs_turn run.signInputs hu
  rw [Nat.zero_add] at hturn hkept
  have hi : i < run.wireTx.txIn.length := by
    have hlt := (List.getElem?_eq_some_iff.mp hu).1
    rw [run.length_outputs] at hlt
    rwa [run.length_txIn]
  have hbefore : before.txIn[i]? = some run.wireTx.txIn[i] := by
    rw [hturn.input_before]
    exact List.getElem?_eq_getElem hi
  obtain ⟨f,hafter,_⟩ := signInput_setInput hturn.signInput
  have hti : after.txIn[i]? = some (f run.wireTx.txIn[i]) := by
    rw [hafter,MsgTx.txIn_setInput]
    exact ⟨_,hbefore,rfl⟩
  exact ⟨before,after,_,hturn,hti,hkept.trans hti⟩

end SigningRun

end

theorem deriveScript_outPoint {params : Params} {i : ℕ} {u u' : UTXO}
    (h : deriveScript b params i u = .ok u') : u'.outPoint b.hexError = u.outPoint b.hexError := by
  unfold deriveScript at h
  split_ifs at h
  · simp only [bind_eq_ok,Except.ok.injEq] at h
    obtain ⟨script,_,rfl⟩ := h
    rfl
  · cases h
    rfl

theorem deriveScripts_outPoints {params : Params} {i : ℕ} {utxos utxos' : List UTXO}
    (h : deriveScripts b params i utxos = .ok utxos') :
    utxos'.map (·.outPoint b.hexError) = utxos.map (·.outPoint b.hexError) := by
  induction utxos generalizing i utxos' with
  | nil =>
    cases h
    rfl
  | cons u rest ih =>
    simp only [deriveScripts,bind_eq_ok] at h
    obtain ⟨u',hu,rest',hrest,hutxos⟩ := h
    cases hutxos
    rw [List.map_cons,List.map_cons,ih hrest,deriveScript_outPoint hu]

/-- With distinct outpoints the map holds for each input the output at its position. -/
theorem prevOuts_of_nodup {msg : MsgTx} {utxos : List UTXO} {i : ℕ} {ti : TxIn} {u : UTXO}
    (hlength : msg.txIn.length ≤ utxos.length)
    (hdistinct : (msg.txIn.map (·.previousOutPoint)).Nodup) (hti : msg.txIn[i]? = some ti)
    (hu : utxos[i]? = some u) :
    prevOuts msg utxos ti.previousOutPoint = some ⟨u.amount,u.script⟩ := by
  have hmem : (ti,u) ∈ msg.txIn.zip utxos := by
    have hpair : (msg.txIn.zip utxos)[i]? = some (ti,u) := List.getElem?_zip_eq_some.mpr ⟨hti,hu⟩
    exact List.mem_of_getElem? hpair
  have hkeys : ((msg.txIn.zip utxos).map (·.1.previousOutPoint)).Nodup := by
    have hfirst := congrArg (List.map (·.previousOutPoint)) (List.map_fst_zip hlength)
    rw [List.map_map] at hfirst
    rw [← hfirst] at hdistinct
    exact hdistinct
  exact fill_of_mem (fun p : TxIn × UTXO => p.1.previousOutPoint)
    (fun p => some (TxOut.mk p.2.amount p.2.script)) hkeys _ hmem

/-- If no outpoint is spent twice, an input is matched exactly when the output at its position has
its outpoint. -/
theorem SigningRun.matched_iff {network : BitcoinNetwork} {tx : Tx} {utxos : List UTXO}
    {privWIF : Bytes} (run : SigningRun b network tx utxos privWIF)
    (hdistinct : (tx.inputs.map (·.outPoint b.hexError)).Nodup) {i : ℕ}
    (hi : i < tx.inputs.length) :
    run.Matched i ↔ (run.outputs.map (·.outPoint b.hexError))[i]? =
      (tx.inputs.map (·.outPoint b.hexError))[i]? := by
  constructor
  · rintro ⟨input,u,before,after,outPoint,hinput,hturn,hpoint,hpoint',_⟩
    have hu := run.exists_turn_iff.mp ⟨before,after,hturn⟩
    simp [hinput,hu,hpoint,hpoint']
  · intro hpoint
    have houtputs := run.length_outputs
    have hwires := run.length_txIn
    have hinputs := unsignedTx_outPoints run.unsignedTx
    have hu : run.outputs[i]? = some run.outputs[i] := List.getElem?_eq_getElem (by omega)
    have hinput : tx.inputs[i]? = some tx.inputs[i] := List.getElem?_eq_getElem hi
    obtain ⟨before,after,hturn⟩ := run.exists_turn_iff.mpr hu
    have hwire := congrArg (·[i]?) hinputs
    simp only [List.getElem?_map,hu,hinput,Option.map_some,Option.some.injEq] at hpoint hwire
    obtain ⟨ti,hti,htipoint⟩ := Option.map_eq_some_iff.mp hwire.symm
    have hnodup : (run.wireTx.txIn.map (·.previousOutPoint)).Nodup := by
      rw [hinputs] at hdistinct
      exact List.Nodup.of_map (Except.ok : OutPoint → Except GoError OutPoint)
        (by rwa [List.map_map])
    exact ⟨_,_,before,after,ti.previousOutPoint,hinput,hturn,htipoint.symm,
      hpoint.trans htipoint.symm,prevOuts_of_nodup (by omega) hnodup hti hu⟩

/-- Every input is signed with the data of the output that it spends, and no two of them spend
the same one, exactly when the caller lists the outputs in the order of the inputs and names no
outpoint twice: nothing but the number of outputs is checked. -/
theorem signTransaction_matched_iff {network : BitcoinNetwork} {tx : Tx} {utxos : List UTXO}
    {privWIF : Bytes} {signed : SignedTx}
    (hsign : signTransaction b network (some tx) utxos privWIF = .ok signed) :
    ∃ run : SigningRun b network tx utxos privWIF, signed.rawSigned = run.signed.serialize ∧
      ((∀ i < tx.inputs.length, run.Matched i) ∧
          (tx.inputs.map (·.outPoint b.hexError)).Nodup ↔
        utxos.map (·.outPoint b.hexError) = tx.inputs.map (·.outPoint b.hexError) ∧
          (tx.inputs.map (·.outPoint b.hexError)).Nodup) := by
  obtain ⟨run,hraw⟩ := exists_signingRun hsign
  refine ⟨run,hraw,and_congr_left fun hdistinct => ?_⟩
  rw [← deriveScripts_outPoints run.deriveScripts]
  constructor
  · intro h
    apply List.ext_getElem?
    intro i
    by_cases hi : i < tx.inputs.length
    · exact (run.matched_iff hdistinct hi).mp (h i hi)
    · have houtputs := run.length_outputs
      simp only [List.getElem?_map]
      rw [List.getElem?_eq_none (by omega),List.getElem?_eq_none (by omega)]
      rfl
  · intro h i hi
    exact (run.matched_iff hdistinct hi).mpr (by rw [h])

def secondOutput : UTXO :=
  { segwitOutput with
    txHash := idText 0xa1075db55d416d3ca199f55b6084e2115b9345e16c5cf302fc80e9d5fbf5d48d
    amount := 120000 }

def pairPayment : Tx :=
  { payment with
    inputs := [⟨segwitOutput.txHash,0⟩,⟨secondOutput.txHash,0⟩]
    outputs := [⟨segwitAddress,210000⟩] }

/-- The signatures of the payment by input and amount. -/
def pairSignature (i : ℕ) (amount : Int64) : Bytes :=
  if i = 0 ∧ amount = 100000 then
    derSignature 0x0b938bcce874450e5fbe6f898a1b11bd5b5781c32c550e254a34b26d4b370cc0
      0x6c85dc864aec266f1aafc652f633b9f6342cfc0ac051a564ca5b2ac3fb3f3fe7
  else if i = 0 then
    derSignature 0x0bf9483496b3ccb97a8eb19ac07c7d822c683a26a3cfa85eda5ba17f6853ac55
      0x1a339e4900e7ba602d5bf7b745e20b5ff122f71f1d2087a5ae2eb933ee22a909
  else if amount = 120000 then
    derSignature 0x51902f10a0ce5633859739822ac42cdf21601792c9bc3be11e6fdfe6af605e62
      0x1ab93fd25525d6adfd00feea98d967a3feafe7e8e365753a7cb0590db76d5b76
  else
    derSignature 0x4cb9bf37730dfbd0080d91f826b8ff4d1f2701fee48159e041f8a41282ce3072
      0x5139651b4a46f46b770232fa1f707219424df85a2b3f71d4bb7cf1b638ea90c0

def pairKey : Btcd Unit Bytes :=
  { keyOne with rawTxInWitnessSignature := fun _ _ i amount _ _ => .ok (pairSignature i amount) }

theorem signTransaction_matched_pair :
    ∃ run : SigningRun pairKey .mainnet pairPayment [segwitOutput,secondOutput] privWIF,
      ∀ i < 2, run.Matched i := by
  have hok : (signTransaction pairKey .mainnet (some pairPayment) [segwitOutput,secondOutput]
      privWIF).toOption.isSome = true := by
    decide +kernel
  obtain ⟨signed,hsign⟩ := exists_eq_ok hok
  obtain ⟨run,_,hiff⟩ := signTransaction_matched_iff hsign
  exact ⟨run,(hiff.mpr (by decide +kernel)).1⟩

/-- With the outputs in the other order there is no error, and the first input is signed with the
amount of the second output. -/
theorem signTransaction_swapped :
    (signTransaction pairKey .mainnet (some pairPayment) [secondOutput,segwitOutput]
      privWIF).toOption.isSome = true ∧
    ∃ run : SigningRun pairKey .mainnet pairPayment [secondOutput,segwitOutput] privWIF,
      ∃ input u before after, pairPayment.inputs[0]? = some input ∧ run.Turn 0 u before after ∧
        u.amount = 120000 ∧ u.outPoint pairKey.hexError ≠ input.outPoint pairKey.hexError := by
  have hok : (signTransaction pairKey .mainnet (some pairPayment) [secondOutput,segwitOutput]
      privWIF).toOption.isSome = true := by
    decide +kernel
  obtain ⟨signed,hsign⟩ := exists_eq_ok hok
  obtain ⟨run,_⟩ := exists_signingRun hsign
  have hderived : deriveScripts pairKey .mainNet 0 [secondOutput,segwitOutput] =
      .ok [{ secondOutput with scriptPubKey := some segwitScript },
        { segwitOutput with scriptPubKey := some segwitScript }] := by
    decide +kernel
  have houtputs := run.deriveScripts
  rw [← Except.ok.inj run.chaincfgNetwork,hderived] at houtputs
  have hu : run.outputs[0]? = some { secondOutput with scriptPubKey := some segwitScript } := by
    rw [← Except.ok.inj houtputs]
    rfl
  obtain ⟨before,after,hturn⟩ := run.exists_turn_iff.mpr hu
  exact ⟨hok,run,_,_,before,after,rfl,hturn,rfl,by decide +kernel⟩

end ChainKit.Bitcoin
