import ChainKit.Bitcoin.Signing

/-! Whether the key that a signature shows is the one that the spent script asks for. -/
namespace ChainKit.Bitcoin
open Lib
variable {WIF Address : Type} {b : Btcd WIF Address}

abbrev Hash160 := { bs : Bytes // bs.length = 20 }

def payToPubKeyHashScript (h : Hash160) : Bytes := [0x76,0xa9] ++ addData h.val ++ [0x88,0xac]
def payToWitnessPubKeyHashScript (h : Hash160) : Bytes := 0x00 :: addData h.val
def payToScriptHashScript (h : Hash160) : Bytes := 0xa9 :: addData h.val ++ [0x87]

theorem addData_hash (h : Hash160) : addData h.val = 0x14 :: h.val := by
  rw [addData,h.property]
  rfl

theorem getScriptClass_pubKeyHash (h : Hash160) :
    getScriptClass (payToPubKeyHashScript h) = .pubKeyHash := by
  have hlength := h.property
  have hscript : isPubKeyHashScript (payToPubKeyHashScript h) = true := by
    simp [isPubKeyHashScript,payToPubKeyHashScript,addData_hash,hlength]
  rw [getScriptClass,if_pos hscript]

theorem getScriptClass_scriptHash (h : Hash160) :
    getScriptClass (payToScriptHashScript h) = .scriptHash := by
  have hlength := h.property
  have hnot : ¬isPubKeyHashScript (payToScriptHashScript h) = true := by
    simp [isPubKeyHashScript,payToScriptHashScript,addData_hash,hlength]
  have hscript : isScriptHashScript (payToScriptHashScript h) = true := by
    simp [isScriptHashScript,payToScriptHashScript,addData_hash,hlength]
  rw [getScriptClass,if_neg hnot,if_pos hscript]

theorem getScriptClass_witnessPubKeyHash (h : Hash160) :
    getScriptClass (payToWitnessPubKeyHashScript h) = .witnessV0PubKeyHash := by
  have hlength := h.property
  have hnot : ¬isPubKeyHashScript (payToWitnessPubKeyHashScript h) = true := by
    simp [isPubKeyHashScript,payToWitnessPubKeyHashScript,addData_hash,hlength]
  have hnot' : ¬isScriptHashScript (payToWitnessPubKeyHashScript h) = true := by
    simp [isScriptHashScript,payToWitnessPubKeyHashScript,addData_hash,hlength]
  have hscript : isWitnessPubKeyHashScript (payToWitnessPubKeyHashScript h) = true := by
    simp [isWitnessPubKeyHashScript,payToWitnessPubKeyHashScript,addData_hash,hlength]
  rw [getScriptClass,if_neg hnot,if_neg hnot',if_pos hscript]

/-- A script that pays to the key of `w` under the encoding `enc` of the public key. The script
that a P2SH output commits to is that of the encoding of the WIF. -/
inductive PaysTo (b : Btcd WIF Address) (w : WIF) : Bytes → Bytes → Prop
  | pubKeyHash (enc : Bytes) : PaysTo b w (payToPubKeyHashScript (b.hash160 enc)) enc
  | witnessPubKeyHash (enc : Bytes) :
      PaysTo b w (payToWitnessPubKeyHashScript (b.hash160 enc)) enc
  | scriptHash : PaysTo b w
      (payToScriptHashScript (b.hash160
        (payToWitnessPubKeyHashScript (b.hash160 (b.serializePubKey w)))))
      (b.serializePubKey w)

/-- Read one push of at most seventy-five bytes. -/
def readPush : Bytes → Option (Bytes × Bytes)
  | [] => none
  | n :: rest =>
    if n.toNat ≤ 75 ∧ n.toNat ≤ rest.length then some (rest.take n.toNat,rest.drop n.toNat)
    else none

theorem readPush_addData {data : Bytes} (h : data.length ≤ 75) (rest : Bytes) :
    readPush (addData data ++ rest) = some (data,rest) := by
  have hsize : data.length.toUInt8.toNat = data.length := by
    rw [Nat.toUInt8,UInt8.toNat_ofNat']
    omega
  simp [addData,readPush,hsize,h]

def secondPush (s : Bytes) : Option Bytes := do
  let (_,rest) ← readPush s
  let (key,_) ← readPush rest
  some key

/-- The key of an input has the hash that the script asks for, and for P2SH the redeem script
as well. -/
def keyMatches (b : Btcd WIF Address) (script : Bytes) (ti : TxIn) : Bool :=
  match getScriptClass script with
  | .pubKeyHash => (secondPush ti.signatureScript).any fun key =>
      (b.hash160 key).val = (script.drop 3).take 20
  | .witnessV0PubKeyHash => ti.witness[1]?.any fun key => (b.hash160 key).val = script.drop 2
  | .scriptHash => (readPush ti.signatureScript).any fun (redeem,_) =>
      (b.hash160 redeem).val = (script.drop 2).take 20 ∧
      ti.witness[1]?.any fun key => (b.hash160 key).val = redeem.drop 2
  | .other => false

/-- `SignatureScript` pushes a signature and the compressed key, which it is asked for. -/
structure PushesCompressed (b : Btcd WIF Address) : Prop where
  signatureScript : ∀ msg i script w s, b.signatureScript msg i script w = .ok s →
    ∃ sig, sig.length ≤ 75 ∧ s = addData sig ++ addData (b.serializeCompressed w)
  compressed : ∀ w, (b.serializeCompressed w).length ≤ 75

theorem secondPush_pushes (hpush : PushesCompressed b) (w : WIF) {sig : Bytes}
    (hsig : sig.length ≤ 75) :
    secondPush (addData sig ++ addData (b.serializeCompressed w)) =
      some (b.serializeCompressed w) := by
  have hkey := readPush_addData (hpush.compressed w) []
  rw [List.append_nil] at hkey
  simp [secondPush,readPush_addData hsig,hkey]

theorem readPush_redeemScript (w : WIF) :
    readPush (addData (redeemScript b w)) = some (redeemScript b w,[]) := by
  have hlength : (redeemScript b w).length ≤ 75 := by
    simp [redeemScript,addData,(b.hash160 (b.serializePubKey w)).property]
  have hpush := readPush_addData hlength []
  rwa [List.append_nil] at hpush

section
variable {w : WIF} {fetch : OutPoint → Option TxOut} {i : ℕ} {u : UTXO} {msg msg' : MsgTx}
  {ti : TxIn} {enc : Bytes}

theorem keyMatches_pubKeyHash (hpush : PushesCompressed b)
    (hscript : u.script = payToPubKeyHashScript (b.hash160 enc))
    (hsign : signInput b w fetch i u msg = .ok msg') (hti : msg'.txIn[i]? = some ti) :
    keyMatches b u.script ti = true ↔ b.hash160 (b.serializeCompressed w) = b.hash160 enc := by
  have hclass := getScriptClass_pubKeyHash (b.hash160 enc)
  have hturn := signInput_cases hsign
  simp only [hscript,hclass,reduceCtorEq,true_and,false_and,or_false] at hturn
  obtain ⟨sigScript,hsig,rfl⟩ := hturn
  obtain ⟨sig,hsize,rfl⟩ := hpush.signatureScript _ _ _ _ _ hsig
  obtain ⟨ti',_,rfl⟩ := MsgTx.txIn_setInput.mp hti
  have hhash : ((payToPubKeyHashScript (b.hash160 enc)).drop 3).take 20 =
      (b.hash160 enc).val := by
    simp [payToPubKeyHashScript,addData_hash,(b.hash160 enc).property]
  simp only [keyMatches,hscript,hclass,secondPush_pushes hpush w hsize,hhash]
  simp [Subtype.ext_iff]

theorem keyMatches_witnessPubKeyHash
    (hscript : u.script = payToWitnessPubKeyHashScript (b.hash160 enc))
    (hsign : signInput b w fetch i u msg = .ok msg') (hti : msg'.txIn[i]? = some ti) :
    keyMatches b u.script ti = true ↔ b.hash160 (b.serializeCompressed w) = b.hash160 enc := by
  have hclass := getScriptClass_witnessPubKeyHash (b.hash160 enc)
  have hturn := signInput_cases hsign
  simp only [hscript,hclass,reduceCtorEq,true_and,false_and,false_or,or_false] at hturn
  obtain ⟨sig,_,rfl⟩ := hturn
  obtain ⟨ti',_,rfl⟩ := MsgTx.txIn_setInput.mp hti
  have hhash : (payToWitnessPubKeyHashScript (b.hash160 enc)).drop 2 = (b.hash160 enc).val := by
    simp [payToWitnessPubKeyHashScript,addData_hash]
  simp only [keyMatches,hscript,hclass,hhash]
  simp [Subtype.ext_iff]

theorem keyMatches_scriptHash
    (hscript : u.script = payToScriptHashScript (b.hash160 (redeemScript b w)))
    (hsign : signInput b w fetch i u msg = .ok msg') (hti : msg'.txIn[i]? = some ti) :
    keyMatches b u.script ti = true ↔
      b.hash160 (b.serializeCompressed w) = b.hash160 (b.serializePubKey w) := by
  have hclass := getScriptClass_scriptHash (b.hash160 (redeemScript b w))
  have hturn := signInput_cases hsign
  simp only [hscript,hclass,reduceCtorEq,true_and,false_and,false_or] at hturn
  obtain ⟨sig,_,rfl⟩ := hturn
  obtain ⟨ti',_,rfl⟩ := MsgTx.txIn_setInput.mp hti
  have hhash : ((payToScriptHashScript (b.hash160 (redeemScript b w))).drop 2).take 20 =
      (b.hash160 (redeemScript b w)).val := by
    simp [payToScriptHashScript,addData_hash,(b.hash160 (redeemScript b w)).property]
  have hkey : (redeemScript b w).drop 2 = (b.hash160 (b.serializePubKey w)).val := by
    simp [redeemScript,addData_hash]
  simp only [keyMatches,hscript,hclass,readPush_redeemScript,hhash]
  simp [hkey,Subtype.ext_iff]

/-- In each of the three forms the compressed key has to have the hash of the encoding. -/
theorem keyMatches_signed_iff (hpush : PushesCompressed b) (hpays : PaysTo b w u.script enc)
    (hsign : signInput b w fetch i u msg = .ok msg') (hti : msg'.txIn[i]? = some ti) :
    keyMatches b u.script ti = true ↔ b.hash160 (b.serializeCompressed w) = b.hash160 enc := by
  generalize hscript : u.script = script at hpays
  rw [← hscript]
  cases hpays with
  | pubKeyHash => exact keyMatches_pubKeyHash hpush hscript hsign hti
  | witnessPubKeyHash => exact keyMatches_witnessPubKeyHash hscript hsign hti
  | scriptHash => exact keyMatches_scriptHash hscript hsign hti

end

/-- The key in an input has the hash that the spent script asks for exactly when the script pays
to the compressed encoding: the signatures always show that one, whatever the WIF says, while the
redeem script of P2SH is built from the encoding of the WIF. -/
theorem signTransaction_key_iff {network : BitcoinNetwork} {tx : Tx} {utxos : List UTXO}
    {privWIF : Bytes} {signed : SignedTx} (hpush : PushesCompressed b)
    (hsign : signTransaction b network (some tx) utxos privWIF = .ok signed) :
    ∃ run : SigningRun b network tx utxos privWIF, signed.rawSigned = run.signed.serialize ∧
      ∀ (i : ℕ) (u : UTXO) enc, run.outputs[i]? = some u → PaysTo b run.w u.script enc →
        Set.InjOn b.hash160 {enc,b.serializeCompressed run.w} →
        ∃ ti, run.signed.txIn[i]? = some ti ∧
          (keyMatches b u.script ti = true ↔ enc = b.serializeCompressed run.w) := by
  obtain ⟨run,hraw⟩ := exists_signingRun hsign
  refine ⟨run,hraw,?_⟩
  intro i u enc hu hpays hinj
  obtain ⟨before,after,ti,hturn,hti,hsigned⟩ := run.exists_signed_input hu
  refine ⟨ti,hsigned,?_⟩
  rw [keyMatches_signed_iff hpush hpays hturn.signInput hti]
  constructor
  · intro h
    exact (hinj (by simp) (by simp) h).symm
  · intro h
    rw [h]

theorem pushesCompressed_keyOne : PushesCompressed keyOne := by
  refine ⟨?_,by decide⟩
  intro msg i script w s h
  cases h
  exact ⟨_,by decide,rfl⟩

theorem signTransaction_key_legacy :
    ∃ run : SigningRun keyOne .mainnet payment [legacyOutput] privWIF,
      ∃ ti, run.signed.txIn[0]? = some ti ∧ keyMatches keyOne legacyOutput.script ti = true := by
  obtain ⟨run,_,hkeys⟩ := signTransaction_key_iff pushesCompressed_keyOne
    (signTransaction_payment signedWire_legacy)
  have hu : run.outputs[0]? = some legacyOutput := by
    have houtputs := run.deriveScripts
    rw [← Except.ok.inj run.chaincfgNetwork] at houtputs
    rw [← Except.ok.inj houtputs]
    rfl
  have hpays : PaysTo keyOne run.w legacyOutput.script compressedKey := by
    have hscript : legacyOutput.script = payToPubKeyHashScript (keyOne.hash160 compressedKey) := by
      decide +kernel
    rw [hscript]
    exact .pubKeyHash compressedKey
  obtain ⟨ti,hti,hiff⟩ := hkeys 0 legacyOutput compressedKey hu hpays (by simp [keyOne])
  exact ⟨run,ti,hti,hiff.mpr rfl⟩

def uncompressedKey : Bytes :=
  0x04 ::
    Sha256.bigEndian 32 0x79be667ef9dcbbac55a06295ce870b07029bfcdb2dce28d959f2815b16f81798 ++
    Sha256.bigEndian 32 0x483ada7726a3c4655da4fbfc0e1108a8fd17b448a68554199c47d08ffb10d4b8

/-- The same private key, in the format that asks for the uncompressed encoding. -/
def uncompressedWIF : Bytes := ascii "5HpHagT65TZzG1PH3CSu63k8DbpvD8s5ip4nEB3kEsreAnchuDf"

def uncompressedHash : Hash160 :=
  ⟨Sha256.bigEndian 20 0x91b24bf9f5288532960ac687abb035127b1d28a5,Sha256.length_bigEndian _ _⟩

/-- A signature in DER whose first number needs another byte. -/
def derSignature33 (r s : ℕ) : Bytes :=
  [0x30,0x45,0x02,0x21] ++ Sha256.bigEndian 33 r ++ [0x02,0x20] ++ Sha256.bigEndian 32 s ++ [0x01]

def uncompressedSignature : Bytes :=
  addData (derSignature33 0x9c95caff9829ef1906a0daff8d0500b6fe2e8b50ea531e50aa4fd6089d0a02cb
    0x4fce97483a77b0efca5cea9ccf53c46a9b00571178a64549f18f9c38e49387a8) ++ addData compressedKey

def nestedSignature : Bytes :=
  derSignature33 0xc8e848d3448ae0164fa30b48dc7f1b988a16b0c57f6fed809e91d2b17bf35236
    0x3ff8c79f4a1d7065c3f988e92e995f828d41f8e2c616d352d9bdf348de79e275

/-- The key of `keyOne` with the other WIF, and what btcd computes for the outputs below. -/
def uncompressedOne : Btcd Unit Bytes :=
  { keyOne with
    decodeWIF := fun text =>
      if text = uncompressedWIF then .ok () else .error (.plain "malformed private key")
    serializePubKey := fun _ => uncompressedKey
    hash160 := fun bs =>
      if bs = uncompressedKey then uncompressedHash
      else if bs = payToWitnessPubKeyHashScript uncompressedHash then
        ⟨Sha256.bigEndian 20 0x17743beb429c55c942d2ec703b98c4d57c2df5c6,
          Sha256.length_bigEndian _ _⟩
      else keyOne.hash160 bs
    signatureScript := fun _ _ _ _ => .ok uncompressedSignature
    rawTxInWitnessSignature := fun _ _ _ _ _ _ => .ok nestedSignature }

/-- An output that is locked by the hash of the uncompressed key. -/
def uncompressedOutput : UTXO :=
  { legacyOutput with scriptPubKey := some (payToPubKeyHashScript uncompressedHash) }

/-- An output that is locked by the script that the signer builds for the key. -/
def nestedOutput : UTXO :=
  { legacyOutput with
    scriptPubKey := some (payToScriptHashScript
      (uncompressedOne.hash160 (redeemScript uncompressedOne ()))) }

/-- With an uncompressed WIF the signer signs both outputs of its key, and neither input shows a
key with the hash that is asked for. -/
theorem signTransaction_wrong_key :
    let legacy := paymentWire uncompressedSignature []
    let nested := paymentWire (addData (redeemScript uncompressedOne ()))
      [nestedSignature,compressedKey]
    (signTransaction uncompressedOne .mainnet (some payment) [uncompressedOutput]
        uncompressedWIF = .ok (paymentSigned legacy) ∧
      PaysTo uncompressedOne () uncompressedOutput.script uncompressedKey ∧
      legacy.txIn.map (keyMatches uncompressedOne uncompressedOutput.script) = [false]) ∧
    (signTransaction uncompressedOne .mainnet (some payment) [nestedOutput]
        uncompressedWIF = .ok (paymentSigned nested) ∧
      PaysTo uncompressedOne () nestedOutput.script uncompressedKey ∧
      nested.txIn.map (keyMatches uncompressedOne nestedOutput.script) = [false]) := by
  intro legacy nested
  have hlegacy : signedWire uncompressedOne .mainnet payment [uncompressedOutput]
      uncompressedWIF = .ok legacy := by
    decide +kernel
  have hnested : signedWire uncompressedOne .mainnet payment [nestedOutput]
      uncompressedWIF = .ok nested := by
    decide +kernel
  refine ⟨⟨?_,.pubKeyHash uncompressedKey,by decide +kernel⟩,?_,.scriptHash,by decide +kernel⟩
  · rw [signTransaction,hlegacy]
    rfl
  · rw [signTransaction,hnested]
    rfl

end ChainKit.Bitcoin
