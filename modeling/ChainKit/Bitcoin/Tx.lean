import ChainKit.Bitcoin.Wire
import ChainKit.Lib.Fallible

/-! Building, signing and broadcasting a Bitcoin transaction: the types of the package, the
`metal` provider, which works without a network, and the broadcast of blockchain.info. Texts
are byte strings, as in Go. -/
namespace ChainKit.Bitcoin
open Lib

inductive BitcoinNetwork
  | mainnet
  | testnet3
  | testnet4
  | regtest
  | simnet
  | other (name : String)
  deriving DecidableEq

def BitcoinNetwork.string : BitcoinNetwork → String
  | .mainnet => "mainnet"
  | .testnet3 => "testnet3"
  | .testnet4 => "testnet4"
  | .regtest => "regtest"
  | .simnet => "simnet"
  | .other _ => ""

/-- The network parameters of `chaincfg` that are in use. -/
inductive Params
  | mainNet
  | testNet3
  | regressionNet
  | simNet
  deriving DecidableEq

def BitcoinNetwork.chaincfgNetwork : BitcoinNetwork → Except GoError Params
  | .mainnet => .ok .mainNet
  | .testnet3 => .ok .testNet3
  | .testnet4 => .ok .testNet3
  | .regtest => .ok .regressionNet
  | .simnet => .ok .simNet
  | .other name => .error (.plain ("unknown Bitcoin network: " ++ (other name).string))

/-- What the providers call in btcd and in the standard library and what is not modelled:
keys, signatures, addresses and the texts of some errors. -/
structure Btcd (WIF Address : Type) where
  hexError : Bytes → GoError
  /-- The verb `%q`. -/
  quote : Bytes → String
  decodeWIF : Bytes → Except GoError WIF
  isForNet : WIF → Params → Bool
  /-- The public key as `WIF.SerializePubKey` writes it. -/
  serializePubKey : WIF → Bytes
  /-- The compressed public key of the private key. -/
  serializeCompressed : WIF → Bytes
  hash160 : Bytes → { bs : Bytes // bs.length = 20 }
  decodeAddress : Bytes → Params → Except GoError Address
  payToAddrScript : Address → Except GoError Bytes
  signatureScript : MsgTx → ℕ → Bytes → WIF → Except GoError Bytes
  rawTxInWitnessSignature :
    MsgTx → (OutPoint → Option TxOut) → ℕ → Int64 → Bytes → WIF → Except GoError Bytes
  /-- The name of the class of a script that the signer does not support. -/
  className : Bytes → String

inductive TxState
  | failed
  | pending
  | confirmed
  | unknown
  deriving DecidableEq

structure TxInput where
  previousTxID : Bytes
  outputIndex : UInt32
  deriving DecidableEq

structure TxOutput where
  address : Bytes
  value : Int64
  deriving DecidableEq

/-- A missing `scriptPubKey` is the nil slice. -/
structure UTXO where
  txHash : Bytes
  vout : UInt32
  amount : Int64
  scriptPubKey : Option Bytes
  address : Bytes
  confirmed : Bool
  deriving DecidableEq

/-- The script that is looked at, where nil reads as no bytes. -/
def UTXO.script (u : UTXO) : Bytes := u.scriptPubKey.getD []

structure Tx where
  version : Int32
  inputs : List TxInput
  outputs : List TxOutput
  fee : UInt64
  status : TxState
  params : Option Params
  deriving DecidableEq

structure SignedTx where
  id : Bytes
  version : Int32
  inputs : List TxInput
  outputs : List TxOutput
  rawSigned : Bytes
  fee : UInt64
  status : TxState
  deriving DecidableEq

inductive ScriptClass
  | pubKeyHash
  | scriptHash
  | witnessV0PubKeyHash
  | other
  deriving DecidableEq

def isPubKeyHashScript (s : Bytes) : Bool :=
  s.length = 25 ∧ s.take 3 = [0x76,0xa9,0x14] ∧ s.drop 23 = [0x88,0xac]

def isScriptHashScript (s : Bytes) : Bool :=
  s.length = 23 ∧ s.take 2 = [0xa9,0x14] ∧ s.drop 22 = [0x87]

def isWitnessPubKeyHashScript (s : Bytes) : Bool := s.length = 22 ∧ s.take 2 = [0x00,0x14]

def getScriptClass (s : Bytes) : ScriptClass :=
  if isPubKeyHashScript s then .pubKeyHash
  else if isScriptHashScript s then .scriptHash
  else if isWitnessPubKeyHashScript s then .witnessV0PubKeyHash
  else .other

/-- `ScriptBuilder.AddData` for two to seventy-five bytes. -/
def addData (data : Bytes) : Bytes := data.length.toUInt8 :: data

section
variable {WIF Address : Type} (b : Btcd WIF Address)

/-- One input of a wire transaction that is not signed; `text` introduces an error. -/
def wireInput (text : String) (input : TxInput) : Except GoError TxIn := do
  let hash ← (newHashFromStr b.hexError input.previousTxID).mapError (.wrap text · "")
  .ok (newTxIn ⟨hash,input.outputIndex⟩)

/-- The script that pays to an address, with what its callers make of the two errors. -/
def payToAddress (onDecode onScript : GoError → GoError) (address : Bytes) (params : Params) :
    Except GoError Bytes := do
  let addr ← (b.decodeAddress address params).mapError onDecode
  (b.payToAddrScript addr).mapError onScript

/-- The loops of `Tx.Serialize` that build the wire transaction. -/
def Tx.wire (tx : Tx) (params : Params) : Except GoError MsgTx := do
  let txIn ← tx.inputs.mapM (wireInput b "invalid previous tx id: ")
  let txOut ← tx.outputs.mapM fun output => do
    let pkScript ← payToAddress b
      (.wrap ("invalid output address " ++ b.quote output.address ++ ": ") · "")
      (.wrap ("failed to build scriptPubKey for " ++ b.quote output.address ++ ": ") · "")
      output.address params
    .ok ⟨output.value,pkScript⟩
  .ok ⟨tx.version,txIn,txOut,0⟩

def Tx.serialize (tx : Tx) : Except GoError Bytes :=
  match tx.params with
  | none => .error
    (.plain "Tx.Params must be set to network chaincfg.Params before serializing")
  | some params => do
    let wireTx ← tx.wire b params
    .ok wireTx.serialize

def Tx.hash (tx : Tx) : Except GoError Bytes := do
  let serialized ← (tx.serialize b).mapError (.wrap "failed to serialize transaction: " · "")
  .ok (hashH serialized).string

def createTransaction (network : BitcoinNetwork) (utxos : List UTXO)
    (outputs : List TxOutput) : Except GoError Tx := do
  require (utxos ≠ []) (.plain "no inputs provided")
  require (outputs ≠ []) (.plain "no outputs provided")
  let netParams ← network.chaincfgNetwork
  .ok { version := 2, inputs := utxos.map fun utxo => ⟨utxo.txHash,utxo.vout⟩,
        outputs := outputs, fee := 0, status := .pending, params := some netParams }

/-- The loops of `SignTransaction` that build the wire transaction. -/
def unsignedTx (tx : Tx) (netParams : Params) : Except GoError MsgTx := do
  let txIn ← tx.inputs.mapM (wireInput b "invalid previous transaction ID: ")
  let txOut ← tx.outputs.mapM fun output => do
    let pkScript ← payToAddress b (.wrap "invalid address: " · "") id output.address netParams
    .ok ⟨output.value,pkScript⟩
  .ok ⟨tx.version,txIn,txOut,0⟩

/-- One turn of the loop that fills in a missing script from the address. -/
def deriveScript (netParams : Params) (i : ℕ) (u : UTXO) : Except GoError UTXO :=
  if u.scriptPubKey = none ∧ u.address ≠ [] then do
    let place := "UTXO " ++ toString i ++ ": "
    let script ← payToAddress b
      (.wrap (place ++ "cannot derive ScriptPubKey from address " ++ b.quote u.address ++
        ": ") · "")
      (.wrap (place ++ "failed to build ScriptPubKey for " ++ b.quote u.address ++ ": ") · "")
      u.address netParams
    .ok { u with scriptPubKey := some script }
  else .ok u

def deriveScripts (netParams : Params) : ℕ → List UTXO → Except GoError (List UTXO)
  | _,[] => .ok []
  | i,u :: rest => do
    let u ← deriveScript b netParams i u
    let rest ← deriveScripts netParams (i+1) rest
    .ok (u :: rest)

/-- The map handed to `NewMultiPrevOutFetcher`. -/
def prevOuts (msg : MsgTx) (utxos : List UTXO) : OutPoint → Option TxOut :=
  (msg.txIn.zip utxos).foldl
    (fun m p => Function.update m p.1.previousOutPoint (some ⟨p.2.amount,p.2.script⟩))
    (fun _ => none)

/-- `txscript.WitnessSignature` with a compressed key. -/
def witnessSignature (msg : MsgTx) (fetch : OutPoint → Option TxOut) (i : ℕ) (amt : Int64)
    (subscript : Bytes) (w : WIF) : Except GoError (List Bytes) := do
  let sig ← b.rawTxInWitnessSignature msg fetch i amt subscript w
  .ok [sig,b.serializeCompressed w]

/-- The witness program of a key, which a P2SH input wraps. -/
def redeemScript (w : WIF) : Bytes := 0x00 :: addData (b.hash160 (b.serializePubKey w)).val

/-- One turn of the signing loop. -/
def signInput (w : WIF) (fetch : OutPoint → Option TxOut) (i : ℕ) (utxo : UTXO) (msg : MsgTx) :
    Except GoError MsgTx :=
  match getScriptClass utxo.script with
  | .pubKeyHash => do
    let sigScript ← (b.signatureScript msg i utxo.script w).mapError
      (.wrap ("failed to sign input " ++ toString i ++ ": ") · "")
    .ok (msg.setInput i fun ti => { ti with signatureScript := sigScript })
  | .witnessV0PubKeyHash => do
    let witness ← (witnessSignature b msg fetch i utxo.amount utxo.script w).mapError
      (.wrap ("failed to create witness signature for input " ++ toString i ++ ": ") · "")
    .ok (msg.setInput i fun ti => { ti with witness := witness })
  | .scriptHash => do
    let witness ← (witnessSignature b msg fetch i utxo.amount (redeemScript b w) w).mapError
      (.wrap ("failed to create witness signature for input " ++ toString i ++ ": ") · "")
    .ok (msg.setInput i fun ti =>
      { ti with signatureScript := addData (redeemScript b w), witness := witness })
  | .other => .error (.plain ("unsupported script type for input " ++ toString i ++ ": " ++
      b.className utxo.script))

def signInputs (w : WIF) (fetch : OutPoint → Option TxOut) :
    ℕ → List UTXO → MsgTx → Except GoError MsgTx
  | _,[],msg => .ok msg
  | i,utxo :: rest,msg => do
    let msg ← signInput b w fetch i utxo msg
    signInputs w fetch (i+1) rest msg

/-- The wire transaction that `SignTransaction` ends with. -/
def signedWire (network : BitcoinNetwork) (tx : Tx) (utxos : List UTXO) (privWIF : Bytes) :
    Except GoError MsgTx := do
  require (utxos.length = tx.inputs.length)
    (.plain ("mismatched inputs and UTXOs: expected " ++ toString tx.inputs.length ++
      " inputs, got " ++ toString utxos.length ++ " UTXOs"))
  let w ← (b.decodeWIF privWIF).mapError (.wrap "malformed private key: " · "")
  let netParams ← network.chaincfgNetwork
  require (b.isForNet w netParams) (.plain "private key is not for the specified network")
  let wireTx ← unsignedTx b tx netParams
  let utxos ← deriveScripts b netParams 0 utxos
  signInputs b w (prevOuts wireTx utxos) 0 utxos wireTx

def signTransaction (network : BitcoinNetwork) (tx : Option Tx) (utxos : List UTXO)
    (privWIF : Bytes) : Except GoError SignedTx :=
  match tx with
  | none => .error (.plain "nil pointer: transaction cannot be nil")
  | some tx => do
    let wireTx ← signedWire b network tx utxos privWIF
    .ok { id := wireTx.txHash.string, version := tx.version, inputs := tx.inputs,
          outputs := tx.outputs, rawSigned := wireTx.serialize, fee := tx.fee,
          status := tx.status }

end

/-- `computeTxID` of the blockchain.info provider. -/
def computeTxID (rawTx : Bytes) : Bytes :=
  hexEncode (Sha256.sum256 (Sha256.sum256 rawTx)).reverse

/-- How the request of `PushTx` ends. -/
inductive PushReply
  | noRequest (e : GoError)
  | noResponse (e : GoError)
  | noBody (e : GoError)
  | response (statusCode : ℕ) (body : Bytes)

/-- `blockchainCom.PushTx`, with `text` for the conversion of a body to a string. -/
def pushTx (text : Bytes → String) (reply : PushReply) (rawTx : Bytes) : Except GoError Bytes :=
  match reply with
  | .noRequest e => .error (.wrap "create request: " e "")
  | .noResponse e => .error (.wrap "broadcast transaction: " e "")
  | .noBody e => .error (.wrap "read response body: " e "")
  | .response statusCode body =>
    if statusCode ≠ 200 then .error (.plain ("HTTP " ++ toString statusCode ++ ": " ++ text body))
    else if ascii "Failed" <+: trimSpace body then
      .error (.plain ("transaction rejected by BlockchainCom: " ++ text (trimSpace body)))
    else .ok (computeTxID rawTx)

end ChainKit.Bitcoin
