import ChainKit.Errors
import ChainKit.Lib.Sha256

/-! Bitcoin transactions on the wire, as the vendored btcd packages write and hash them. -/
namespace ChainKit.Bitcoin
open Lib

def littleEndian : ℕ → ℕ → Bytes
  | 0,_ => []
  | n+1,x => (x%256).toUInt8 :: littleEndian n (x/256)

@[simp] theorem length_littleEndian (n x : ℕ) : (littleEndian n x).length = n := by
  induction n generalizing x with
  | zero => rfl
  | succ n ih => simp [littleEndian,ih]

def writeVarInt (val : ℕ) : Bytes :=
  if val < 0xfd then littleEndian 1 val
  else if val ≤ 0xffff then 0xfd :: littleEndian 2 val
  else if val ≤ 0xffffffff then 0xfe :: littleEndian 4 val
  else 0xff :: littleEndian 8 val

def writeVarBytes (bs : Bytes) : Bytes := writeVarInt bs.length ++ bs

/-- `chainhash.Hash`, in the order in which it is hashed and written. -/
abbrev Hash := { bs : Bytes // bs.length = 32 }

def hashH (bs : Bytes) : Hash := ⟨Sha256.sum256 bs,Sha256.length_sum256 bs⟩
def doubleHashH (bs : Bytes) : Hash := hashH (hashH bs).val

/-- The hexadecimal text of a hash shows its bytes in reverse. -/
def Hash.string (h : Hash) : Bytes := hexEncode h.val.reverse

theorem Hash.string_injective : Function.Injective Hash.string := by
  intro h h' heq
  exact Subtype.ext (List.reverse_injective (hexEncode_injective heq))

def ErrHashStrSize : GoError := .plain "max hash string length is 64 bytes"

/-- The digits that `chainhash.Decode` reads: an odd number gets a leading zero. -/
def evenDigits (src : Bytes) : Bytes := if src.length%2 = 0 then src else 0x30 :: src

theorem length_of_evenDigits {src bs : Bytes} (hsize : ¬64 < src.length)
    (h : hexDecode (evenDigits src) = some bs) : bs.length ≤ 32 := by
  have hlength := length_of_hexDecode h
  have heven : (evenDigits src).length ≤ 64 := by
    unfold evenDigits
    split_ifs <;> grind
  omega

/-- A shorter text is filled with zeros at the end of the hash. `hexError` is the error of
`hex.Decode`. -/
def newHashFromStr (hexError : Bytes → GoError) (src : Bytes) : Except GoError Hash :=
  if hsize : 64 < src.length then .error ErrHashStrSize
  else match hdecode : hexDecode (evenDigits src) with
    | none => .error (hexError (evenDigits src))
    | some bs => .ok ⟨bs.reverse ++ List.replicate (32-bs.length) 0,by
        have := length_of_evenDigits hsize hdecode
        simp
        omega⟩

structure OutPoint where
  hash : Hash
  index : UInt32
  deriving DecidableEq

structure TxIn where
  previousOutPoint : OutPoint
  signatureScript : Bytes
  witness : List Bytes
  sequence : UInt32
  deriving DecidableEq

structure TxOut where
  value : Int64
  pkScript : Bytes
  deriving DecidableEq

structure MsgTx where
  version : Int32
  txIn : List TxIn
  txOut : List TxOut
  lockTime : UInt32
  deriving DecidableEq

/-- `wire.NewTxIn` without a script and a witness. -/
def newTxIn (prevOut : OutPoint) : TxIn := ⟨prevOut,[],[],0xffffffff⟩

namespace MsgTx

def hasWitness (msg : MsgTx) : Bool := msg.txIn.any fun ti => !ti.witness.isEmpty

def writeTxIn (ti : TxIn) : Bytes :=
  ti.previousOutPoint.hash.val ++ littleEndian 4 ti.previousOutPoint.index.toNat ++
    writeVarBytes ti.signatureScript ++ littleEndian 4 ti.sequence.toNat

def writeTxOut (txo : TxOut) : Bytes :=
  littleEndian 8 txo.value.toUInt64.toNat ++ writeVarBytes txo.pkScript

def writeTxWitness (wit : List Bytes) : Bytes :=
  writeVarInt wit.length ++ wit.flatMap writeVarBytes

/-- `btcEncode`, where `witnessEncoding` asks for the witnesses that there are. -/
def btcEncode (msg : MsgTx) (witnessEncoding : Bool) : Bytes :=
  let doWitness := witnessEncoding && msg.hasWitness
  littleEndian 4 msg.version.toUInt32.toNat ++
    (if doWitness then [0x00,0x01] else []) ++
    writeVarInt msg.txIn.length ++ msg.txIn.flatMap writeTxIn ++
    writeVarInt msg.txOut.length ++ msg.txOut.flatMap writeTxOut ++
    (if doWitness then msg.txIn.flatMap (writeTxWitness ·.witness) else []) ++
    littleEndian 4 msg.lockTime.toNat

def serialize (msg : MsgTx) : Bytes := msg.btcEncode true
def serializeNoWitness (msg : MsgTx) : Bytes := msg.btcEncode false

def txHash (msg : MsgTx) : Hash := doubleHashH msg.serializeNoWitness

/-- Replace the input at a position, as an assignment to a field of `TxIn[i]` does. -/
def setInput (msg : MsgTx) (i : ℕ) (f : TxIn → TxIn) : MsgTx :=
  { msg with txIn := msg.txIn.modify i f }

/-- The transaction that its id commits to. -/
def stripped (msg : MsgTx) : MsgTx :=
  { msg with txIn := msg.txIn.map fun ti => { ti with witness := [] } }

/-- The two forms differ exactly by the witnesses: their marker alone makes one longer. -/
theorem serialize_eq_serializeNoWitness (msg : MsgTx) :
    msg.serialize = msg.serializeNoWitness ↔ msg.hasWitness = false := by
  constructor
  · intro h
    by_contra hwitness
    rw [Bool.not_eq_false] at hwitness
    have hlength := congrArg List.length h
    simp [serialize,serializeNoWitness,btcEncode,hwitness] at hlength
    omega
  · intro h
    simp [serialize,serializeNoWitness,btcEncode,h]

theorem serializeNoWitness_stripped (msg : MsgTx) :
    msg.stripped.serializeNoWitness = msg.serializeNoWitness := by
  have hinput (ti : TxIn) : writeTxIn { ti with witness := [] } = writeTxIn ti := rfl
  simp [serializeNoWitness,btcEncode,stripped,List.flatMap_map,hinput]

theorem txHash_congr {msg msg' : MsgTx} (h : msg.stripped = msg'.stripped) :
    msg.txHash = msg'.txHash := by
  rw [txHash,txHash,← serializeNoWitness_stripped msg,h,serializeNoWitness_stripped]

theorem length_serializeNoWitness (msg : MsgTx) (h : msg.txIn ≠ []) :
    32 < msg.serializeNoWitness.length := by
  obtain ⟨ti,rest,hti⟩ := List.exists_cons_of_ne_nil h
  have hhash := ti.previousOutPoint.hash.property
  simp only [serializeNoWitness,btcEncode,hti,List.flatMap_cons,writeTxIn,List.length_append,
    length_littleEndian]
  omega

end MsgTx
end ChainKit.Bitcoin
