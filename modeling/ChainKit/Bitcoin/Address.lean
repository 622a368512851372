import ChainKit.Bitcoin.Tx

/-! Addresses: how the vendored btcutil package decodes them, and the two functions that judge
them. An error of the decoder is never shown, so decoding is partial. -/
namespace ChainKit.Bitcoin
open Lib

/-! The `bech32` package. -/
namespace Bech32

def charset : Bytes := ascii "qpzry9x8gf2tvdw0s3jn54khce6mua7l"

def gen : List ℕ := [0x3b6a57b2,0x26508e6d,0x1ea119fa,0x3d4233dd,0x2a1462b3]

def polymodStep (chk v : ℕ) : ℕ :=
  let b := chk >>> 25
  gen.zipIdx.foldl (fun c (g,i) => if (b >>> i) &&& 1 = 1 then c ^^^ g else c)
    (((chk &&& 0x1ffffff) <<< 5) ^^^ v)

/-- `bech32Polymod`, with the checksum at the end of the values. -/
def polymod (hrp : Bytes) (values : List ℕ) : ℕ :=
  let hiBits := hrp.map fun c => c.toNat >>> 5
  let loBits := hrp.map fun c => c.toNat &&& 31
  (hiBits ++ 0 :: loBits ++ values).foldl polymodStep 1

inductive Version
  | version0
  | versionM
  deriving DecidableEq

/-- `bech32VerifyChecksum`. -/
def verifyChecksum (hrp : Bytes) (data : List ℕ) : Option Version :=
  if polymod hrp data = 1 then some .version0
  else if polymod hrp data = 0x2bc830a3 then some .versionM
  else none

def isLower (c : UInt8) : Bool := 97 ≤ c ∧ c ≤ 122
def isUpper (c : UInt8) : Bool := 65 ≤ c ∧ c ≤ 90

/-- `strings.ToLower` on letters that are one byte long. -/
def toLower (s : Bytes) : Bytes := s.map fun c => if isUpper c then c+32 else c

def splitLastOne (s : Bytes) : Option (Bytes × Bytes) :=
  (cut 0x31 s.reverse).map fun (after,before) => (before.reverse,after.reverse)

/-- `DecodeGeneric`, without the human-readable part that it returns. -/
def decodeGeneric (bech : Bytes) : Option (List ℕ × Version) := do
  guard (8 ≤ bech.length ∧ bech.length ≤ 90)
  guard (bech.all fun c => 33 ≤ c ∧ c ≤ 126)
  guard ¬(bech.any isLower ∧ bech.any isUpper)
  let (hrp,data) ← splitLastOne (toLower bech)
  guard (hrp ≠ [] ∧ 6 ≤ data.length)
  let decoded ← data.mapM (charset.idxOf? ·)
  let version ← verifyChecksum hrp decoded
  some (decoded.take (decoded.length-6),version)

/-- One turn of the loop of `ConvertBits` from five bits to eight: `filled` bits wait in `next`
for the next byte. -/
def convertStep : Bytes × ℕ × ℕ → ℕ → Bytes × ℕ × ℕ
  | (regrouped,next,filled),b =>
    let next := 32*next+b
    let filled := filled+5
    if 8 ≤ filled then
      (regrouped ++ [(next/2^(filled-8)).toUInt8],next%2^(filled-8),filled-8)
    else (regrouped,next,filled)

/-- `ConvertBits` from five bits to eight, without padding. -/
def convertBits (data : List ℕ) : Option Bytes :=
  let (regrouped,next,filled) := data.foldl convertStep ([],0,0)
  if 4 < filled ∨ next ≠ 0 then none else some regrouped

end Bech32

/-! The `base58` package. -/
namespace Base58

def alphabet : Bytes := ascii "123456789ABCDEFGHJKLMNPQRSTUVWXYZabcdefghijkmnopqrstuvwxyz"

/-- A text with another character is decoded to nothing. -/
def decode (s : Bytes) : Bytes :=
  match s.mapM (alphabet.idxOf? ·) with
  | none => []
  | some digits =>
    let answer := digits.foldl (fun answer d => 58*answer+d) 0
    List.replicate (s.takeWhile (· = 0x31)).length 0 ++
      (Nat.digits 256 answer).reverse.map (·.toUInt8)

def checkDecode (input : Bytes) : Option (Bytes × UInt8) :=
  match decode input with
  | [] => none
  | version :: rest => do
    guard (4 ≤ rest.length)
    let payload := rest.take (rest.length-4)
    let cksum := rest.drop (rest.length-4)
    guard (((Sha256.sum256 (Sha256.sum256 (version :: payload))).take 4) = cksum)
    some (payload,version)

end Base58

namespace Params

def bech32HRPSegwit : Params → Bytes
  | .mainNet => ascii "bc"
  | .testNet3 => ascii "tb"
  | .regressionNet => ascii "bcrt"
  | .simNet => ascii "sb"

def pubKeyHashAddrID : Params → UInt8
  | .mainNet => 0x00
  | .testNet3 => 0x6f
  | .regressionNet => 0x6f
  | .simNet => 0x3f

def scriptHashAddrID : Params → UInt8
  | .mainNet => 0x05
  | .testNet3 => 0xc4
  | .regressionNet => 0xc4
  | .simNet => 0x7b

/-- The networks that `chaincfg` registers. The fourth test network has the human-readable part
of the third. -/
def registered : List Params := [.mainNet,.testNet3,.regressionNet,.simNet]

end Params

/-- `chaincfg.IsBech32SegwitPrefix`, for what stands before the last `1`. -/
def isBech32SegwitHRP (hrp : Bytes) : Bool :=
  Params.registered.any fun params => params.bech32HRPSegwit = Bech32.toLower hrp

inductive DecodedAddress
  | witnessPubKeyHash (hrp witnessProg : Bytes)
  | witnessScriptHash (hrp witnessProg : Bytes)
  | taproot (hrp witnessProg : Bytes)
  | pubKey (serializedPubKey : Bytes) (pubKeyHashID : UInt8)
  | pubKeyHash (hash : Bytes) (netID : UInt8)
  | scriptHash (hash : Bytes) (netID : UInt8)
  deriving DecidableEq

def DecodedAddress.isForNet (net : Params) : DecodedAddress → Bool
  | .witnessPubKeyHash hrp _ => hrp = net.bech32HRPSegwit
  | .witnessScriptHash hrp _ => hrp = net.bech32HRPSegwit
  | .taproot hrp _ => hrp = net.bech32HRPSegwit
  | .pubKey _ pubKeyHashID => pubKeyHashID = net.pubKeyHashAddrID
  | .pubKeyHash _ netID => netID = net.pubKeyHashAddrID
  | .scriptHash _ netID => netID = net.scriptHashAddrID

def decodeSegWitAddress (address : Bytes) : Option (ℕ × Bytes) := do
  let (data,bech32version) ← Bech32.decodeGeneric address
  let version ← data.head?
  guard (version ≤ 16)
  let regrouped ← Bech32.convertBits data.tail
  guard (2 ≤ regrouped.length ∧ regrouped.length ≤ 40)
  guard (version = 0 → regrouped.length = 20 ∨ regrouped.length = 32)
  guard (version = 0 → bech32version = .version0)
  guard (version = 1 → bech32version = .versionM)
  some (version,regrouped)

/-- The branch of `DecodeAddress` for witness addresses, under the human-readable part that the
text begins with. -/
def decodeWitness (hrp address : Bytes) : Option DecodedAddress := do
  let (witnessVer,witnessProg) ← decodeSegWitAddress address
  guard (witnessVer = 0 ∨ witnessVer = 1)
  let hrp := Bech32.toLower hrp
  if witnessProg.length = 20 then some (.witnessPubKeyHash hrp witnessProg)
  else if witnessProg.length = 32 then
    if witnessVer = 1 then some (.taproot hrp witnessProg)
    else some (.witnessScriptHash hrp witnessProg)
  else none

/-- The other branches: a public key in hexadecimal digits or a base58 text. `parsePubKey` is what
btcec accepts. -/
def decodeLegacy (parsePubKey : Bytes → Bool) (addr : Bytes) (defaultNet : Params) :
    Option DecodedAddress :=
  if addr.length = 130 ∨ addr.length = 66 then do
    let serializedPubKey ← hexDecode addr
    guard (parsePubKey serializedPubKey)
    some (.pubKey serializedPubKey defaultNet.pubKeyHashAddrID)
  else do
    let (decoded,netID) ← Base58.checkDecode addr
    guard (decoded.length = 20)
    let isP2PKH := netID = defaultNet.pubKeyHashAddrID
    let isP2SH := netID = defaultNet.scriptHashAddrID
    if isP2PKH ∧ isP2SH then none
    else if isP2PKH then some (.pubKeyHash decoded netID)
    else if isP2SH then some (.scriptHash decoded netID)
    else none

def decodeAddress (parsePubKey : Bytes → Bool) (addr : Bytes) (defaultNet : Params) :
    Option DecodedAddress :=
  match Bech32.splitLastOne addr with
  | some (hrp,_) =>
    if 1 < hrp.length ∧ isBech32SegwitHRP hrp then decodeWitness hrp addr
    else decodeLegacy parsePubKey addr defaultNet
  | none => decodeLegacy parsePubKey addr defaultNet

def Metal.validateAddress (parsePubKey : Bytes → Bool) (network : BitcoinNetwork)
    (address : Bytes) : Except GoError Bool := do
  let netParams ← network.chaincfgNetwork
  match decodeAddress parsePubKey address netParams with
  | none => .ok false
  | some _ => .ok true

def validatePublicAddress (parsePubKey : Bytes → Bool) (address : Bytes)
    (network : BitcoinNetwork) : Except GoError Bool := do
  let params ← network.chaincfgNetwork
  match decodeAddress parsePubKey address params with
  | none => .ok false
  | some addr => .ok (addr.isForNet params)

def IsSegWitOf (hrp address : Bytes) : Prop :=
  ∃ front data, Bech32.splitLastOne address = some (front,data) ∧
    (1 < front.length ∧ isBech32SegwitHRP front = true) ∧ Bech32.toLower front = hrp ∧
    (decodeWitness front address).isSome = true

theorem decodeWitness_isForNet {hrp address : Bytes} {addr : DecodedAddress} {net : Params}
    (h : decodeWitness hrp address = some addr) :
    addr.isForNet net = true ↔ Bech32.toLower hrp = net.bech32HRPSegwit := by
  simp only [decodeWitness,Option.bind_eq_bind,Option.bind_eq_some_iff] at h
  obtain ⟨⟨witnessVer,witnessProg⟩,_,_,_,h⟩ := h
  split_ifs at h
  · cases h
    exact decide_eq_true_iff
  · cases h
    exact decide_eq_true_iff
  · cases h
    exact decide_eq_true_iff

theorem decodeLegacy_isForNet {parsePubKey : Bytes → Bool} {address : Bytes} {net : Params}
    {addr : DecodedAddress} (h : decodeLegacy parsePubKey address net = some addr) :
    addr.isForNet net = true := by
  unfold decodeLegacy at h
  split_ifs at h
  · simp only [Option.bind_eq_bind,Option.bind_eq_some_iff] at h
    obtain ⟨serializedPubKey,_,_,_,h⟩ := h
    cases h
    exact decide_eq_true rfl
  · simp only [Option.bind_eq_bind,Option.bind_eq_some_iff] at h
    obtain ⟨⟨decoded,netID⟩,_,_,_,h⟩ := h
    split_ifs at h with _ hP2PKH hP2SH
    · cases h
      exact decide_eq_true hP2PKH
    · cases h
      exact decide_eq_true hP2SH

theorem IsSegWitOf.decodeAddress {parsePubKey : Bytes → Bool} {hrp address : Bytes} {net : Params}
    (h : IsSegWitOf hrp address) : (decodeAddress parsePubKey address net).isSome = true := by
  obtain ⟨front,data,hsplit,hknown,_,hdecodes⟩ := h
  simp only [Bitcoin.decodeAddress,hsplit]
  rwa [if_pos hknown]

/-- A decoded address belongs to the network asked for unless it is a witness address of another
one. -/
theorem decodeAddress_isForNet {parsePubKey : Bytes → Bool} {address : Bytes} {net : Params}
    {addr : DecodedAddress} (h : decodeAddress parsePubKey address net = some addr) :
    addr.isForNet net = true ↔ ∀ hrp, IsSegWitOf hrp address → hrp = net.bech32HRPSegwit := by
  unfold decodeAddress at h
  split at h
  · rename_i front data hsplit
    split_ifs at h with hknown
    · rw [decodeWitness_isForNet h]
      constructor
      · rintro hfor hrp ⟨front',data',hsplit',_,rfl,_⟩
        rw [hsplit] at hsplit'
        cases hsplit'
        exact hfor
      · intro hall
        exact hall _ ⟨front,data,hsplit,hknown,rfl,by rw [h]; rfl⟩
    · refine iff_of_true (decodeLegacy_isForNet h) ?_
      rintro hrp ⟨front',data',hsplit',hknown',_⟩
      rw [hsplit] at hsplit'
      cases hsplit'
      exact absurd hknown' hknown
  · rename_i hsplit
    refine iff_of_true (decodeLegacy_isForNet h) ?_
    rintro hrp ⟨front',data',hsplit',_⟩
    rw [hsplit] at hsplit'
    cases hsplit'

/-- The two validators agree exactly where the text is not a witness address of another network
than the one asked for: only one of them looks at the network of what was decoded. -/
theorem validators_agree_iff (parsePubKey : Bytes → Bool) (network : BitcoinNetwork)
    (address : Bytes) :
    Metal.validateAddress parsePubKey network address =
        validatePublicAddress parsePubKey address network ↔
      ∀ params, network.chaincfgNetwork = .ok params →
        ∀ hrp, IsSegWitOf hrp address → hrp = params.bech32HRPSegwit := by
  unfold Metal.validateAddress validatePublicAddress
  cases hparams : network.chaincfgNetwork with
  | error e =>
    refine iff_of_true rfl ?_
    intro params h
    cases h
  | ok params =>
    simp only [bind,Except.bind,Except.ok.injEq,forall_eq']
    cases hdecode : decodeAddress parsePubKey address params with
    | none =>
      refine iff_of_true rfl ?_
      intro hrp hsegwit
      have hsome : (decodeAddress parsePubKey address params).isSome = true :=
        hsegwit.decodeAddress
      simp [hdecode] at hsome
    | some addr =>
      rw [← decodeAddress_isForNet hdecode]
      constructor
      · intro h
        exact (Except.ok.inj h).symm
      · intro h
        exact congrArg Except.ok h.symm

def testnetAddress : Bytes := ascii "tb1qw508d6qejxtdg4y5r3zarvary0c5xw7kxpjzsx"

/-- An address of the test networks is valid on the main network to one of the validators only. -/
theorem validators_disagree :
    Metal.validateAddress (fun _ => false) .mainnet testnetAddress = .ok true ∧
      validatePublicAddress (fun _ => false) testnetAddress .mainnet = .ok false := by
  decide +kernel

end ChainKit.Bitcoin
