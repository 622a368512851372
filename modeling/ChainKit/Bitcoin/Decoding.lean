import ChainKit.Bitcoin.Wire
import ChainKit.Lib.Codec

/-! Reading a transaction from its bytes, as the vendored btcd packages do, and that exactly the
bytes which they write are read. -/
namespace ChainKit.Bitcoin
open Lib

/-- How reading can end: with an error, or with a slice expression out of range. -/
inductive ReadFault
  | error (e : GoError)
  | sliceBounds
  deriving DecidableEq

abbrev WireReader := Reader UInt8 ReadFault

def messageError (f desc : String) : ReadFault := .error (.plain (f ++ ": " ++ desc))

/-- The verb `%x` for a number. -/
def hexNumber (n : ℕ) : String := String.ofList (Nat.toDigits 16 n)

/-- The verb `%x` for an array of bytes. -/
def hexText (bs : Bytes) : String := String.ofList ((hexEncode bs).map fun c => Char.ofNat c.toNat)

/-- `io.ReadFull`: an input that ends at once is told from one that ends too early. -/
def readFull (n : ℕ) : WireReader Bytes :=
  take (fun rest => .error (.plain (if rest = [] then "EOF" else "unexpected EOF"))) n

def ofLittleEndian (bs : Bytes) : ℕ := Nat.ofDigits 256 (bs.map UInt8.toNat)

theorem ofLittleEndian_lt (bs : Bytes) : ofLittleEndian bs < 256^bs.length := by
  have hlt := Nat.ofDigits_lt_base_pow_length (b := 256) (l := bs.map UInt8.toNat) (by omega) ?_
  · rwa [List.length_map] at hlt
  · simp only [List.mem_map,forall_exists_index,and_imp,forall_apply_eq_imp_iff₂]
    exact fun a _ => a.toNat_lt

theorem littleEndian_ofLittleEndian (bs : Bytes) :
    littleEndian bs.length (ofLittleEndian bs) = bs := by
  induction bs with
  | nil => rfl
  | cons a bs ih =>
    have hcons : ofLittleEndian (a :: bs) = a.toNat+256*ofLittleEndian bs := by
      simp [ofLittleEndian,Nat.ofDigits_cons]
    have ha := a.toNat_lt
    rw [List.length_cons,littleEndian,hcons]
    rw [show (a.toNat+256*ofLittleEndian bs)%256 = a.toNat by omega,
      show (a.toNat+256*ofLittleEndian bs)/256 = ofLittleEndian bs by omega,ih]
    simp

theorem ofLittleEndian_littleEndian {n x : ℕ} (h : x < 256^n) :
    ofLittleEndian (littleEndian n x) = x := by
  induction n generalizing x with
  | zero =>
    rw [pow_zero,Nat.lt_one_iff] at h
    rw [h]
    rfl
  | succ n ih =>
    have hdiv : x/256 < 256^n := by
      rw [Nat.div_lt_iff_lt_mul (by omega)]
      rwa [pow_succ] at h
    have hrest := ih hdiv
    unfold ofLittleEndian at hrest ⊢
    rw [littleEndian,List.map_cons,Nat.ofDigits_cons,hrest]
    have hdigit : ((x%256).toUInt8).toNat = x%256 := by simp
    rw [hdigit]
    exact Nat.mod_add_div x 256

def readLittleEndian (n : ℕ) : WireReader ℕ := do
  let bs ← readFull n
  pure (ofLittleEndian bs)

/-- A case of `ReadVarIntBuf` in which the value comes after its discriminant. -/
def readLongVarInt (width discriminant least : ℕ) : WireReader ℕ := do
  let rv ← readLittleEndian width
  ensure (least ≤ rv) (messageError "ReadVarInt" ("non-canonical varint " ++ hexNumber rv ++
    " - discriminant " ++ hexNumber discriminant ++ " must encode a value greater than " ++
    hexNumber least))
  pure rv

def readVarInt : WireReader ℕ := do
  let discriminant ← readLittleEndian 1
  if discriminant = 0xff then readLongVarInt 8 0xff 0x100000000
  else if discriminant = 0xfe then readLongVarInt 4 0xfe 0x10000
  else if discriminant = 0xfd then readLongVarInt 2 0xfd 0xfd
  else pure discriminant

def maxTxInPerMessage : ℕ := 1024*1024*32/41+1
def maxTxOutPerMessage : ℕ := 1024*1024*32/9+1
def maxWitnessItemsPerInput : ℕ := 4000000
def maxWitnessItemSize : ℕ := 4000000
def scriptSlabSize : ℕ := 1 <<< 22

def tooMany (what : String) (count max : ℕ) : String :=
  what ++ "[count " ++ toString count ++ ", max " ++ toString max ++ "]"

/-- The script is read into what is left of the slab, whose bounds are checked first. -/
def readScript (fieldName : String) : WireReader Bytes := do
  let count ← readVarInt
  ensure (count ≤ maxWitnessItemSize) (messageError "readScript"
    (tooMany (fieldName ++ " is larger than the max allowed size ") count maxWitnessItemSize))
  spend .sliceBounds count
  readFull count

def readUint32 : WireReader UInt32 := do
  let x ← readLittleEndian 4
  pure x.toUInt32

def readUint64 : WireReader UInt64 := do
  let x ← readLittleEndian 8
  pure x.toUInt64

/-- What `io.ReadFull` puts into the array of a hash. -/
def fillHash (bs : Bytes) : Hash := ⟨(bs ++ List.replicate 32 0).take 32,by simp⟩

def readHash : WireReader Hash := do
  let bs ← readFull 32
  pure (fillHash bs)

def readOutPoint : WireReader OutPoint := do
  let hash ← readHash
  let index ← readUint32
  pure ⟨hash,index⟩

def readTxIn : WireReader TxIn := do
  let previousOutPoint ← readOutPoint
  let signatureScript ← readScript "transaction input signature script"
  let sequence ← readUint32
  pure ⟨previousOutPoint,signatureScript,[],sequence⟩

def readTxOut : WireReader TxOut := do
  let value ← readUint64
  let pkScript ← readScript "transaction output public key script"
  pure ⟨value.toInt64,pkScript⟩

def readTxWitness : WireReader (List Bytes) := do
  let witCount ← readVarInt
  ensure (witCount ≤ maxWitnessItemsPerInput) (messageError "MsgTx.BtcDecode"
    (tooMany "too many witness items to fit into max message size " witCount
      maxWitnessItemsPerInput))
  (List.replicate witCount ()).mapM fun _ => readScript "script witness item"

/-- What comes after the marker of a transaction with witnesses: the flag and the count. -/
def readFlagged : WireReader ℕ := do
  let flag ← readLittleEndian 1
  ensure (flag = 1) (messageError "MsgTx.BtcDecode"
    ("witness tx but flag byte is " ++ hexText [flag.toUInt8]))
  readVarInt

/-- Whether the witnesses are there, and the number of inputs: a count of zero is a marker. -/
def readInputCount : WireReader (Bool × ℕ) := do
  let count ← readVarInt
  if count = 0 then
    let count ← readFlagged
    pure (true,count)
  else pure (false,count)

def readInputs (count : ℕ) : WireReader (List TxIn) := do
  ensure (count ≤ maxTxInPerMessage) (messageError "MsgTx.BtcDecode"
    (tooMany "too many input transactions to fit into max message size " count
      maxTxInPerMessage))
  (List.replicate count ()).mapM fun _ => readTxIn

def readOutputs : WireReader (List TxOut) := do
  let count ← readVarInt
  ensure (count ≤ maxTxOutPerMessage) (messageError "MsgTx.BtcDecode"
    (tooMany "too many output transactions to fit into max message size " count
      maxTxOutPerMessage))
  (List.replicate count ()).mapM fun _ => readTxOut

def anyWitness (txIn : List TxIn) : Bool := txIn.any fun ti => !ti.witness.isEmpty

def readWitnesses (flag : Bool) (txIn : List TxIn) : WireReader (List TxIn) :=
  if flag then do
    let txIn ← txIn.mapM fun ti => do
      let witness ← readTxWitness
      pure { ti with witness := witness }
    ensure (anyWitness txIn) (.error (.plain "witness flag set but tx has no witnesses"))
    pure txIn
  else pure txIn

/-- What `btcDecode` reads once it knows the number of inputs. -/
def readParts (version : UInt32) (flag : Bool) (count : ℕ) : WireReader MsgTx := do
  let txIn ← readInputs count
  let txOut ← readOutputs
  let txIn ← readWitnesses flag txIn
  let lockTime ← readUint32
  pure ⟨version.toInt32,txIn,txOut,lockTime⟩

/-- `btcDecode` with the witness encoding. -/
def btcDecode : WireReader MsgTx := do
  let version ← readUint32
  let header ← readInputCount
  readParts version header.1 header.2

/-- `MsgTx.Deserialize` of the bytes of a reader: the transaction and what is left unread. -/
def deserialize (bs : Bytes) : Except ReadFault (MsgTx × Bytes) := do
  let (msg,s) ← btcDecode ⟨bs,scriptSlabSize⟩
  .ok (msg,s.rest)

theorem readLittleEndian_exact (n : ℕ) :
    Exact (readLittleEndian n) ⟨littleEndian n,fun _ => 0,fun x => x < 256^n⟩ := by
  refine (Exact.take _ n).bind (fun bs _ => Exact.pure (ofLittleEndian bs)) ?_ ?_ ?_
  · intro x
    constructor
    · intro hx
      exact ⟨littleEndian n x,length_littleEndian n x,(ofLittleEndian_littleEndian hx).symm⟩
    · rintro ⟨bs,rfl,rfl⟩
      exact ofLittleEndian_lt bs
  · rintro bs x rfl rfl
    simp [littleEndian_ofLittleEndian]
  · exact fun _ _ _ _ => rfl

theorem readLongVarInt_exact (width discriminant least : ℕ) :
    Exact (readLongVarInt width discriminant least)
      ⟨littleEndian width,fun _ => 0,fun x => x < 256^width ∧ least ≤ x⟩ := by
  refine (readLittleEndian_exact width).bind (fun x _ => (Exact.pure x).ensure_bind) ?_ ?_ ?_
  · intro x
    constructor
    · rintro ⟨hx,hleast⟩
      exact ⟨x,hx,hleast,rfl⟩
    · rintro ⟨_,hx,hleast,rfl⟩
      exact ⟨hx,hleast⟩
  · rintro x _ _ ⟨_,rfl⟩
    simp
  · exact fun _ _ _ _ => rfl

def varIntHead (x : ℕ) : ℕ :=
  if x < 0xfd then x else if x ≤ 0xffff then 0xfd else if x ≤ 0xffffffff then 0xfe else 0xff

def varIntTail (x : ℕ) : Bytes :=
  if x < 0xfd then [] else if x ≤ 0xffff then littleEndian 2 x
  else if x ≤ 0xffffffff then littleEndian 4 x else littleEndian 8 x

theorem writeVarInt_eq (x : ℕ) : writeVarInt x = littleEndian 1 (varIntHead x) ++ varIntTail x := by
  unfold writeVarInt varIntHead varIntTail
  split_ifs
  · simp
  · rfl
  · rfl
  · rfl

theorem readVarInt_exact : Exact readVarInt ⟨writeVarInt,fun _ => 0,fun x => x < 2^64⟩ := by
  have htail (d : ℕ) (hd : d < 256^1) :
      Exact (if d = 0xff then readLongVarInt 8 0xff 0x100000000
        else if d = 0xfe then readLongVarInt 4 0xfe 0x10000
        else if d = 0xfd then readLongVarInt 2 0xfd 0xfd else pure d)
        ⟨varIntTail,fun _ => 0,fun x => x < 2^64 ∧ varIntHead x = d⟩ := by
    unfold varIntTail varIntHead
    split_ifs with hff hfe hfd
    · refine (readLongVarInt_exact 8 0xff 0x100000000).congr ?_ ?_ ?_
      · grind
      · grind
      · exact fun _ _ => rfl
    · refine (readLongVarInt_exact 4 0xfe 0x10000).congr ?_ ?_ ?_
      · grind
      · grind
      · exact fun _ _ => rfl
    · refine (readLongVarInt_exact 2 0xfd 0xfd).congr ?_ ?_ ?_
      · grind
      · grind
      · exact fun _ _ => rfl
    · refine (Exact.pure d).congr ?_ ?_ ?_
      · grind
      · grind
      · exact fun _ _ => rfl
  refine (readLittleEndian_exact 1).bind htail ?_ ?_ ?_
  · intro x
    constructor
    · intro hx
      refine ⟨varIntHead x,?_,hx,rfl⟩
      change varIntHead x < 256^1
      unfold varIntHead
      split_ifs <;> omega
    · rintro ⟨_,_,hx,_⟩
      exact hx
  · rintro d x _ ⟨_,rfl⟩
    exact writeVarInt_eq x
  · exact fun _ _ _ _ => rfl

theorem readScript_exact (fieldName : String) : Exact (readScript fieldName)
    ⟨writeVarBytes,List.length,fun bs => bs.length ≤ maxWitnessItemSize⟩ := by
  have hfull (n : ℕ) : Exact (do spend .sliceBounds n; readFull n)
      ⟨id,List.length,fun bs : Bytes => bs.length = n⟩ := by
    refine (Exact.spend _ n).bind (fun _ _ => Exact.take _ n) ?_ ?_ ?_
    · simp
    · simp
    · rintro _ bs _ rfl
      simp
  refine readVarInt_exact.bind (fun n _ => (hfull n).ensure_bind) ?_ ?_ ?_
  · intro bs
    have hsize : maxWitnessItemSize < 2^64 := by decide
    constructor
    · intro hbs
      exact ⟨bs.length,lt_of_le_of_lt hbs hsize,hbs,rfl⟩
    · rintro ⟨_,_,hle,rfl⟩
      exact hle
  · rintro _ bs _ ⟨_,rfl⟩
    rfl
  · rintro _ bs _ ⟨_,rfl⟩
    simp

theorem readUint32_exact :
    Exact readUint32 ⟨fun u => littleEndian 4 u.toNat,fun _ => 0,fun _ => True⟩ := by
  refine ((readLittleEndian_exact 4).map (h := UInt32.toNat) ?_ ?_).of_valid ?_
  · intro x hx
    change x < 256^4 at hx
    simp
    omega
  · simp
  · intro u
    have hlt : u.toNat < 256^4 := u.toNat_lt
    simpa using hlt

theorem readUint64_exact :
    Exact readUint64 ⟨fun u => littleEndian 8 u.toNat,fun _ => 0,fun _ => True⟩ := by
  refine ((readLittleEndian_exact 8).map (h := UInt64.toNat) ?_ ?_).of_valid ?_
  · intro x hx
    change x < 256^8 at hx
    simp
    omega
  · simp
  · intro u
    have hlt : u.toNat < 256^8 := u.toNat_lt
    simpa using hlt

theorem readHash_exact : Exact readHash ⟨Subtype.val,fun _ => 0,fun _ => True⟩ := by
  refine ((Exact.take _ 32).map (h := Subtype.val) ?_ ?_).of_valid ?_
  · intro bs hbs
    simp only at hbs
    simp [fillHash,hbs]
  · intro hash _
    apply Subtype.ext
    simp [fillHash,hash.property]
  · intro hash
    simpa using hash.property

theorem readOutPoint_exact : Exact readOutPoint
    ⟨fun p => p.hash.val ++ littleEndian 4 p.index.toNat,fun _ => 0,fun _ => True⟩ := by
  refine (readHash_exact.bind_by OutPoint.hash
    (fun hash _ => readUint32_exact.bind_by OutPoint.index
      (fun index _ => Exact.pure (OutPoint.mk hash index)) ?_) ?_).congr ?_ ?_ ?_
  · rintro _ _ rfl
    rfl
  · rintro _ _ ⟨_,h⟩
    rw [h]
  · simp
  · simp
  · simp

theorem readTxIn_exact : Exact readTxIn ⟨MsgTx.writeTxIn,fun ti => ti.signatureScript.length,
    fun ti => ti.signatureScript.length ≤ maxWitnessItemSize ∧ ti.witness = []⟩ := by
  refine (readOutPoint_exact.bind_by TxIn.previousOutPoint
    (fun point _ => (readScript_exact _).bind_by TxIn.signatureScript
      (fun script _ => readUint32_exact.bind_by TxIn.sequence
        (fun sequence _ => Exact.pure (TxIn.mk point script [] sequence)) ?_) ?_) ?_).congr ?_ ?_ ?_
  · rintro _ _ rfl
    rfl
  · rintro _ _ ⟨_,h⟩
    rw [h]
  · rintro _ _ ⟨_,_,h⟩
    rw [h]
  · rintro ⟨point,script,witness,sequence⟩
    simp
  · rintro ti _
    simp [MsgTx.writeTxIn]
  · simp

theorem readTxOut_exact : Exact readTxOut ⟨MsgTx.writeTxOut,fun txo => txo.pkScript.length,
    fun txo => txo.pkScript.length ≤ maxWitnessItemSize⟩ := by
  refine (readUint64_exact.bind_by (fun txo => txo.value.toUInt64)
    (fun value _ => (readScript_exact _).bind_by TxOut.pkScript
      (fun script _ => Exact.pure (TxOut.mk value.toInt64 script)) ?_) ?_).congr ?_ ?_ ?_
  · rintro _ _ rfl
    rfl
  · rintro _ _ ⟨_,h⟩
    rw [h]
    simp
  · rintro ⟨value,script⟩
    simp
  · rintro txo _
    simp [MsgTx.writeTxOut]
  · simp

theorem counted_exact {α : Type} {r : WireReader α} {F : Format UInt8 α} (hr : Exact r F) {max : ℕ}
    (hmax : max < 2^64) (e : ℕ → ReadFault) :
    Exact (do
      let n ← readVarInt
      ensure (n ≤ max) (e n)
      (List.replicate n ()).mapM fun _ => r)
    ⟨fun l => writeVarInt l.length ++ l.flatMap F.write,fun l => (l.map F.cost).sum,
      fun l => l.length ≤ max ∧ ∀ a ∈ l, F.Valid a⟩ := by
  refine (readVarInt_exact.bind_by List.length
    (fun n _ => (hr.replicate n).ensure_bind) ?_).congr ?_ ?_ ?_
  · rintro n l ⟨_,hlength,_⟩
    exact hlength
  · intro l
    simp only [true_and]
    constructor
    · rintro ⟨hlength,hall⟩
      exact ⟨lt_of_le_of_lt hlength hmax,hlength,hall⟩
    · exact And.right
  · exact fun _ _ => rfl
  · simp

theorem readTxWitness_exact : Exact readTxWitness ⟨MsgTx.writeTxWitness,
    fun wit => (wit.map List.length).sum,fun wit => wit.length ≤ maxWitnessItemsPerInput ∧
      ∀ item ∈ wit, item.length ≤ maxWitnessItemSize⟩ :=
  counted_exact (readScript_exact _) (by decide) _

theorem readFlagged_exact : Exact readFlagged
    ⟨fun n => 0x01 :: writeVarInt n,fun _ => 0,fun n => n < 2^64⟩ := by
  refine (readLittleEndian_exact 1).bind (fun flag _ => readVarInt_exact.ensure_bind) ?_ ?_ ?_
  · intro n
    constructor
    · exact fun hn => ⟨1,by simp,rfl,hn⟩
    · rintro ⟨_,_,_,hn⟩
      exact hn
  · rintro _ n _ ⟨rfl,_⟩
    rfl
  · exact fun _ _ _ _ => rfl

theorem readInputCount_exact : Exact readInputCount
    ⟨fun c => (if c.1 then [0x00,0x01] else []) ++ writeVarInt c.2,fun _ => 0,
      fun c => c.2 < 2^64 ∧ (c.1 = false → c.2 ≠ 0)⟩ := by
  have hcount (n : ℕ) (hn : n < 2^64) :
      Exact (if n = 0 then (do let count ← readFlagged; pure (true,count)) else pure (false,n))
        ⟨fun c => if c.1 then 0x01 :: writeVarInt c.2 else [],fun _ => 0,
          fun c => c.2 < 2^64 ∧ (c.1 = true → n = 0) ∧ (c.1 = false → n ≠ 0 ∧ c.2 = n)⟩ := by
    split_ifs with hzero
    · refine (readFlagged_exact.bind_by Prod.snd (fun count _ => Exact.pure (true,count))
        ?_).congr ?_ ?_ ?_
      · rintro _ _ rfl
        rfl
      · rintro ⟨flag,count⟩
        cases flag <;> simp [hzero]
      · rintro ⟨flag,count⟩ ⟨_,h⟩
        cases h
        simp
      · exact fun _ _ => rfl
    · refine (Exact.pure (false,n)).congr ?_ ?_ ?_
      · rintro ⟨flag,count⟩
        cases flag with
        | true => simp [hzero]
        | false =>
          simp only [Prod.mk.injEq]
          grind
      · rintro _ rfl
        rfl
      · exact fun _ _ => rfl
  refine readVarInt_exact.bind hcount ?_ ?_ ?_
  · rintro ⟨flag,count⟩
    cases flag with
    | true => simp
    | false =>
      simp only [forall_const,reduceCtorEq,IsEmpty.forall_iff,true_and]
      constructor
      · rintro ⟨hlt,hne⟩
        exact ⟨count,hlt,hlt,hne,rfl⟩
      · rintro ⟨_,_,hlt,hne,rfl⟩
        exact ⟨hlt,hne⟩
  · rintro n ⟨flag,count⟩ _ ⟨_,htrue,hfalse⟩
    cases flag with
    | true =>
      rw [htrue rfl]
      rfl
    | false =>
      rw [← (hfalse rfl).2]
      simp
  · exact fun _ _ _ _ => rfl

def TxIn.strip (ti : TxIn) : TxIn := { ti with witness := [] }

/-- The witness of an input within the limits of the reader. -/
def WitnessFits (wit : List Bytes) : Prop :=
  wit.length ≤ maxWitnessItemsPerInput ∧ ∀ item ∈ wit, item.length ≤ maxWitnessItemSize

def witnessSize (wit : List Bytes) : ℕ := (wit.map List.length).sum

theorem readInputs_exact (count : ℕ) : Exact (readInputs count) ⟨List.flatMap MsgTx.writeTxIn,
    fun l => (l.map (·.signatureScript.length)).sum,
    fun l => count ≤ maxTxInPerMessage ∧ l.length = count ∧
      ∀ ti ∈ l, ti.signatureScript.length ≤ maxWitnessItemSize ∧ ti.witness = []⟩ :=
  (readTxIn_exact.replicate count).ensure_bind

theorem readOutputs_exact : Exact readOutputs
    ⟨fun l => writeVarInt l.length ++ l.flatMap MsgTx.writeTxOut,
      fun l => (l.map (·.pkScript.length)).sum,
      fun l => l.length ≤ maxTxOutPerMessage ∧
        ∀ txo ∈ l, txo.pkScript.length ≤ maxWitnessItemSize⟩ :=
  counted_exact readTxOut_exact (by decide) _

theorem strip_of_witness {ti : TxIn} (h : ti.witness = []) : ti.strip = ti := by
  rw [TxIn.strip,← h]

theorem anyWitness_eq_false {txIn : List TxIn} :
    anyWitness txIn = false ↔ ∀ ti ∈ txIn, ti.witness = [] := by
  simp [anyWitness]

theorem readWitnesses_exact (flag : Bool) (txIn : List TxIn)
    (htxIn : ∀ ti ∈ txIn, ti.witness = []) :
    Exact (readWitnesses flag txIn)
      ⟨fun full => if anyWitness full then full.flatMap (MsgTx.writeTxWitness ·.witness) else [],
        fun full => (full.map (witnessSize ·.witness)).sum,
        fun full => full.map TxIn.strip = txIn ∧ anyWitness full = flag ∧
          ∀ ti ∈ full, WitnessFits ti.witness⟩ := by
  have hone (ti : TxIn) (hti : ti ∈ txIn) :
      Exact (do let witness ← readTxWitness; pure { ti with witness := witness })
        ⟨fun ti => MsgTx.writeTxWitness ti.witness,fun ti => witnessSize ti.witness,
          fun full => full.strip = ti ∧ WitnessFits full.witness⟩ := by
    refine (readTxWitness_exact.bind_by TxIn.witness
      (fun witness _ => Exact.pure { ti with witness := witness }) ?_).congr ?_ ?_ ?_
    · rintro _ _ rfl
      rfl
    · intro full
      have hnil := htxIn ti hti
      cases ti
      cases full
      simp only at hnil
      simp only [TxIn.strip,hnil,WitnessFits,TxIn.mk.injEq]
      grind
    · simp
    · simp [witnessSize]
  unfold readWitnesses
  cases flag with
  | true =>
    rw [if_pos rfl]
    refine (Exact.mapM TxIn.strip hone).bind (fun full _ => (Exact.pure full).ensure_bind)
      ?_ ?_ ?_
    · intro full
      constructor
      · rintro ⟨hstrip,hany,hfits⟩
        exact ⟨full,⟨hstrip,hfits⟩,hany,rfl⟩
      · rintro ⟨_,⟨hstrip,hfits⟩,hany,rfl⟩
        exact ⟨hstrip,hany,hfits⟩
    · rintro full _ _ ⟨hany,rfl⟩
      simp [hany]
    · rintro full _ _ ⟨_,rfl⟩
      simp
  | false =>
    rw [if_neg Bool.false_ne_true]
    refine (Exact.pure txIn).congr ?_ ?_ ?_
    · intro full
      constructor
      · rintro ⟨hstrip,hany,_⟩
        rw [anyWitness_eq_false] at hany
        rw [← hstrip,List.map_congr_left fun ti hti => strip_of_witness (hany ti hti)]
        exact (List.map_id' full).symm
      · rintro rfl
        refine ⟨?_,anyWitness_eq_false.mpr htxIn,?_⟩
        · rw [List.map_congr_left fun ti hti => strip_of_witness (htxIn ti hti)]
          exact List.map_id' full
        · intro ti hti
          rw [htxIn ti hti]
          simp [WitnessFits]
    · rintro _ rfl
      simp [anyWitness_eq_false.mpr htxIn]
    · rintro _ rfl
      apply List.sum_eq_zero
      intro n hn
      obtain ⟨ti,hti,rfl⟩ := List.mem_map.mp hn
      rw [htxIn ti hti]
      rfl

namespace MsgTx

/-- The sizes that the reader allows. -/
structure WithinLimits (msg : MsgTx) : Prop where
  length_txIn : msg.txIn.length ≤ maxTxInPerMessage
  length_txOut : msg.txOut.length ≤ maxTxOutPerMessage
  signatureScripts : ∀ ti ∈ msg.txIn, ti.signatureScript.length ≤ maxWitnessItemSize
  witnesses : ∀ ti ∈ msg.txIn, WitnessFits ti.witness
  pkScripts : ∀ txo ∈ msg.txOut, txo.pkScript.length ≤ maxWitnessItemSize

def outputPart (msg : MsgTx) : Bytes :=
  writeVarInt msg.txOut.length ++ msg.txOut.flatMap writeTxOut

def endPart (msg : MsgTx) : Bytes :=
  (if anyWitness msg.txIn then msg.txIn.flatMap (writeTxWitness ·.witness) else []) ++
    littleEndian 4 msg.lockTime.toNat

def scriptSize (msg : MsgTx) : ℕ :=
  (msg.txIn.map (·.signatureScript.length)).sum+(msg.txOut.map (·.pkScript.length)).sum+
    (msg.txIn.map (witnessSize ·.witness)).sum

end MsgTx

theorem flatMap_writeTxIn_strip (txIn : List TxIn) :
    (txIn.map TxIn.strip).flatMap MsgTx.writeTxIn = txIn.flatMap MsgTx.writeTxIn := by
  rw [List.flatMap_map]
  rfl

theorem readParts_exact (version : UInt32) (flag : Bool) (count : ℕ) :
    Exact (readParts version flag count)
      ⟨fun msg => msg.txIn.flatMap MsgTx.writeTxIn ++ (msg.outputPart ++ msg.endPart),
        MsgTx.scriptSize,
        fun msg => msg.version = version.toInt32 ∧ anyWitness msg.txIn = flag ∧
          msg.txIn.length = count ∧ msg.WithinLimits⟩ := by
  -- From the end: the witnesses and the lock time, before them the outputs, then the inputs.
  have hend (txIn : List TxIn) (htxIn : ∀ ti ∈ txIn, ti.witness = []) (txOut : List TxOut) :
      Exact (do
        let txIn ← readWitnesses flag txIn
        let lockTime ← readUint32
        pure (MsgTx.mk version.toInt32 txIn txOut lockTime))
      ⟨MsgTx.endPart,fun msg => (msg.txIn.map (witnessSize ·.witness)).sum,
        fun msg => msg.version = version.toInt32 ∧ msg.txOut = txOut ∧
          msg.txIn.map TxIn.strip = txIn ∧ anyWitness msg.txIn = flag ∧
          ∀ ti ∈ msg.txIn, WitnessFits ti.witness⟩ := by
    refine ((readWitnesses_exact flag txIn htxIn).bind_by MsgTx.txIn (fun txIn _ =>
      readUint32_exact.bind_by MsgTx.lockTime
        (fun lockTime _ => Exact.pure (MsgTx.mk version.toInt32 txIn txOut lockTime))
        ?_) ?_).congr ?_ ?_ ?_
    · rintro _ _ rfl
      rfl
    · rintro _ _ ⟨_,h⟩
      rw [h]
    · rintro ⟨version',txIn',txOut',lockTime⟩
      simp only [MsgTx.mk.injEq]
      grind
    · simp [MsgTx.endPart]
    · simp
  have houtputs (txIn : List TxIn) (htxIn : ∀ ti ∈ txIn, ti.witness = []) :
      Exact (do
        let txOut ← readOutputs
        let txIn ← readWitnesses flag txIn
        let lockTime ← readUint32
        pure (MsgTx.mk version.toInt32 txIn txOut lockTime))
      ⟨fun msg => msg.outputPart ++ msg.endPart,
        fun msg => (msg.txOut.map (·.pkScript.length)).sum+
          (msg.txIn.map (witnessSize ·.witness)).sum,
        fun msg => msg.version = version.toInt32 ∧ msg.txOut.length ≤ maxTxOutPerMessage ∧
          (∀ txo ∈ msg.txOut, txo.pkScript.length ≤ maxWitnessItemSize) ∧
          msg.txIn.map TxIn.strip = txIn ∧ anyWitness msg.txIn = flag ∧
          ∀ ti ∈ msg.txIn, WitnessFits ti.witness⟩ := by
    refine (readOutputs_exact.bind_by MsgTx.txOut (fun txOut _ => hend txIn htxIn txOut)
      ?_).of_valid ?_
    · rintro _ _ ⟨_,h,_⟩
      exact h
    · intro msg
      simp only
      tauto
  refine ((readInputs_exact count).bind (fun txIn htxIn => houtputs txIn fun ti hti =>
    (htxIn.2.2 ti hti).2) ?_ ?_ ?_)
  · intro msg
    constructor
    · rintro ⟨hversion,hflag,hlength,hlimits⟩
      refine ⟨msg.txIn.map TxIn.strip,⟨?_,?_,?_⟩,hversion,hlimits.length_txOut,hlimits.pkScripts,
        rfl,hflag,hlimits.witnesses⟩
      · exact hlength ▸ hlimits.length_txIn
      · simpa using hlength
      · simp only [List.mem_map,forall_exists_index,and_imp,forall_apply_eq_imp_iff₂]
        exact fun ti hti => ⟨hlimits.signatureScripts ti hti,rfl⟩
    · rintro ⟨_,⟨hle,hlength,hall⟩,hversion,hout,hpk,rfl,hflag,hfits⟩
      rw [List.length_map] at hlength
      rw [← hlength] at hle
      simp only [List.mem_map,forall_exists_index,and_imp,forall_apply_eq_imp_iff₂] at hall
      exact ⟨hversion,hflag,hlength,hle,hout,fun ti hti => (hall ti hti).1,hfits,hpk⟩
  · rintro _ msg _ ⟨_,_,_,rfl,_⟩
    simp [flatMap_writeTxIn_strip]
  · rintro _ msg _ ⟨_,_,_,rfl,_⟩
    simp [MsgTx.scriptSize,TxIn.strip,Function.comp_def,Nat.add_assoc]

/-- The reader accepts exactly what is written, of transactions within its limits that have an
input. -/
theorem btcDecode_exact : Exact btcDecode
    ⟨MsgTx.serialize,MsgTx.scriptSize,fun msg => msg.txIn ≠ [] ∧ msg.WithinLimits⟩ := by
  have hheader (version : UInt32) : Exact (do
      let header ← readInputCount
      readParts version header.1 header.2)
      ⟨fun msg => (if anyWitness msg.txIn then [0x00,0x01] else []) ++
          writeVarInt msg.txIn.length ++ (msg.txIn.flatMap MsgTx.writeTxIn ++
          (msg.outputPart ++ msg.endPart)),
        MsgTx.scriptSize,
        fun msg => msg.version = version.toInt32 ∧ msg.txIn ≠ [] ∧ msg.WithinLimits⟩ := by
    refine readInputCount_exact.bind (fun header _ =>
      readParts_exact version header.1 header.2) ?_ ?_ ?_
    · intro msg
      constructor
      · rintro ⟨hversion,hne,hlimits⟩
        have hsize : maxTxInPerMessage < 2^64 := by decide
        refine ⟨(anyWitness msg.txIn,msg.txIn.length),⟨?_,?_⟩,hversion,rfl,rfl,hlimits⟩
        · exact lt_of_le_of_lt hlimits.length_txIn hsize
        · intro _
          simpa using hne
      · rintro ⟨⟨flag,count⟩,⟨_,hzero⟩,hversion,rfl,rfl,hlimits⟩
        refine ⟨hversion,?_,hlimits⟩
        -- With no input there is no witness, and then the count was not zero.
        intro hnil
        rw [hnil] at hzero
        exact hzero rfl rfl
    · rintro ⟨flag,count⟩ msg _ ⟨_,rfl,rfl,_⟩
      rfl
    · rintro ⟨flag,count⟩ msg _ ⟨_,rfl,rfl,_⟩
      simp
  refine readUint32_exact.bind (fun version _ => hheader version) ?_ ?_ ?_
  · intro msg
    constructor
    · rintro ⟨hne,hlimits⟩
      exact ⟨msg.version.toUInt32,trivial,by simp,hne,hlimits⟩
    · rintro ⟨_,_,_,hne,hlimits⟩
      exact ⟨hne,hlimits⟩
  · rintro version msg _ ⟨hversion,_⟩
    have hwitness : msg.hasWitness = anyWitness msg.txIn := rfl
    simp [MsgTx.serialize,MsgTx.btcEncode,MsgTx.outputPart,MsgTx.endPart,hversion,hwitness]
  · rintro version msg _ _
    simp

section
variable {α : Type} {f : α → Bytes} {g : α → ℕ} {l : List α}

theorem sum_le_length_flatMap (h : ∀ a, g a ≤ (f a).length) :
    (l.map g).sum ≤ (l.flatMap f).length := by
  rw [List.length_flatMap]
  exact List.sum_le_sum fun a _ => h a

theorem le_sum_map {a : α} (ha : a ∈ l) : g a ≤ (l.map g).sum :=
  List.single_le_sum (fun _ _ => Nat.zero_le _) _ (List.mem_map_of_mem ha)

end

theorem length_writeVarBytes (bs : Bytes) : bs.length+1 ≤ (writeVarBytes bs).length := by
  rw [writeVarBytes,writeVarInt_eq]
  simp
  omega

theorem length_writeTxIn (ti : TxIn) :
    ti.signatureScript.length+41 ≤ (MsgTx.writeTxIn ti).length := by
  have hscript := length_writeVarBytes ti.signatureScript
  have hhash := ti.previousOutPoint.hash.property
  simp only [MsgTx.writeTxIn,List.length_append,length_littleEndian,hhash]
  omega

theorem length_writeTxOut (txo : TxOut) :
    txo.pkScript.length+9 ≤ (MsgTx.writeTxOut txo).length := by
  have hscript := length_writeVarBytes txo.pkScript
  simp only [MsgTx.writeTxOut,List.length_append,length_littleEndian]
  omega

theorem length_writeTxWitness (wit : List Bytes) :
    witnessSize wit+wit.length ≤ (MsgTx.writeTxWitness wit).length := by
  have hitems := sum_le_length_flatMap (l := wit) length_writeVarBytes
  rw [List.sum_map_add] at hitems
  simp only [MsgTx.writeTxWitness,List.length_append]
  simp only [List.map_const',List.sum_replicate,smul_eq_mul,mul_one] at hitems
  unfold witnessSize
  omega

namespace MsgTx
variable {msg : MsgTx}

theorem length_serialize (msg : MsgTx) :
    msg.scriptSize+41*msg.txIn.length+9*msg.txOut.length+
      (msg.txIn.map (·.witness.length)).sum ≤ msg.serialize.length := by
  have hinputs := sum_le_length_flatMap (l := msg.txIn) length_writeTxIn
  have houtputs := sum_le_length_flatMap (l := msg.txOut) length_writeTxOut
  have hwitness : (msg.txIn.map fun ti => witnessSize ti.witness+ti.witness.length).sum ≤
      (if msg.hasWitness then msg.txIn.flatMap (writeTxWitness ·.witness) else []).length := by
    split_ifs with hany
    · exact sum_le_length_flatMap fun ti => length_writeTxWitness ti.witness
    · rw [Bool.not_eq_true] at hany
      have hnil := anyWitness_eq_false.mp hany
      rw [List.map_congr_left fun ti hti => by rw [hnil ti hti]]
      simp [witnessSize]
  simp only [List.sum_map_add,List.map_const',List.sum_replicate,smul_eq_mul] at hinputs houtputs
  rw [List.sum_map_add] at hwitness
  simp only [serialize,btcEncode,Bool.true_and,List.length_append,length_littleEndian,scriptSize]
  omega

theorem withinLimits_of_length (h : msg.serialize.length ≤ 4000000) : msg.WithinLimits := by
  have hlength := msg.length_serialize
  have hmaxIn : maxTxInPerMessage = 818401 := by decide
  have hmaxOut : maxTxOutPerMessage = 3728271 := by decide
  unfold scriptSize at hlength
  refine ⟨by omega,by omega,?_,?_,?_⟩
  · intro ti hti
    have hscript := le_sum_map (g := (·.signatureScript.length)) hti
    unfold maxWitnessItemSize
    omega
  · intro ti hti
    have hitems := le_sum_map (g := (·.witness.length)) hti
    have hbytes := le_sum_map (g := (witnessSize ·.witness)) hti
    refine ⟨by unfold maxWitnessItemsPerInput; omega,?_⟩
    intro item hitem
    have hbyte : item.length ≤ witnessSize ti.witness := le_sum_map (g := List.length) hitem
    unfold maxWitnessItemSize
    omega
  · intro txo htxo
    have hscript := le_sum_map (g := (·.pkScript.length)) htxo
    unfold maxWitnessItemSize
    omega

end MsgTx

/-- Up to the size of a block, what is read is exactly what is written of a transaction that has
an input, and the writing can be told from what comes after it. -/
theorem deserialize_eq_ok_iff {bs rest : Bytes} {msg : MsgTx} (hsize : bs.length ≤ 4000000) :
    deserialize bs = .ok (msg,rest) ↔ msg.txIn ≠ [] ∧ bs = msg.serialize ++ rest := by
  have hread (room : ℕ) := btcDecode_exact ⟨bs,scriptSlabSize⟩ msg ⟨rest,room⟩
  simp only [deserialize,bind_eq_ok,Prod.exists,Except.ok.injEq,Prod.mk.injEq]
  constructor
  · rintro ⟨_,⟨rest',room⟩,hok,rfl,rfl⟩
    obtain ⟨⟨hne,_⟩,hbs,_⟩ := (hread room).mp hok
    exact ⟨hne,hbs⟩
  · rintro ⟨hne,rfl⟩
    rw [List.length_append] at hsize
    have hlimits : msg.WithinLimits := MsgTx.withinLimits_of_length (by omega)
    have hscripts := msg.length_serialize
    have hslab : scriptSlabSize = 4194304 := by decide
    refine ⟨msg,⟨rest,scriptSlabSize-msg.scriptSize⟩,(hread _).mpr ⟨⟨hne,hlimits⟩,rfl,?_⟩,rfl,rfl⟩
    simp only
    omega

end ChainKit.Bitcoin
