import ChainKit.CloudAgent.Agent
import ChainKit.Lib.Base32

/-! The ids of events and batches: a timestamp in milliseconds and 80 bits that are drawn for each
new millisecond and counted up within one, in base 32. -/
namespace ChainKit.CloudAgent
open Lib

def idAlphabet : String := "0123456789ABCDEFGHJKMNPQRSTVWXYZ"

structure Entropy where
  bytes : Bytes
  length : bytes.length = 10

/-- The loop of the increment, from the last byte on. -/
def carry : Bytes → Bytes
  | [] => []
  | b :: bs => if b+1 ≠ 0 then (b+1) :: bs else (b+1) :: carry bs

@[simp] theorem length_carry (bs : Bytes) : (carry bs).length = bs.length := by
  induction bs with
  | nil => rfl
  | cons b bs ih =>
    rw [carry]
    split_ifs
    · rfl
    · rw [List.length_cons,ih,List.length_cons]

namespace Entropy

def zero : Entropy := ⟨List.replicate 10 0,rfl⟩

def increment (e : Entropy) : Entropy where
  bytes := (carry e.bytes.reverse).reverse
  length := by simp [e.length]

def AllOnes (e : Entropy) : Prop := ∀ b ∈ e.bytes, b = 255

instance (e : Entropy) : Decidable e.AllOnes := inferInstanceAs (Decidable (∀ b ∈ e.bytes, b = 255))

end Entropy

/-- `lastMS` and `lastEntropy`. -/
structure Minter where
  lastMS : UInt64 := 0
  lastEntropy : Entropy := .zero

/-- What a call reads: the clock, and the generator of random numbers for a new millisecond. -/
structure Reading where
  ms : UInt64
  draw : Entropy

def timestamp (ms : UInt64) : Bytes :=
  [(ms >>> 40).toUInt8,(ms >>> 32).toUInt8,(ms >>> 24).toUInt8,(ms >>> 16).toUInt8,
    (ms >>> 8).toUInt8,ms.toUInt8]

def encodeToString (raw : Bytes) : String :=
  String.ofList ((Base32.encode raw).map fun d => idAlphabet.toList.getD d '0')

namespace Minter

/-- `newEventID`: the id and the state that it leaves. -/
def newEventID (m : Minter) (x : Reading) : String × Minter :=
  let m' : Minter :=
    if x.ms = m.lastMS then { m with lastEntropy := m.lastEntropy.increment }
    else ⟨x.ms,x.draw⟩
  (encodeToString (timestamp x.ms ++ m'.lastEntropy.bytes),m')

def next (m : Minter) (x : Reading) : Minter := (m.newEventID x).2

def newEventIDs (m : Minter) : List Reading → List String
  | [] => []
  | x :: xs => (m.newEventID x).1 :: (m.next x).newEventIDs xs

end Minter

section Values

theorem ofDigits_carry (bs : Bytes) (h : ∃ b ∈ bs, b ≠ 255) :
    Nat.ofDigits 256 ((carry bs).map UInt8.toNat) = Nat.ofDigits 256 (bs.map UInt8.toNat)+1 := by
  induction bs with
  | nil => simp at h
  | cons b bs ih =>
    rw [carry]
    by_cases hb : b = 255
    · subst hb
      have hrest : ∃ b ∈ bs, b ≠ 255 := by simpa using h
      have hzero : ¬(255 : UInt8)+1 ≠ 0 := by decide
      rw [if_neg hzero,List.map_cons,List.map_cons,Nat.ofDigits_cons,Nat.ofDigits_cons,ih hrest]
      simp
      ring
    · have hlt : b.toNat < 255 := by
        have hne : b.toNat ≠ 255 := fun h => hb (UInt8.toNat_inj.mp h)
        have := b.toNat_lt
        omega
      have hsucc : (b+1).toNat = b.toNat+1 := by
        rw [UInt8.toNat_add]
        apply Nat.mod_eq_of_lt
        simp only [UInt8.reduceToNat]
        omega
      have hne : b+1 ≠ 0 := by
        intro h
        rw [h] at hsucc
        simp at hsucc
      rw [if_pos hne,List.map_cons,List.map_cons,Nat.ofDigits_cons,Nat.ofDigits_cons,hsucc]
      ring

theorem Entropy.value_increment (e : Entropy) (h : ¬e.AllOnes) :
    Base32.value e.increment.bytes = Base32.value e.bytes+1 := by
  have hsome : ∃ b ∈ e.bytes.reverse, b ≠ 255 := by simpa [AllOnes] using h
  have hcarry := ofDigits_carry e.bytes.reverse hsome
  unfold Base32.value ofBigEndian
  rw [increment,← List.map_reverse,List.reverse_reverse,hcarry,List.map_reverse]

@[simp] theorem length_timestamp (ms : UInt64) : (timestamp ms).length = 6 := rfl

theorem map_timestamp (ms : UInt64) :
    (timestamp ms).map UInt8.toNat = lastDigits 256 6 ms.toNat := by
  simp [timestamp,lastDigits,Nat.shiftRight_eq_div_pow]

theorem value_timestamp (ms : UInt64) (h : ms.toNat < 2^48) :
    Base32.value (timestamp ms) = ms.toNat := by
  rw [Base32.value,map_timestamp,ofBigEndian_lastDigits]
  apply Nat.mod_eq_of_lt
  calc ms.toNat < 2^48 := h
    _ = 256^6 := by norm_num

end Values

namespace Minter
variable {m : Minter} {x : Reading}

def number (m : Minter) : ℕ := m.lastMS.toNat*256^10+Base32.value m.lastEntropy.bytes

def raw (m : Minter) : Bytes := timestamp m.lastMS ++ m.lastEntropy.bytes

theorem length_raw (m : Minter) : m.raw.length = 16 := by
  rw [raw,List.length_append,length_timestamp,m.lastEntropy.length]

theorem value_raw (h : m.lastMS.toNat < 2^48) : Base32.value m.raw = m.number := by
  rw [raw,Base32.value_append,value_timestamp _ h,m.lastEntropy.length,number]

theorem next_lastMS (m : Minter) (x : Reading) : (m.next x).lastMS = x.ms := by
  simp only [next,newEventID]
  split_ifs with h
  · exact h.symm
  · rfl

theorem newEventID_fst (m : Minter) (x : Reading) :
    (m.newEventID x).1 = encodeToString (m.next x).raw := by
  rw [raw,next_lastMS]
  rfl

/-- If the clock does not go back and the increment does not overflow, the number grows. -/
theorem number_lt_next (hclock : m.lastMS ≤ x.ms)
    (hentropy : x.ms = m.lastMS → ¬m.lastEntropy.AllOnes) : m.number < (m.next x).number := by
  by_cases hms : x.ms = m.lastMS
  · have hnext : m.next x = { m with lastEntropy := m.lastEntropy.increment } := by
      simp [next,newEventID,hms]
    rw [hnext,number,number,m.lastEntropy.value_increment (hentropy hms)]
    dsimp only
    omega
  · have hnext : m.next x = ⟨x.ms,x.draw⟩ := by simp [next,newEventID,hms]
    have hvalue := Base32.value_lt m.lastEntropy.bytes
    have hlt : m.lastMS.toNat < x.ms.toNat := by
      have hle := UInt64.le_iff_toNat_le.mp hclock
      have hne : x.ms.toNat ≠ m.lastMS.toNat := fun h => hms (UInt64.toNat_inj.mp h)
      omega
    rw [m.lastEntropy.length] at hvalue
    rw [hnext,number,number]
    dsimp only
    omega

end Minter

section Letters

theorem idAlphabet_lt (d e : ℕ) (hd : d < e) (he : e < 32) :
    (idAlphabet.toList.getD d '0').toNat.toUInt8 <
      (idAlphabet.toList.getD e '0').toNat.toUInt8 := by
  have h : ∀ e < 32, ∀ d < e, (idAlphabet.toList.getD d '0').toNat.toUInt8 <
      (idAlphabet.toList.getD e '0').toNat.toUInt8 := by decide
  exact h e he d hd

theorem idAlphabet_mem : ∀ d < 32, idAlphabet.toList.getD d '0' ∈ idAlphabet.toList := by decide

theorem length_encodeToString {raw : Bytes} (h : raw.length = 16) :
    (encodeToString raw).length = 26 := by
  have hdigits := Base32.length_encode raw
  rw [h] at hdigits
  have hfill : Base32.fill 16 = 2 := rfl
  rw [hfill] at hdigits
  rw [encodeToString,String.length_ofList,List.length_map]
  omega

theorem mem_idAlphabet_of_mem {raw : Bytes} {c : Char} (h : c ∈ (encodeToString raw).toList) :
    c ∈ idAlphabet.toList := by
  rw [encodeToString,String.toList_ofList] at h
  obtain ⟨d,hd,rfl⟩ := List.mem_map.mp h
  exact idAlphabet_mem d (Base32.lt_of_mem_encode raw hd)

theorem encodeToString_lt {raw raw' : Bytes} (hlength : raw.length = raw'.length)
    (h : Base32.value raw < Base32.value raw') :
    ascii (encodeToString raw) < ascii (encodeToString raw') := by
  have hdigits := (Base32.encode_lt_iff hlength).mpr h
  have hbytes := map_lt_map idAlphabet_lt (fun _ => Base32.lt_of_mem_encode raw') hdigits
  simpa [ascii,encodeToString,Function.comp_def] using hbytes

end Letters

namespace Minter

theorem encodeToString_raw_lt {m m' : Minter} (hm : m.lastMS.toNat < 2^48)
    (hm' : m'.lastMS.toNat < 2^48) (h : m.number < m'.number) :
    ascii (encodeToString m.raw) < ascii (encodeToString m'.raw) := by
  apply encodeToString_lt
  · rw [length_raw,length_raw]
  · rwa [value_raw hm,value_raw hm']

/-- No call increments entropy that is all ones. -/
def NoOverflow (m : Minter) (xs : List Reading) : Prop :=
  Along next (fun m x => x.ms = m.lastMS → ¬m.lastEntropy.AllOnes) m xs

instance (m : Minter) (xs : List Reading) : Decidable (m.NoOverflow xs) :=
  inferInstanceAs (Decidable (Along _ _ m xs))

theorem newEventIDs_pairwise (m : Minter) (xs : List Reading)
    (hlast : m.lastMS.toNat < 2^48) (hms : ∀ x ∈ xs, x.ms.toNat < 2^48)
    (hclock : xs.Pairwise fun x y => x.ms ≤ y.ms) (hstart : ∀ x ∈ xs, m.lastMS ≤ x.ms)
    (hentropy : m.NoOverflow xs) :
    (∀ id ∈ m.newEventIDs xs, ascii (encodeToString m.raw) < ascii id) ∧
    (m.newEventIDs xs).Pairwise fun a b => ascii a < ascii b := by
  induction xs generalizing m with
  | nil => simp [newEventIDs]
  | cons x xs ih =>
    obtain ⟨hfirst,hrest⟩ := hentropy
    have hms := List.forall_mem_cons.mp hms
    have hclock := List.pairwise_cons.mp hclock
    have hnext : (m.next x).lastMS.toNat < 2^48 := by
      rw [next_lastMS]
      exact hms.1
    have hlater : ∀ y ∈ xs, (m.next x).lastMS ≤ y.ms := by
      rw [next_lastMS]
      exact hclock.1
    obtain ⟨hafter,hpairwise⟩ := ih (m.next x) hnext hms.2 hclock.2 hlater hrest
    have hlt : ascii (encodeToString m.raw) < ascii (encodeToString (m.next x).raw) :=
      encodeToString_raw_lt hlast hnext (number_lt_next (hstart x List.mem_cons_self) hfirst)
    rw [newEventIDs,newEventID_fst]
    constructor
    · intro id hid
      rcases List.mem_cons.mp hid with rfl | hid
      · exact hlt
      · exact List.lt_trans hlt (hafter id hid)
    · exact List.pairwise_cons.mpr ⟨hafter,hpairwise⟩

theorem newEventIDs_letters (m : Minter) (xs : List Reading) :
    ∀ id ∈ m.newEventIDs xs, id.length = 26 ∧ ∀ c ∈ id.toList, c ∈ idAlphabet.toList := by
  induction xs generalizing m with
  | nil => simp [newEventIDs]
  | cons x xs ih =>
    intro id hid
    rcases List.mem_cons.mp hid with rfl | hid
    · rw [newEventID_fst]
      exact ⟨length_encodeToString (length_raw _),fun _ => mem_idAlphabet_of_mem⟩
    · exact ih (m.next x) id hid

/-- The ids of any calls under a clock that does not go back, below 2⁴⁸ milliseconds, with any
draws and no increment of entropy that is all ones: each has 26 letters of the alphabet, they
increase strictly by their bytes, and no two are the same. -/
theorem newEventIDs_increasing (xs : List Reading) (hms : ∀ x ∈ xs, x.ms.toNat < 2^48)
    (hclock : xs.Pairwise fun x y => x.ms ≤ y.ms) (hentropy : NoOverflow {} xs) :
    (∀ id ∈ newEventIDs {} xs, id.length = 26 ∧ ∀ c ∈ id.toList, c ∈ idAlphabet.toList) ∧
    (newEventIDs {} xs).Pairwise (fun a b => ascii a < ascii b) ∧ (newEventIDs {} xs).Nodup := by
  have hstart : ∀ x ∈ xs, (0 : UInt64) ≤ x.ms := fun x _ => UInt64.zero_le
  have hpairwise := (newEventIDs_pairwise {} xs (by decide) hms hclock hstart hentropy).2
  refine ⟨newEventIDs_letters {} xs,hpairwise,?_⟩
  apply hpairwise.imp
  rintro a b hlt rfl
  exact List.lt_irrefl _ hlt

/-- Three calls, two of them in one millisecond with a carry over two bytes. -/
theorem newEventIDs_increasing_carry :
    let draw : Entropy := ⟨[1,2,3,4,5,6,7,8,255,255],rfl⟩
    let xs : List Reading := [⟨1700000000000,draw⟩,⟨1700000000000,draw⟩,⟨1700000000001,.zero⟩]
    (newEventIDs {} xs).Pairwise (fun a b => ascii a < ascii b) ∧
    newEventIDs {} xs =
      ["065WZSB8000G40R40M30E27ZZW","065WZSB8000G40R40M30E28000","065WZSB8040000000000000000"] := by
  intro draw xs
  refine ⟨(newEventIDs_increasing xs (by decide) (by decide) (by decide)).2.1,?_⟩
  decide

def after (xs : ℕ → Reading) : ℕ → Minter
  | 0 => {}
  | n+1 => (after xs n).next (xs n)

end Minter

/-- A runtime that refuses nothing, with the ids of `newEventID`. -/
def Runtime.minting (xs : ℕ → Reading) : Runtime where
  newEventID n := ((Minter.after xs n).newEventID (xs n)).1

/-- The agent never gets one id twice. -/
theorem Runtime.minting_injective (xs : ℕ → Reading) (hms : ∀ n, (xs n).ms.toNat < 2^48)
    (hclock : ∀ n, (xs n).ms ≤ (xs (n+1)).ms)
    (hentropy : ∀ n, (xs n).ms = (Minter.after xs n).lastMS →
      ¬(Minter.after xs n).lastEntropy.AllOnes) :
    Function.Injective (Runtime.minting xs).newEventID := by
  have hlast (n : ℕ) : (Minter.after xs (n+1)).lastMS = (xs n).ms := Minter.next_lastMS _ _
  have hgrows : StrictMono fun n => (Minter.after xs (n+1)).number := by
    apply strictMono_nat_of_lt_succ
    intro n
    apply Minter.number_lt_next
    · rw [hlast]
      exact hclock n
    · exact hentropy (n+1)
  have hne {n k : ℕ} (hlt : n < k) :
      (Runtime.minting xs).newEventID n ≠ (Runtime.minting xs).newEventID k := by
    have hids : ascii (encodeToString (Minter.after xs (n+1)).raw) <
        ascii (encodeToString (Minter.after xs (k+1)).raw) := by
      apply Minter.encodeToString_raw_lt
      · rw [hlast]
        exact hms n
      · rw [hlast]
        exact hms k
      · exact hgrows hlt
    intro heq
    have hraw : encodeToString (Minter.after xs (n+1)).raw =
        encodeToString (Minter.after xs (k+1)).raw := by
      rw [Minter.after,Minter.after,← Minter.newEventID_fst,← Minter.newEventID_fst]
      exact heq
    rw [hraw] at hids
    exact List.lt_irrefl _ hids
  intro n k heq
  rcases lt_trichotomy n k with hlt | rfl | hgt
  · exact absurd heq (hne hlt)
  · rfl
  · exact absurd heq.symm (hne hgt)

end ChainKit.CloudAgent
