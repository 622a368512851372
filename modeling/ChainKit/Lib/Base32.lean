import ChainKit.Lib.Positional
import ChainKit.Lib.Text

/-! Base 32 without padding: five bytes are eight digits, and the last digit of a shorter block at
the end is filled up with zero bits on the right. Byte strings of one length keep their order. -/
namespace ChainKit.Lib.Base32

def value (bs : Bytes) : ℕ := ofBigEndian 256 (bs.map UInt8.toNat)

/-- The zero bits that fill up the last digit for a number of bytes. -/
def fill (n : ℕ) : ℕ := (5-8*n%5)%5

def block (bs : Bytes) : List ℕ :=
  lastDigits 32 ((8*bs.length+fill bs.length)/5) (value bs*2^fill bs.length)

def encode : Bytes → List ℕ
  | a :: b :: c :: d :: e :: rest => block [a,b,c,d,e] ++ encode rest
  | bs => block bs

theorem value_lt (bs : Bytes) : value bs < 256^bs.length := by
  have hdigits : ∀ d ∈ bs.map UInt8.toNat, d < 256 := by
    intro d hd
    obtain ⟨c,_,rfl⟩ := List.mem_map.mp hd
    exact c.toNat_lt
  have h := ofBigEndian_lt (by decide) hdigits
  rwa [List.length_map] at h

theorem value_append (bs cs : Bytes) :
    value (bs ++ cs) = value bs*256^cs.length+value cs := by
  unfold value
  rw [List.map_append,ofBigEndian_append,List.length_map]

theorem length_block (bs : Bytes) : 5*(block bs).length = 8*bs.length+fill bs.length := by
  rw [block,length_lastDigits,fill]
  omega

theorem pow_digits {k n : ℕ} (h : 5*k = 8*n+fill n) : 32^k = 256^n*2^fill n := by
  have h32 : (32 : ℕ) = 2^5 := by norm_num
  have h256 : (256 : ℕ) = 2^8 := by norm_num
  rw [h32,h256,← pow_mul,← pow_mul,← pow_add,h]

theorem value_block (bs : Bytes) : ofBigEndian 32 (block bs) = value bs*2^fill bs.length := by
  have hlength := length_block bs
  rw [block,length_lastDigits] at hlength
  rw [block,ofBigEndian_lastDigits,pow_digits hlength]
  apply Nat.mod_eq_of_lt
  exact Nat.mul_lt_mul_of_pos_right (value_lt bs) (Nat.two_pow_pos _)

theorem lt_of_mem_encode {d : ℕ} (bs : Bytes) (h : d ∈ encode bs) : d < 32 := by
  fun_induction encode bs with
  | case1 a b c d e rest ih =>
    rcases List.mem_append.mp h with h | h
    · exact lt_of_mem_lastDigits (by decide) h
    · exact ih h
  | case2 bs => exact lt_of_mem_lastDigits (by decide) h

theorem fill_add_five (n : ℕ) : fill (n+5) = fill n := by
  unfold fill
  omega

theorem length_encode (bs : Bytes) : 5*(encode bs).length = 8*bs.length+fill bs.length := by
  fun_induction encode bs with
  | case1 a b c d e rest ih =>
    have hblock := length_block [a,b,c,d,e]
    have hfill : fill [a,b,c,d,e].length = 0 := by simp [fill]
    rw [hfill] at hblock
    simp only [List.length_cons,List.length_nil] at hblock
    simp only [List.length_append,List.length_cons,fill_add_five]
    omega
  | case2 bs => exact length_block bs

/-- The digits denote the number of the bytes, followed by the zero bits. -/
theorem value_encode (bs : Bytes) :
    ofBigEndian 32 (encode bs) = value bs*2^fill bs.length := by
  fun_induction encode bs with
  | case1 a b c d e rest ih =>
    have hblock : ofBigEndian 32 (block [a,b,c,d,e]) = value [a,b,c,d,e] := by
      rw [value_block]
      simp [fill]
    have hvalue : value (a :: b :: c :: d :: e :: rest) =
        value [a,b,c,d,e]*256^rest.length+value rest := value_append [a,b,c,d,e] rest
    have hfill : fill (a :: b :: c :: d :: e :: rest).length = fill rest.length :=
      fill_add_five rest.length
    rw [ofBigEndian_append,hblock,ih,pow_digits (length_encode rest),hvalue,hfill]
    ring
  | case2 bs => exact value_block bs

/-- Byte strings of one length are ordered as their digits are. -/
theorem encode_lt_iff {bs cs : Bytes} (hlength : bs.length = cs.length) :
    encode bs < encode cs ↔ value bs < value cs := by
  have hdigits : (encode bs).length = (encode cs).length := by
    have hbs := length_encode bs
    have hcs := length_encode cs
    rw [hlength] at hbs
    omega
  rw [lt_iff_ofBigEndian_lt (by decide) (fun _ => lt_of_mem_encode bs)
    (fun _ => lt_of_mem_encode cs) hdigits,value_encode,value_encode,hlength]
  exact Nat.mul_lt_mul_right (Nat.two_pow_pos _)

end ChainKit.Lib.Base32
