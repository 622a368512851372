import ChainKit.Lib.Text

/-! The hash function SHA-256 on byte strings, and the keyed HMAC over it. A word is a number
below 2³². -/
namespace ChainKit.Lib.Sha256

def rotr (n x : ℕ) : ℕ := (x >>> n ||| x <<< (32-n)) % 2^32

def ch (x y z : ℕ) : ℕ := (x &&& y) ^^^ ((2^32-1-x) &&& z)
def maj (x y z : ℕ) : ℕ := (x &&& y) ^^^ (x &&& z) ^^^ (y &&& z)
def bigSigma0 (x : ℕ) : ℕ := rotr 2 x ^^^ rotr 13 x ^^^ rotr 22 x
def bigSigma1 (x : ℕ) : ℕ := rotr 6 x ^^^ rotr 11 x ^^^ rotr 25 x
def smallSigma0 (x : ℕ) : ℕ := rotr 7 x ^^^ rotr 18 x ^^^ (x >>> 3)
def smallSigma1 (x : ℕ) : ℕ := rotr 17 x ^^^ rotr 19 x ^^^ (x >>> 10)

structure State where
  a : ℕ
  b : ℕ
  c : ℕ
  d : ℕ
  e : ℕ
  f : ℕ
  g : ℕ
  h : ℕ

/-- The first bits of the fractional parts of the square roots of the first eight primes. -/
def initial : State :=
  ⟨0x6a09e667,0xbb67ae85,0x3c6ef372,0xa54ff53a,0x510e527f,0x9b05688c,0x1f83d9ab,0x5be0cd19⟩

/-- The round constants, from the cube roots of the first sixty-four primes. -/
def constants : List ℕ :=
  [0x428a2f98,0x71374491,0xb5c0fbcf,0xe9b5dba5,0x3956c25b,0x59f111f1,0x923f82a4,0xab1c5ed5,
    0xd807aa98,0x12835b01,0x243185be,0x550c7dc3,0x72be5d74,0x80deb1fe,0x9bdc06a7,0xc19bf174,
    0xe49b69c1,0xefbe4786,0x0fc19dc6,0x240ca1cc,0x2de92c6f,0x4a7484aa,0x5cb0a9dc,0x76f988da,
    0x983e5152,0xa831c66d,0xb00327c8,0xbf597fc7,0xc6e00bf3,0xd5a79147,0x06ca6351,0x14292967,
    0x27b70a85,0x2e1b2138,0x4d2c6dfc,0x53380d13,0x650a7354,0x766a0abb,0x81c2c92e,0x92722c85,
    0xa2bfe8a1,0xa81a664b,0xc24b8b70,0xc76c51a3,0xd192e819,0xd6990624,0xf40e3585,0x106aa070,
    0x19a4c116,0x1e376c08,0x2748774c,0x34b0bcb5,0x391c0cb3,0x4ed8aa4a,0x5b9cca4f,0x682e6ff3,
    0x748f82ee,0x78a5636f,0x84c87814,0x8cc70208,0x90befffa,0xa4506ceb,0xbef9a3f7,0xc67178f2]

/-- Extend the message schedule, kept with its newest word in front. -/
def extend : ℕ → List ℕ → List ℕ
  | 0,ws => ws
  | n+1,ws =>
    let w := (smallSigma1 (ws.getD 1 0)+ws.getD 6 0+smallSigma0 (ws.getD 14 0)+ws.getD 15 0) % 2^32
    extend n (w :: ws)

def schedule (block : List ℕ) : List ℕ := (extend 48 block.reverse).reverse

def round (s : State) (kw : ℕ × ℕ) : State :=
  let t1 := (s.h+bigSigma1 s.e+ch s.e s.f s.g+kw.1+kw.2) % 2^32
  let t2 := (bigSigma0 s.a+maj s.a s.b s.c) % 2^32
  ⟨(t1+t2) % 2^32,s.a,s.b,s.c,(s.d+t1) % 2^32,s.e,s.f,s.g⟩

def compress (s : State) (block : List ℕ) : State :=
  let r := (constants.zip (schedule block)).foldl round s
  ⟨(s.a+r.a) % 2^32,(s.b+r.b) % 2^32,(s.c+r.c) % 2^32,(s.d+r.d) % 2^32,
    (s.e+r.e) % 2^32,(s.f+r.f) % 2^32,(s.g+r.g) % 2^32,(s.h+r.h) % 2^32⟩

def bigEndian : ℕ → ℕ → Bytes
  | 0,_ => []
  | n+1,x => (x / 256^n % 256).toUInt8 :: bigEndian n x

def words : Bytes → List ℕ
  | a :: b :: c :: d :: rest =>
    (((a.toNat*256+b.toNat)*256+c.toNat)*256+d.toNat) :: words rest
  | _ => []

/-- A one bit, zeros up to a whole block, and the length in bits. -/
def pad (m : Bytes) : Bytes :=
  m ++ 0x80 :: (List.replicate ((119-m.length % 64) % 64) 0 ++ bigEndian 8 (8*m.length % 2^64))

def compressBlocks : ℕ → State → List ℕ → State
  | 0,s,_ => s
  | n+1,s,ws => compressBlocks n (compress s (ws.take 16)) (ws.drop 16)

def State.bytes (s : State) : Bytes :=
  bigEndian 4 s.a ++ bigEndian 4 s.b ++ bigEndian 4 s.c ++ bigEndian 4 s.d ++
    bigEndian 4 s.e ++ bigEndian 4 s.f ++ bigEndian 4 s.g ++ bigEndian 4 s.h

def sum256 (m : Bytes) : Bytes :=
  (compressBlocks ((m.length+72)/64) initial (words (pad m))).bytes

/-- The keyed hash HMAC with SHA-256. -/
def hmac (key m : Bytes) : Bytes :=
  let key := if 64 < key.length then sum256 key else key
  let key := key ++ List.replicate (64-key.length) 0
  sum256 (key.map (· ^^^ 0x5c) ++ sum256 (key.map (· ^^^ 0x36) ++ m))

@[simp] theorem length_bigEndian (n x : ℕ) : (bigEndian n x).length = n := by
  induction n with
  | zero => rfl
  | succ n ih => simp [bigEndian,ih]

@[simp] theorem length_sum256 (m : Bytes) : (sum256 m).length = 32 := by
  simp [sum256,State.bytes]

example : hexEncode (sum256 (ascii "abc")) =
    ascii "ba7816bf8f01cfea414140de5dae2223b00361a396177a9cb410ff61f20015ad" := by
  decide +kernel

end ChainKit.Lib.Sha256
