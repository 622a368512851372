import Mathlib

/-! Texts as strings of bytes: hexadecimal digits, decimal numbers, the cut at a separator and the
white space around a text. -/
namespace ChainKit.Lib

abbrev Bytes := List UInt8

/-- The bytes of a text in ASCII. -/
def ascii (s : String) : Bytes := s.toList.map (fun c => c.toNat.toUInt8)

def hexChar (n : ℕ) : UInt8 := if n < 10 then (48+n).toUInt8 else (87+n).toUInt8

/-- The value of a hexadecimal digit in either case. -/
def fromHexChar (c : UInt8) : Option ℕ :=
  if 48 ≤ c ∧ c ≤ 57 then some (c.toNat-48)
  else if 97 ≤ c ∧ c ≤ 102 then some (c.toNat-87)
  else if 65 ≤ c ∧ c ≤ 70 then some (c.toNat-55)
  else none

def hexEncode : Bytes → Bytes
  | [] => []
  | b :: bs => hexChar (b.toNat/16) :: hexChar (b.toNat%16) :: hexEncode bs

/-- Two digits for each byte; an odd digit or another character is an error. -/
def hexDecode : Bytes → Option Bytes
  | [] => some []
  | [_] => none
  | high :: low :: rest => do
    let h ← fromHexChar high
    let l ← fromHexChar low
    let bs ← hexDecode rest
    some ((16*h+l).toUInt8 :: bs)

theorem fromHexChar_hexChar : ∀ n < 16, fromHexChar (hexChar n) = some n := by decide

theorem hexDecode_hexEncode (bs : Bytes) : hexDecode (hexEncode bs) = some bs := by
  induction bs with
  | nil => rfl
  | cons b bs ih =>
    have hb := b.toNat_lt
    have hhigh := fromHexChar_hexChar (b.toNat/16) (by omega)
    have hlow := fromHexChar_hexChar (b.toNat%16) (by omega)
    have hvalue : (16*(b.toNat/16)+b.toNat%16).toUInt8 = b := by
      rw [Nat.div_add_mod]
      exact UInt8.ofNat_toNat
    simp only [hexEncode,hexDecode,hhigh,hlow,ih,Option.bind_eq_bind,Option.bind_some,hvalue]

theorem hexEncode_injective : Function.Injective hexEncode := by
  intro bs bs' h
  have hdecode := congrArg hexDecode h
  rw [hexDecode_hexEncode,hexDecode_hexEncode] at hdecode
  exact Option.some.inj hdecode

theorem length_of_hexDecode {src bs : Bytes} (h : hexDecode src = some bs) :
    src.length = 2*bs.length := by
  induction src using hexDecode.induct generalizing bs with
  | case1 =>
    cases h
    rfl
  | case2 => cases h
  | case3 high low rest ih =>
    simp only [hexDecode,Option.bind_eq_bind,Option.bind_eq_some_iff,Option.some.injEq] at h
    obtain ⟨_,_,_,_,bs',hbs',rfl⟩ := h
    have hlength := ih hbs'
    simp only [List.length_cons]
    omega

def digit (n : ℕ) : UInt8 := (48+n).toUInt8

def formatUint (n : ℕ) : Bytes :=
  if n = 0 then [digit 0] else ((Nat.digits 10 n).map digit).reverse

/-- A number in decimal digits, with a sign when it is negative. -/
def formatInt (n : ℤ) : Bytes :=
  if n < 0 then 45 :: formatUint n.natAbs else formatUint n.natAbs

/-- Read decimal digits behind what has been read before. -/
def parseDigits (n : ℕ) : Bytes → Option ℕ
  | [] => some n
  | c :: rest => if 48 ≤ c ∧ c ≤ 57 then parseDigits (10*n+(c.toNat-48)) rest else none

/-- At least one digit and nothing else. -/
def parseUint (s : Bytes) : Option ℕ := if s = [] then none else parseDigits 0 s

/-- An optional sign, then digits. -/
def parseInt : Bytes → Option ℤ
  | [] => none
  | c :: rest =>
    if c = 43 then (parseUint rest).map (fun n => (n : ℤ))
    else if c = 45 then (parseUint rest).map (fun n => -(n : ℤ))
    else (parseUint (c :: rest)).map (fun n => (n : ℤ))

theorem digit_spec : ∀ n < 10, (48 ≤ digit n ∧ digit n ≤ 57) ∧ (digit n).toNat-48 = n := by decide

theorem parseDigits_append (s t : Bytes) (n : ℕ) :
    parseDigits n (s ++ t) = (parseDigits n s).bind (fun m => parseDigits m t) := by
  induction s generalizing n with
  | nil => rfl
  | cons c s ih =>
    simp only [List.cons_append,parseDigits]
    split_ifs
    · exact ih _
    · rfl

theorem parseDigits_reverse (ds : List ℕ) (hds : ∀ d ∈ ds, d < 10) (n : ℕ) :
    parseDigits n (ds.map digit).reverse = some (10^ds.length*n+Nat.ofDigits 10 ds) := by
  induction ds with
  | nil => simp [parseDigits]
  | cons d ds ih =>
    obtain ⟨hd,hrest⟩ := List.forall_mem_cons.mp hds
    obtain ⟨hrange,hvalue⟩ := digit_spec d hd
    rw [List.map_cons,List.reverse_cons,parseDigits_append,ih hrest]
    simp only [Option.bind_some,parseDigits,if_pos hrange,hvalue,Nat.ofDigits_cons,
      List.length_cons,pow_succ,Option.some.injEq]
    ring

theorem formatUint_ne_nil (n : ℕ) : formatUint n ≠ [] := by
  unfold formatUint
  split_ifs with hn
  · simp
  · simpa using Nat.digits_ne_nil_iff_ne_zero.mpr hn

theorem parseUint_formatUint (n : ℕ) : parseUint (formatUint n) = some n := by
  rw [parseUint,if_neg (formatUint_ne_nil n),formatUint]
  split_ifs with hn
  · rw [hn]
    rfl
  · rw [parseDigits_reverse _ (fun d hd => Nat.digits_lt_base (by decide) hd),Nat.ofDigits_digits]
    simp

theorem mem_formatUint {n : ℕ} {c : UInt8} (hc : c ∈ formatUint n) : 48 ≤ c ∧ c ≤ 57 := by
  unfold formatUint at hc
  split_ifs at hc with hn
  · rw [List.mem_singleton.mp hc]
    decide
  · obtain ⟨d,hd,rfl⟩ := List.mem_map.mp (List.mem_reverse.mp hc)
    exact (digit_spec d (Nat.digits_lt_base (by decide) hd)).1

theorem mem_formatInt {n : ℤ} {c : UInt8} (hc : c ∈ formatInt n) :
    c = 45 ∨ 48 ≤ c ∧ c ≤ 57 := by
  unfold formatInt at hc
  split_ifs at hc with hn
  · rcases List.mem_cons.mp hc with h | h
    · exact .inl h
    · exact .inr (mem_formatUint h)
  · exact .inr (mem_formatUint hc)

theorem parseInt_formatInt (n : ℤ) : parseInt (formatInt n) = some n := by
  unfold formatInt
  split_ifs with hn
  · simp only [parseInt,parseUint_formatUint]
    have habs : -(n.natAbs : ℤ) = n := by omega
    simpa using habs
  · cases hs : formatUint n.natAbs with
    | nil => exact absurd hs (formatUint_ne_nil _)
    | cons c rest =>
      have hc : 48 ≤ c ∧ c ≤ 57 := mem_formatUint (hs ▸ List.mem_cons_self)
      have hplus : c ≠ 43 := by
        rintro rfl
        exact absurd hc.1 (by decide)
      have hminus : c ≠ 45 := by
        rintro rfl
        exact absurd hc.1 (by decide)
      rw [parseInt,if_neg hplus,if_neg hminus,← hs,parseUint_formatUint]
      have habs : (n.natAbs : ℤ) = n := by omega
      simpa using habs

theorem formatInt_injective : Function.Injective formatInt := by
  intro n n' h
  have hparse := congrArg parseInt h
  rw [parseInt_formatInt,parseInt_formatInt] at hparse
  exact Option.some.inj hparse

def cut (sep : UInt8) (s : Bytes) : Option (Bytes × Bytes) :=
  match s.span (· != sep) with
  | (_,[]) => none
  | (before,_ :: after) => some (before,after)

theorem cut_append {sep : UInt8} {s : Bytes} (hs : sep ∉ s) (t : Bytes) :
    cut sep (s ++ sep :: t) = some (s,t) := by
  have hall : ∀ c ∈ s, (c != sep) = true := by
    intro c hc
    rw [bne_iff_ne]
    rintro rfl
    exact hs hc
  have htake : (s ++ sep :: t).takeWhile (· != sep) = s := by
    rw [List.takeWhile_append_of_pos hall]
    simp
  have hdrop : (s ++ sep :: t).dropWhile (· != sep) = sep :: t := by
    rw [List.dropWhile_append_of_pos hall]
    simp
  simp only [cut,List.span_eq_takeWhile_dropWhile,htake,hdrop]

theorem cut_eq_some_iff {sep : UInt8} {s before after : Bytes} :
    cut sep s = some (before,after) ↔ s = before ++ sep :: after ∧ sep ∉ before := by
  constructor
  · intro h
    unfold cut at h
    rw [List.span_eq_takeWhile_dropWhile] at h
    split at h
    · cases h
    · rename_i front c back hspan
      cases h
      obtain ⟨hfront,hback⟩ := Prod.mk.inj hspan
      have hc : c = sep := by
        have hhead := List.head_dropWhile_not (p := (· != sep)) (l := s) (by simp [hback])
        simpa [hback] using hhead
      refine ⟨?_,?_⟩
      · rw [← hc,← hback,← hfront,List.takeWhile_append_dropWhile]
      · rw [← hfront]
        intro hmem
        simpa using List.mem_takeWhile_imp hmem
  · rintro ⟨rfl,h⟩
    exact cut_append h after

/-- A text without the separator in front of it determines where it is cut. -/
theorem append_cons_inj {sep : UInt8} {s t s' t' : Bytes} (hs : sep ∉ s) (hs' : sep ∉ s')
    (h : s ++ sep :: t = s' ++ sep :: t') : s = s' ∧ t = t' := by
  have hcut := cut_append hs t
  rw [h,cut_append hs' t'] at hcut
  simpa [eq_comm] using hcut

/-- The last decimal digits of a number, with zeros in front. -/
def padDigits : ℕ → ℕ → Bytes
  | 0,_ => []
  | k+1,n => padDigits k (n/10) ++ [digit (n%10)]

@[simp] theorem length_padDigits (k n : ℕ) : (padDigits k n).length = k := by
  induction k generalizing n with
  | zero => rfl
  | succ k ih => simp [padDigits,ih]

theorem parseDigits_padDigits (k n m : ℕ) :
    parseDigits m (padDigits k n) = some (10^k*m+n%10^k) := by
  induction k generalizing n m with
  | zero => simp [padDigits,parseDigits,Nat.mod_one]
  | succ k ih =>
    obtain ⟨hrange,hvalue⟩ := digit_spec (n%10) (Nat.mod_lt n (by decide))
    rw [padDigits,parseDigits_append,ih]
    simp only [Option.bind_some,parseDigits,if_pos hrange,hvalue,Option.some.injEq,pow_succ']
    rw [Nat.mod_mul]
    ring

theorem mem_padDigits {k n : ℕ} {c : UInt8} (hc : c ∈ padDigits k n) : 48 ≤ c ∧ c ≤ 57 := by
  induction k generalizing n with
  | zero => cases hc
  | succ k ih =>
    rcases List.mem_append.mp hc with h | h
    · exact ih h
    · rw [List.mem_singleton.mp h]
      exact (digit_spec (n%10) (Nat.mod_lt n (by decide))).1

/-- A number of units of which there are `10^d` in a whole, with `d` digits behind the point. -/
def formatDecimal (d n : ℕ) : Bytes := formatUint (n/10^d) ++ 0x2e :: padDigits d n

/-- Digits, and digits behind a point if there is one. -/
def parseDecimal (s : Bytes) : Option ℚ :=
  match cut 0x2e s with
  | none => (parseUint s).map fun n => (n : ℚ)
  | some (whole,fraction) => do
    let n ← parseUint whole
    let k ← parseDigits 0 fraction
    some (n+k/10^fraction.length)

theorem mem_formatDecimal {d n : ℕ} {c : UInt8} (hc : c ∈ formatDecimal d n) :
    c = 0x2e ∨ 48 ≤ c ∧ c ≤ 57 := by
  rcases List.mem_append.mp hc with h | h
  · exact .inr (mem_formatUint h)
  · rcases List.mem_cons.mp h with h | h
    · exact .inl h
    · exact .inr (mem_padDigits h)

theorem parseDecimal_formatDecimal (d n : ℕ) :
    parseDecimal (formatDecimal d n) = some ((n : ℚ)/10^d) := by
  have hpoint : (0x2e : UInt8) ∉ formatUint (n/10^d) := by
    intro h
    exact absurd (mem_formatUint h).1 (by decide)
  have hsplit : (n : ℚ) = 10^d*(n/10^d : ℕ)+(n%10^d : ℕ) := by
    exact_mod_cast (Nat.div_add_mod n (10^d)).symm
  have hvalue : ((n/10^d : ℕ) : ℚ)+((n%10^d : ℕ) : ℚ)/10^d = n/10^d := by
    have hten : (10 : ℚ)^d ≠ 0 := by positivity
    rw [eq_div_iff hten,add_mul,div_mul_cancel₀ _ hten,mul_comm,← hsplit]
  simp only [parseDecimal,formatDecimal,cut_append hpoint,parseUint_formatUint,
    parseDigits_padDigits,Option.bind_eq_bind,Option.bind_some,length_padDigits]
  simpa using hvalue

def isSpace1 (a : UInt8) : Bool := a == 0x20 || decide (0x09 ≤ a ∧ a ≤ 0x0d)

/-- White space of two bytes: next line and the no-break space. -/
def isSpace2 (a b : UInt8) : Bool := a == 0xc2 && (b == 0x85 || b == 0xa0)

/-- White space of three bytes: the ogham, typographic, line, paragraph and ideographic ones. -/
def isSpace3 (a b c : UInt8) : Bool :=
  (a == 0xe1 && b == 0x9a && c == 0x80) ||
  (a == 0xe2 && b == 0x80 &&
    (decide (0x80 ≤ c ∧ c ≤ 0x8a) || c == 0xa8 || c == 0xa9 || c == 0xaf)) ||
  (a == 0xe2 && b == 0x81 && c == 0x9f) ||
  (a == 0xe3 && b == 0x80 && c == 0x80)

/-- Drop white space in front, which is told by `two` and `three` where it takes several bytes. -/
def dropSpaces (two : UInt8 → UInt8 → Bool) (three : UInt8 → UInt8 → UInt8 → Bool) :
    Bytes → Bytes
  | [] => []
  | [a] => if isSpace1 a then [] else [a]
  | [a,b] =>
    if isSpace1 a then dropSpaces two three [b] else if two a b then [] else [a,b]
  | a :: b :: c :: rest =>
    if isSpace1 a then dropSpaces two three (b :: c :: rest)
    else if two a b then dropSpaces two three (c :: rest)
    else if three a b c then dropSpaces two three rest
    else a :: b :: c :: rest

def trimSpace (s : Bytes) : Bytes :=
  let left := dropSpaces isSpace2 isSpace3 s
  (dropSpaces (fun a b => isSpace2 b a) (fun a b c => isSpace3 c b a) left.reverse).reverse

theorem mem_dropSpaces {two : UInt8 → UInt8 → Bool} {three : UInt8 → UInt8 → UInt8 → Bool}
    {x : UInt8} (h1 : isSpace1 x = false) (h2 : ∀ a b, two a b = true → x ≠ a ∧ x ≠ b)
    (h3 : ∀ a b c, three a b c = true → x ≠ a ∧ x ≠ b ∧ x ≠ c) (s : Bytes) (hx : x ∈ s) :
    x ∈ dropSpaces two three s := by
  have hspace : ∀ a, isSpace1 a = true → x ≠ a := by
    rintro a ha rfl
    rw [h1] at ha
    cases ha
  fun_induction dropSpaces two three s with
  | case1 => exact hx
  | case2 a ha => exact absurd (List.mem_singleton.mp hx) (hspace a ha)
  | case3 a ha => exact hx
  | case4 a b ha ih => exact ih ((List.mem_cons.mp hx).resolve_left (hspace a ha))
  | case5 a b ha hab =>
    rcases List.mem_cons.mp hx with h | h
    · exact absurd h (h2 a b hab).1
    · exact absurd (List.mem_singleton.mp h) (h2 a b hab).2
  | case6 a b ha hab => exact hx
  | case7 a b c rest ha ih => exact ih ((List.mem_cons.mp hx).resolve_left (hspace a ha))
  | case8 a b c rest ha hab ih =>
    have hrest := (List.mem_cons.mp hx).resolve_left (h2 a b hab).1
    exact ih ((List.mem_cons.mp hrest).resolve_left (h2 a b hab).2)
  | case9 a b c rest ha hab habc ih =>
    obtain ⟨hxa,hxb,hxc⟩ := h3 a b c habc
    have hrest := (List.mem_cons.mp hx).resolve_left hxa
    have hrest' := (List.mem_cons.mp hrest).resolve_left hxb
    exact ih ((List.mem_cons.mp hrest').resolve_left hxc)
  | case10 a b c rest ha hab habc => exact hx

theorem isSpace2_ascii {a b x : UInt8} (hx : x < 0x80) (h : isSpace2 a b = true) :
    x ≠ a ∧ x ≠ b := by
  simp only [isSpace2,Bool.and_eq_true,Bool.or_eq_true,beq_iff_eq] at h
  constructor <;> rintro rfl <;> rcases h with ⟨rfl,rfl | rfl⟩ <;> exact absurd hx (by decide)

theorem isSpace3_ascii {a b c x : UInt8} (hx : x < 0x80) (h : isSpace3 a b c = true) :
    x ≠ a ∧ x ≠ b ∧ x ≠ c := by
  have hle : (0x80 : UInt8) ≤ a ∧ (0x80 : UInt8) ≤ b ∧ (0x80 : UInt8) ≤ c := by
    simp only [isSpace3,Bool.and_eq_true,Bool.or_eq_true,beq_iff_eq,decide_eq_true_eq] at h
    rcases h with ((h | h) | h) | h
    · obtain ⟨⟨rfl,rfl⟩,rfl⟩ := h
      decide
    · obtain ⟨⟨rfl,rfl⟩,((h | rfl) | rfl) | rfl⟩ := h
      · exact ⟨by decide,by decide,h.1⟩
      · decide
      · decide
      · decide
    · obtain ⟨⟨rfl,rfl⟩,rfl⟩ := h
      decide
    · obtain ⟨⟨rfl,rfl⟩,rfl⟩ := h
      decide
  refine ⟨?_,?_,?_⟩ <;> rintro rfl
  · exact absurd hx (UInt8.not_lt.mpr hle.1)
  · exact absurd hx (UInt8.not_lt.mpr hle.2.1)
  · exact absurd hx (UInt8.not_lt.mpr hle.2.2)

theorem mem_trimSpace {x : UInt8} (h1 : isSpace1 x = false) (hx : x < 0x80) {s : Bytes}
    (hs : x ∈ s) : x ∈ trimSpace s := by
  have hleft : x ∈ dropSpaces isSpace2 isSpace3 s :=
    mem_dropSpaces h1 (fun _ _ => isSpace2_ascii hx) (fun _ _ _ => isSpace3_ascii hx) s hs
  rw [trimSpace,List.mem_reverse]
  apply mem_dropSpaces h1
  · intro a b h
    exact (isSpace2_ascii hx h).symm
  · intro a b c h
    obtain ⟨hc,hb,ha⟩ := isSpace3_ascii hx h
    exact ⟨ha,hb,hc⟩
  · exact List.mem_reverse.mpr hleft

end ChainKit.Lib
