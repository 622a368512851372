import ChainKit.Lib.BinaryFloat
import ChainKit.Lib.Text

/-! Payment links. The amount is brought from the smallest unit of a coin to whole coins by a
division of floating-point numbers, and is then written with all decimals of the coin. -/
namespace ChainKit.Payment
open Lib

/-- `big.Float`, whose value has at most `prec` binary digits; zero is a precision not yet set. -/
structure BigFloat where
  value : ℚ
  prec : ℕ

namespace BigFloat

def new : BigFloat := ⟨0,0⟩

/-- `big.NewFloat`, for a constant that is rounded to a `float64` first. -/
def newFloat (x : ℚ) : BigFloat := ⟨roundToPrec 53 x,53⟩

def setInt (z : BigFloat) (x : ℤ) : BigFloat :=
  let prec := if z.prec = 0 then max x.natAbs.size 64 else z.prec
  ⟨roundToPrec prec x,prec⟩

def quo (z x y : BigFloat) : BigFloat :=
  let prec := if z.prec = 0 then max x.prec y.prec else z.prec
  ⟨roundToPrec prec (x.value/y.value),prec⟩

/-- `Text('f',decimals)` for at least one decimal. -/
def text (x : BigFloat) (decimals : ℕ) : Bytes :=
  let digits := formatDecimal decimals (roundHalfEven (|x.value| * 10^decimals)).toNat
  if x.value < 0 then 0x2d :: digits else digits

end BigFloat

abbrev Coin := Bytes

def BTC : Coin := ascii "bitcoin"
def ETH : Coin := ascii "ethereum"
def USDT : Coin := ascii "tether"

/-- The errors of the link, with their texts. -/
inductive LinkError
  | amountNil
  | walletEmpty
  | unsupportedCoin (coin : Coin)
  deriving DecidableEq

def LinkError.error : LinkError → Bytes
  | .amountNil => ascii "amount cannot be nil"
  | .walletEmpty => ascii "wallet public address cannot be empty"
  | .unsupportedCoin coin => ascii "unsupported coin: " ++ coin

structure BuildPaymentLinkOptions where
  walletAddress : Bytes
  coin : Coin
  amount : Option ℤ
  label : Bytes := []
  message : Bytes := []

/-- A character that `url.QueryEscape` leaves as it is. -/
def unreserved (c : UInt8) : Bool :=
  decide (0x41 ≤ c ∧ c ≤ 0x5a) || decide (0x61 ≤ c ∧ c ≤ 0x7a) || decide (0x30 ≤ c ∧ c ≤ 0x39) ||
    c == 0x2d || c == 0x5f || c == 0x2e || c == 0x7e

def upperHexChar (n : ℕ) : UInt8 := if n < 10 then (48+n).toUInt8 else (55+n).toUInt8

def queryEscape (s : Bytes) : Bytes :=
  s.flatMap fun c =>
    if unreserved c then [c]
    else if c = 0x20 then [0x2b]
    else [0x25,upperHexChar (c.toNat/16),upperHexChar (c.toNat%16)]

def appendOptionalParam (uri key value : Bytes) : Bytes :=
  if value = [] then uri else uri ++ ascii "&" ++ key ++ ascii "=" ++ queryEscape value

/-- The branch of `BuildPaymentLink` for a coin with the given number of decimals. -/
def coinLink (scheme : Bytes) (rate : ℚ) (decimals : ℕ) (options : BuildPaymentLinkOptions)
    (amount : ℤ) : Bytes :=
  let coinAmount := BigFloat.new.quo (BigFloat.new.setInt amount) (BigFloat.newFloat rate)
  let uri := scheme ++ ascii ":" ++ options.walletAddress ++ ascii "?amount=" ++
    coinAmount.text decimals
  let uri := appendOptionalParam uri (ascii "label") options.label
  appendOptionalParam uri (ascii "message") options.message

def buildPaymentLink (options : BuildPaymentLinkOptions) : Except LinkError Bytes :=
  match options.amount with
  | none => .error .amountNil
  | some amount =>
    if options.walletAddress = [] then .error .walletEmpty
    else if options.coin = BTC then .ok (coinLink (ascii "bitcoin") 1e8 8 options amount)
    else if options.coin = ETH then .ok (coinLink (ascii "ethereum") 1e18 18 options amount)
    else if options.coin = USDT then .ok (coinLink (ascii "tether") 1e6 6 options amount)
    else .error (.unsupportedCoin options.coin)

namespace BigFloat

theorem setInt_new (x : ℤ) : new.setInt x = ⟨x,max x.natAbs.size 64⟩ := by
  have hexact := roundToPrec_mul_zpow (n := x) (le_max_left x.natAbs.size 64) 0
  rw [zpow_zero,mul_one] at hexact
  simp only [setInt,new,if_pos,hexact]

theorem newFloat_ten_pow {d : ℕ} (h : (5^d).size ≤ 53) : newFloat (10^d) = ⟨10^d,53⟩ := by
  have hexact : roundToPrec 53 (((5^d : ℕ) : ℤ)*2^(d : ℤ)) = ((5^d : ℕ) : ℤ)*2^(d : ℤ) :=
    roundToPrec_mul_zpow h d
  have hten : (((5^d : ℕ) : ℤ) : ℚ)*2^(d : ℤ) = 10^d := by
    push_cast
    rw [zpow_natCast,← mul_pow]
    norm_num
  rw [hten] at hexact
  rw [newFloat,hexact]

theorem quo_setInt {d : ℕ} (h : (5^d).size ≤ 53) (x : ℤ) :
    new.quo (new.setInt x) (newFloat (10^d)) =
      ⟨roundToPrec (max x.natAbs.size 64) (x/10^d),max x.natAbs.size 64⟩ := by
  have hprec : max (max x.natAbs.size 64) 53 = max x.natAbs.size 64 := by omega
  rw [setInt_new,newFloat_ten_pow h]
  simp only [quo,new,if_pos,hprec]

theorem text_of_nonneg {value : ℚ} (h : 0 ≤ value) (prec d : ℕ) :
    text ⟨value,prec⟩ d = formatDecimal d (roundHalfEven (value*10^d)).toNat := by
  rw [text,if_neg (not_lt.mpr h),abs_of_nonneg h]

end BigFloat

/-- The amount is written as a number of units, the right one if it survives the scaling. -/
theorem amountText_spec {d : ℕ} (h : (5^d).size ≤ 53) (n : ℕ) :
    ∃ k : ℕ, (BigFloat.new.quo (BigFloat.new.setInt n) (BigFloat.newFloat (10^d))).text d =
        formatDecimal d k ∧ (k = n ↔ SurvivesScaling d n) := by
  have hnonneg : 0 ≤ roundToPrec (max n.size 64) ((n : ℚ)/10^d) :=
    roundToPrec_nonneg _ (by positivity)
  have hround := roundHalfEven_nonneg (mul_nonneg hnonneg (by positivity : (0 : ℚ) ≤ 10^d))
  have hlog : Nat.log 2 (5^d) < 64 :=
    (Nat.log_lt_of_lt_pow (by positivity) (Nat.size_le.mp h)).trans (by decide)
  rw [BigFloat.quo_setInt h,Int.natAbs_natCast,Int.cast_natCast,BigFloat.text_of_nonneg hnonneg]
  refine ⟨_,rfl,?_⟩
  rw [← survivesScaling_iff hlog]
  exact ⟨fun heq => by rw [← Int.toNat_of_nonneg hround,heq],
    fun heq => by rw [heq,Int.toNat_natCast]⟩

theorem appendOptionalParam_eq (uri key value : Bytes) :
    appendOptionalParam uri key value = uri ++ appendOptionalParam [] key value := by
  unfold appendOptionalParam
  split_ifs
  · rw [List.append_nil]
  · simp

/-- The coins with the number of their decimals. -/
def coins : List (Coin × ℕ) := [(BTC,8),(ETH,18),(USDT,6)]

theorem buildPaymentLink_coin {coin : Coin} {d : ℕ} (hcoin : (coin,d) ∈ coins)
    {options : BuildPaymentLinkOptions} {amount : ℤ} (hamount : options.amount = some amount)
    (hwallet : options.walletAddress ≠ []) (heq : options.coin = coin) :
    buildPaymentLink options = .ok (coinLink coin (10^d) d options amount) := by
  have heth : ETH ≠ BTC := by decide +kernel
  have husdt : USDT ≠ BTC ∧ USDT ≠ ETH := by decide +kernel
  simp only [coins,List.mem_cons,Prod.mk.injEq,List.not_mem_nil,or_false] at hcoin
  rcases hcoin with ⟨rfl,rfl⟩ | ⟨rfl,rfl⟩ | ⟨rfl,rfl⟩
  · have hrate : (1e8 : ℚ) = 10^8 := by norm_num
    simp only [buildPaymentLink,hamount,if_neg hwallet,heq,if_pos,hrate]
    rfl
  · have hrate : (1e18 : ℚ) = 10^18 := by norm_num
    simp only [buildPaymentLink,hamount,if_neg hwallet,heq,if_neg heth,if_pos,hrate]
    rfl
  · have hrate : (1e6 : ℚ) = 10^6 := by norm_num
    simp only [buildPaymentLink,hamount,if_neg hwallet,heq,if_neg husdt.1,if_neg husdt.2,if_pos,
      hrate]
    rfl

theorem size_five_pow {coin : Coin} {d : ℕ} (hcoin : (coin,d) ∈ coins) : (5^d).size ≤ 53 := by
  simp only [coins,List.mem_cons,Prod.mk.injEq,List.not_mem_nil,or_false] at hcoin
  rcases hcoin with ⟨-,rfl⟩ | ⟨-,rfl⟩ | ⟨-,rfl⟩ <;> decide +kernel

/-- A link states the amount exactly if and only if it survives the scaling to whole coins: it has
less than 64 binary digits, or the floating-point numbers around the quotient are closer than one
unit, or it is close enough to one of them. -/
theorem paymentLink_exact_iff {coin : Coin} {d : ℕ} (hcoin : (coin,d) ∈ coins) {wallet : Bytes}
    (hwallet : wallet ≠ []) (n : ℕ) (label message : Bytes) : ∃ text value,
    buildPaymentLink ⟨wallet,coin,some n,label,message⟩ =
        .ok (coin ++ ascii ":" ++ wallet ++ ascii "?amount=" ++ text ++
          appendOptionalParam [] (ascii "label") label ++
          appendOptionalParam [] (ascii "message") message) ∧
      (0x26 : UInt8) ∉ text ∧ parseDecimal text = some value ∧
      (value*10^d = n ↔ SurvivesScaling d n) := by
  obtain ⟨k,htext,hexact⟩ := amountText_spec (size_five_pow hcoin) n
  refine ⟨formatDecimal d k,k/10^d,?_,?_,parseDecimal_formatDecimal d k,?_⟩
  · rw [buildPaymentLink_coin hcoin rfl hwallet rfl,coinLink,← htext]
    simp only
    rw [appendOptionalParam_eq,appendOptionalParam_eq _ (ascii "label")]
  · intro hmem
    rcases mem_formatDecimal hmem with h | h
    · exact absurd h (by decide)
    · exact absurd h.1 (by decide)
  · rw [div_mul_cancel₀ _ (by positivity),Nat.cast_inj]
    exact hexact

theorem paymentLink_exact_satoshis : ∃ text value,
    buildPaymentLink ⟨ascii "bc1q",BTC,some (1500000 : ℕ),ascii "Shop",[]⟩ =
        .ok (BTC ++ ascii ":" ++ ascii "bc1q" ++ ascii "?amount=" ++ text ++
          appendOptionalParam [] (ascii "label") (ascii "Shop") ++
          appendOptionalParam [] (ascii "message") []) ∧
      (0x26 : UInt8) ∉ text ∧ parseDecimal text = some value ∧
      value*10^8 = (1500000 : ℕ) := by
  obtain ⟨text,value,hlink,hamp,hvalue,hexact⟩ :=
    paymentLink_exact_iff (by decide +kernel : (BTC,8) ∈ coins)
      (by decide +kernel : ascii "bc1q" ≠ []) 1500000 (ascii "Shop") []
  exact ⟨text,value,hlink,hamp,hvalue,hexact.mpr (by decide +kernel)⟩

/-- From 16 ether on, 64 binary digits are not enough for every wei: the link for 16.2 ether asks
for one wei more. -/
theorem paymentLink_not_exact :
    buildPaymentLink ⟨ascii "0xab",ETH,some 16200000000000000000,[],[]⟩ =
        .ok (ascii "ethereum:0xab?amount=16.200000000000000001") ∧
      (parseDecimal (ascii "16.200000000000000001")).map (·*10^18) =
        some 16200000000000000001 ∧
      ¬SurvivesScaling 18 16200000000000000000 := by
  decide +kernel

end ChainKit.Payment
