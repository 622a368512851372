import ChainKit.Payment.Webhook
import ChainKit.Lib.Fallible
import ChainKit.Lib.Sha256

/-! Which deliveries `VerifyWebhook` accepts. The MAC binds the timestamp and the body; the
freshness check is right for all distances that fit into 64 bits of nanoseconds. -/
namespace ChainKit.Payment
open Lib

/-- A header with a timestamp under `t` and a MAC under `v1`. -/
def HeaderCarries (header : Bytes) (ts : Int64) (mac : Bytes) : Prop :=
  ∃ parts text sig, parseSignatureHeader header = .ok parts ∧
    parts.lookup (ascii "t") = some text ∧ parseInt64 text = some ts ∧
    parts.lookup (ascii "v1") = some sig ∧ hexDecode sig = some mac

/-- A header that carries a timestamp and the MAC of it and the body. -/
def Signed (hmac : Bytes → Bytes → Bytes) (body header secret : Bytes) (ts : Int64) : Prop :=
  HeaderCarries header ts (hmac secret (signedInput ts body))

section Reading
variable {header mac : Bytes} {ts : Int64} {parts : Parts}

theorem timestamp_eq_ok_iff : timestamp parts = .ok ts ↔
    ∃ text, parts.lookup (ascii "t") = some text ∧ parseInt64 text = some ts := by
  unfold timestamp
  cases parts.lookup (ascii "t") with
  | none => simp
  | some text =>
    cases h : parseInt64 text with
    | none => simp [h]
    | some ts' => simp [h]

theorem signature_eq_ok_iff : signature parts = .ok mac ↔
    ∃ sig, parts.lookup (ascii "v1") = some sig ∧ hexDecode sig = some mac := by
  unfold signature
  cases parts.lookup (ascii "v1") with
  | none => simp
  | some sig =>
    cases h : hexDecode sig with
    | none => simp [h]
    | some mac' => simp [h]

theorem parseSignatureHeader_of_blank (h : trimSpace header = []) :
    parseSignatureHeader header = .error (.signatureMalformed (.pairWithoutEquals header)) := by
  have hcomma : (0x2c : UInt8) ∉ header := by
    intro hmem
    have htrim := mem_trimSpace (by decide) (by decide) hmem
    rw [h] at htrim
    cases htrim
  have hsplit : header.splitOn 0x2c = [header] := by
    rw [List.splitOn_eq_splitOnP,List.splitOnP_eq_singleton]
    intro x hx
    rw [beq_eq_false_iff_ne]
    rintro rfl
    exact hcomma hx
  simp [parseSignatureHeader,hsplit,parsePairs,parsePair,h,cut,bind,Except.bind]

theorem readHeader_eq_ok_iff : readHeader header = .ok (ts,mac) ↔ HeaderCarries header ts mac := by
  unfold readHeader
  by_cases hblank : trimSpace header = []
  · rw [if_pos hblank]
    constructor
    · intro h
      cases h
    · rintro ⟨parts,text,sig,hparts,-⟩
      rw [parseSignatureHeader_of_blank hblank] at hparts
      cases hparts
  · rw [if_neg hblank]
    simp only [bind_eq_ok,timestamp_eq_ok_iff,signature_eq_ok_iff,Except.ok.injEq,Prod.mk.injEq]
    constructor
    · rintro ⟨parts,hparts,ts',⟨text,htext,hparse⟩,mac',⟨sig,hsig,hdecode⟩,rfl,rfl⟩
      exact ⟨parts,text,sig,hparts,htext,hparse,hsig,hdecode⟩
    · rintro ⟨parts,text,sig,hparts,htext,hparse,hsig,hdecode⟩
      exact ⟨parts,hparts,ts,⟨text,htext,hparse⟩,mac,⟨sig,hsig,hdecode⟩,rfl,rfl⟩

theorem HeaderCarries.unique {ts' : Int64} {mac' : Bytes} (h : HeaderCarries header ts mac)
    (h' : HeaderCarries header ts' mac') : ts = ts' ∧ mac = mac' := by
  rw [← readHeader_eq_ok_iff] at h h'
  rw [h] at h'
  simpa using h'

theorem parsePairs_error {raws : List Bytes} {out : Parts} {e : WebhookError}
    (h : parsePairs raws out = .error e) : ∃ detail, e = .signatureMalformed detail := by
  induction raws generalizing out with
  | nil => cases h
  | cons raw rest ih =>
    rcases bind_eq_error.mp h with h | ⟨kv,-,h⟩
    · unfold parsePair at h
      split at h
      · cases h
        exact ⟨_,rfl⟩
      · split_ifs at h
        cases h
        exact ⟨_,rfl⟩
    · exact ih h

theorem readHeader_ne_expired : readHeader header ≠ .error .signatureExpired := by
  intro h
  unfold readHeader at h
  split_ifs at h
  · cases h
  rcases bind_eq_error.mp h with h | ⟨parts,-,h⟩
  · rcases bind_eq_error.mp h with h | ⟨out,-,h⟩
    · obtain ⟨detail,hdetail⟩ := parsePairs_error h
      cases hdetail
    · split_ifs at h
      cases h
  rcases bind_eq_error.mp h with h | ⟨ts,-,h⟩
  · unfold timestamp at h
    split at h
    · cases h
    · split at h <;> cases h
  rcases bind_eq_error.mp h with h | ⟨mac,-,h⟩
  · unfold signature at h
    split at h
    · cases h
    · split at h <;> cases h
  · cases h

end Reading

section Verdict
variable (hmac : Bytes → Bytes → Bytes) (wallClock : Int64) (body header secret : Bytes)
  (opts : List VerifyWebhookOptions)

def PassesMac (r : Except WebhookError Unit) : Prop := r = .ok () ∨ r = .error .signatureExpired

theorem verifyWebhook_of_signed {ts : Int64} (h : Signed hmac body header secret ts) :
    verifyWebhook hmac wallClock body header secret opts =
      checkFresh (opts.headD {}) wallClock ts := by
  simp [verifyWebhook,readHeader_eq_ok_iff.mpr h,bind,Except.bind]

theorem checkFresh_passesMac (o : VerifyWebhookOptions) (ts : Int64) :
    PassesMac (checkFresh o wallClock ts) := by
  unfold checkFresh
  generalize (if o.tolerance = 0 then defaultTolerance else o.tolerance) = tolerance
  by_cases h : tolerance < elapsed (o.now.getD wallClock) ts
  · exact .inr (if_pos h)
  · exact .inl (if_neg h)

theorem passesMac_iff_signed : PassesMac (verifyWebhook hmac wallClock body header secret opts) ↔
    ∃ ts, Signed hmac body header secret ts := by
  constructor
  · intro h
    cases hread : readHeader header with
    | error e =>
      rcases h with h | h <;> rw [verifyWebhook,hread] at h
      · cases h
      · cases h
        exact absurd hread readHeader_ne_expired
    | ok r =>
      obtain ⟨ts,mac⟩ := r
      by_cases hmac' : mac = hmac secret (signedInput ts body)
      · refine ⟨ts,?_⟩
        rw [Signed,← hmac']
        exact readHeader_eq_ok_iff.mp hread
      · simp [verifyWebhook,hread,hmac',bind,Except.bind,PassesMac] at h
  · rintro ⟨ts,hsigned⟩
    rw [verifyWebhook_of_signed hmac wallClock body header secret opts hsigned]
    exact checkFresh_passesMac wallClock _ ts

end Verdict

/-- The signed message determines the timestamp and the body: no decimal number has a full
stop. -/
theorem signedInput_injective {ts ts' : Int64} {body body' : Bytes}
    (h : signedInput ts body = signedInput ts' body') : ts = ts' ∧ body = body' := by
  have hstop : ∀ n : ℤ, (0x2e : UInt8) ∉ formatInt n := by
    intro n hmem
    rcases mem_formatInt hmem with h | h
    · exact absurd h (by decide)
    · exact absurd h (by decide)
  have hcut := congrArg (cut 0x2e) h
  rw [signedInput,signedInput,cut_append (hstop _),cut_append (hstop _)] at hcut
  simp only [Option.some.injEq,Prod.mk.injEq] at hcut
  obtain ⟨hts,hbody⟩ := hcut
  exact ⟨Int64.toInt_inj.mp (formatInt_injective hts),hbody⟩

/-- Where the MAC has no collisions, signed headers with one MAC agree on all that is signed. -/
theorem Signed.eq_of_mac {hmac : Bytes → Bytes → Bytes} {secret header header' : Bytes}
    (hinj : Function.Injective (hmac secret)) {mac body body' : Bytes} {ts ts' : Int64}
    (hheader : HeaderCarries header ts mac) (hheader' : HeaderCarries header' ts' mac)
    (h : ∃ ts, Signed hmac body header secret ts) (h' : ∃ ts, Signed hmac body' header' secret ts) :
    ts = ts' ∧ body = body' := by
  obtain ⟨t,ht⟩ := h
  obtain ⟨t',ht'⟩ := h'
  obtain ⟨rfl,hmac⟩ := hheader.unique ht
  obtain ⟨rfl,hmac'⟩ := hheader'.unique ht'
  exact signedInput_injective (hinj (hmac.symm.trans hmac'))

/-- A signature binds one timestamp and one body. -/
theorem signature_binds (hmac : Bytes → Bytes → Bytes) (secret : Bytes)
    (hinj : Function.Injective (hmac secret)) :
    (∀ header body body' wallClock wallClock' opts opts',
      PassesMac (verifyWebhook hmac wallClock body header secret opts) →
      PassesMac (verifyWebhook hmac wallClock' body' header secret opts') → body = body') ∧
    (∀ header header' ts ts' mac body body' wallClock wallClock' opts opts',
      HeaderCarries header ts mac → HeaderCarries header' ts' mac →
      PassesMac (verifyWebhook hmac wallClock body header secret opts) →
      PassesMac (verifyWebhook hmac wallClock' body' header' secret opts') →
      ts = ts' ∧ body = body') ∧
    ∀ ts ts' body body', signedInput ts body = signedInput ts' body' → ts = ts' ∧ body = body' := by
  refine ⟨?_,?_,fun ts ts' body body' => signedInput_injective⟩
  · intro header body body' wallClock wallClock' opts opts' h h'
    rw [passesMac_iff_signed] at h h'
    obtain ⟨ts,hts⟩ := h
    exact (Signed.eq_of_mac hinj hts hts ⟨ts,hts⟩ h').2
  · intro header header' ts ts' mac body body' wallClock wallClock' opts opts' hc hc' h h'
    rw [passesMac_iff_signed] at h h'
    exact Signed.eq_of_mac hinj hc hc' h h'

/-- A header with a sign, leading zeros and blanks, under a MAC that is the message itself. -/
theorem signature_binds_padded :
    Function.Injective (fun m : Bytes => m) ∧
    PassesMac (verifyWebhook (fun _ m => m) 0 [0x31] (ascii " t = +007 , v1=372E31") []
      [⟨1,some 7⟩]) ∧
    ∀ body, PassesMac (verifyWebhook (fun _ m => m) 0 body (ascii " t = +007 , v1=372E31") []
      [⟨1,some 7⟩]) → body = [0x31] := by
  have hpass : PassesMac (verifyWebhook (fun _ m => m) 0 [0x31] (ascii " t = +007 , v1=372E31") []
      [⟨1,some 7⟩]) := .inl (by decide +kernel)
  refine ⟨fun m m' h => h,hpass,?_⟩
  intro body h
  exact (signature_binds (fun _ m => m) [] (fun m m' h => h)).1 _ _ _ _ _ _ _ h hpass

def distance (now ts : Int64) : ℤ := |now.toInt-ts.toInt| * 10^9

/-- The distance as 64-bit arithmetic leaves it. -/
def wrappedDistance (now ts : Int64) : ℤ :=
  (|(now.toInt-ts.toInt).bmod (2^64)| * 10^9).bmod (2^64)

theorem elapsed_toInt (now ts : Int64) : (elapsed now ts).toInt = wrappedDistance now ts := by
  have hbillion : (1000000000 : Int64).toInt = 10^9 := by decide
  simp only [elapsed,wrappedDistance,Int64.toInt_mul,hbillion]
  by_cases h : now-ts < 0
  · have hneg : (now.toInt-ts.toInt).bmod (2^64) < 0 := by
      rw [← Int64.toInt_sub]
      exact Int64.lt_iff_toInt_lt.mp h
    rw [if_pos h,Int64.toInt_neg,Int.bmod_mul_bmod,Int64.toInt_sub,abs_of_neg hneg]
  · have hnonneg : 0 ≤ (now.toInt-ts.toInt).bmod (2^64) := by
      rw [← Int64.toInt_sub]
      rw [Int64.lt_iff_toInt_lt] at h
      exact Int.not_lt.mp h
    rw [if_neg h,Int64.toInt_sub,abs_of_nonneg hnonneg]

theorem wrappedDistance_of_lt {now ts : Int64} (h : distance now ts < 2^63) :
    wrappedDistance now ts = distance now ts := by
  have hsmall : |now.toInt-ts.toInt| < 2^63 := by
    unfold distance at h
    omega
  have hrange := abs_lt.mp hsmall
  have hbmod : (now.toInt-ts.toInt).bmod (2^64) = now.toInt-ts.toInt :=
    Int.bmod_eq_of_le (by norm_num; omega) (by norm_num; omega)
  have hnonneg := abs_nonneg (now.toInt-ts.toInt)
  unfold wrappedDistance distance at *
  rw [hbmod]
  exact Int.bmod_eq_of_le (by norm_num; omega) (by norm_num; omega)

/-- A stale delivery that 64-bit arithmetic finds fresh. -/
def WrapsInto (tolerance now ts : Int64) : Prop :=
  tolerance.toInt < distance now ts ∧ wrappedDistance now ts ≤ tolerance.toInt

/-- Only distances of 2⁶³ nanoseconds and more, about 292 years, wrap around. -/
theorem WrapsInto.le_distance {tolerance now ts : Int64} (h : WrapsInto tolerance now ts) :
    2^63 ≤ distance now ts := by
  by_contra hlt
  obtain ⟨hstale,hfresh⟩ := h
  rw [wrappedDistance_of_lt (not_le.mp hlt)] at hfresh
  omega

theorem checkFresh_eq_ok_iff {tolerance now : Int64} (htol : 0 < tolerance) (wallClock ts : Int64) :
    checkFresh ⟨tolerance,some now⟩ wallClock ts = .ok () ↔
      wrappedDistance now ts ≤ tolerance.toInt := by
  have hne : tolerance ≠ 0 := by
    rintro rfl
    exact absurd htol (by decide)
  simp only [checkFresh,if_neg hne,Option.getD_some]
  rw [← elapsed_toInt]
  by_cases h : tolerance < elapsed now ts
  · rw [if_pos h]
    have hlt := Int64.lt_iff_toInt_lt.mp h
    simp only [reduceCtorEq,false_iff]
    omega
  · rw [if_neg h]
    have hle := mt Int64.lt_iff_toInt_lt.mpr h
    simp only [true_iff]
    omega

/-- What `VerifyWebhook` accepts: the signed deliveries that its arithmetic finds fresh. -/
theorem verifyWebhook_eq_ok_iff (hmac : Bytes → Bytes → Bytes) (wallClock : Int64)
    (body header secret : Bytes) {tolerance now : Int64} (htol : 0 < tolerance)
    (rest : List VerifyWebhookOptions) :
    verifyWebhook hmac wallClock body header secret (⟨tolerance,some now⟩ :: rest) = .ok () ↔
      ∃ ts, Signed hmac body header secret ts ∧ wrappedDistance now ts ≤ tolerance.toInt := by
  constructor
  · intro h
    obtain ⟨ts,hsigned⟩ := (passesMac_iff_signed _ _ _ _ _ _).mp (.inl h)
    rw [verifyWebhook_of_signed _ _ _ _ _ _ hsigned] at h
    exact ⟨ts,hsigned,(checkFresh_eq_ok_iff htol wallClock ts).mp h⟩
  · rintro ⟨ts,hsigned,hfresh⟩
    rw [verifyWebhook_of_signed _ _ _ _ _ _ hsigned]
    exact (checkFresh_eq_ok_iff htol wallClock ts).mpr hfresh

/-- `VerifyWebhook` accepts exactly the fresh, correctly signed deliveries, unless a signed
timestamp is so far off that the distance wraps around into the tolerance. -/
theorem verifyWebhook_exact_iff (hmac : Bytes → Bytes → Bytes) (wallClock : Int64)
    (body header secret : Bytes) (tolerance now : Int64) (htol : 0 < tolerance)
    (rest : List VerifyWebhookOptions) :
    ((verifyWebhook hmac wallClock body header secret (⟨tolerance,some now⟩ :: rest) = .ok () ↔
      ∃ ts, Signed hmac body header secret ts ∧ distance now ts ≤ tolerance.toInt) ↔
    ∀ ts, Signed hmac body header secret ts → ¬WrapsInto tolerance now ts) ∧
    ∀ ts, WrapsInto tolerance now ts → 2^63 ≤ distance now ts := by
  refine ⟨?_,fun ts h => h.le_distance⟩
  rw [verifyWebhook_eq_ok_iff hmac wallClock body header secret htol rest]
  constructor
  · rintro h ts hsigned ⟨hstale,hfresh⟩
    obtain ⟨ts',hsigned',hle⟩ := h.mp ⟨ts,hsigned,hfresh⟩
    obtain rfl := (hsigned.unique hsigned').1
    omega
  · intro h
    constructor
    · rintro ⟨ts,hsigned,hfresh⟩
      refine ⟨ts,hsigned,?_⟩
      by_contra hstale
      exact h ts hsigned ⟨not_le.mp hstale,hfresh⟩
    · rintro ⟨ts,hsigned,hle⟩
      refine ⟨ts,hsigned,?_⟩
      have hlt := tolerance.toInt_lt
      rwa [wrappedDistance_of_lt (by omega)]

/-- A header signed with the secret `whsec` for the body `0`, at the instant of the check. -/
def freshHeader : Bytes :=
  ascii "t=1700000000,v1=a415fc4908a5ba31844984ad15f193a30489a48a53a3dbd61970d0a136a001b7"

/-- The same 2⁵⁵ seconds before. -/
def staleHeader : Bytes :=
  ascii "t=-36028795318963968,v1=c45aac74464e8cb9180635892cfe5d2542c9dac35e464b88e0b60f3101df5d11"

theorem freshHeader_signed :
    Signed Sha256.hmac (ascii "0") freshHeader (ascii "whsec") 1700000000 :=
  readHeader_eq_ok_iff.mp (by decide +kernel)

theorem staleHeader_signed :
    Signed Sha256.hmac (ascii "0") staleHeader (ascii "whsec") (-36028795318963968) :=
  readHeader_eq_ok_iff.mp (by decide +kernel)

theorem verifyWebhook_exact_fresh :
    verifyWebhook Sha256.hmac 0 (ascii "0") freshHeader (ascii "whsec")
      [⟨300000000000,some 1700000000⟩] = .ok () ∧
    (verifyWebhook Sha256.hmac 0 (ascii "0") freshHeader (ascii "whsec")
      [⟨300000000000,some 1700000000⟩] = .ok () ↔
      ∃ ts, Signed Sha256.hmac (ascii "0") freshHeader (ascii "whsec") ts ∧
        distance 1700000000 ts ≤ (300000000000 : Int64).toInt) := by
  have hcond : ∀ ts, Signed Sha256.hmac (ascii "0") freshHeader (ascii "whsec") ts →
      ¬WrapsInto 300000000000 1700000000 ts := by
    intro ts hts
    obtain rfl := (freshHeader_signed.unique hts).1
    rintro ⟨hstale,-⟩
    exact absurd hstale (by decide)
  have hexact := (verifyWebhook_exact_iff Sha256.hmac 0 (ascii "0") freshHeader (ascii "whsec")
    300000000000 1700000000 (by decide) []).1.mpr hcond
  exact ⟨hexact.mpr ⟨1700000000,freshHeader_signed,by decide⟩,hexact⟩

/-- A delivery from a billion years ago is accepted with a tolerance of five minutes. -/
theorem verifyWebhook_accepts_stale :
    verifyWebhook Sha256.hmac 0 (ascii "0") staleHeader (ascii "whsec")
      [⟨300000000000,some 1700000000⟩] = .ok () ∧
    ¬∃ ts, Signed Sha256.hmac (ascii "0") staleHeader (ascii "whsec") ts ∧
      distance 1700000000 ts ≤ (300000000000 : Int64).toInt := by
  constructor
  · decide +kernel
  · rintro ⟨ts,hts,hfresh⟩
    obtain rfl := (staleHeader_signed.unique hts).1
    exact absurd hfresh (by decide)

end ChainKit.Payment
