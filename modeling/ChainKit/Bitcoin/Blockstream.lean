import ChainKit.Bitcoin.Balance
import ChainKit.Lib.Occurrence

/-! Requests to blockstream.info with a token that expires, and what `ValidateAddress` makes of
their errors. -/
namespace ChainKit.Bitcoin.Blockstream
open Lib

/-- The access token in memory, with the time at which it expires in nanoseconds. -/
structure Cache where
  accessToken : String
  expirationTime : ℤ
  deriving DecidableEq

def Cache.valid (c : Cache) (now : ℤ) : Bool := c.accessToken ≠ "" ∧ now < c.expirationTime

structure Credentials where
  clientID : String
  clientSecret : String

/-- How the request to the token endpoint ends; `status` is any status code but 200. -/
inductive TokenReply
  | noRequest (e : GoError)
  | noResponse (e : GoError)
  | status (statusCode : ℕ) (body : Bytes)
  | malformed (e : GoError)
  | token (accessToken : String) (expiresIn : ℤ)

/-- What happens around one call of `GetAccessToken`: the time at both checks and behind the
request, and what other goroutines do to the cache between the two locks. -/
structure TokenCall where
  now : ℤ
  meanwhile : Cache → Cache
  nowLocked : ℤ
  reply : TokenReply
  nowAfter : ℤ

/-- How one request to the API ends. The error of reading a body shows only for status 200. -/
inductive ApiReply
  | noRequest (e : GoError)
  | noResponse (e : GoError)
  | response (statusCode : ℕ) (body : Bytes) (readErr : Option GoError)

structure Turn where
  tokenCall : TokenCall
  reply : ApiReply

inductive Exit
  | ok (body : Bytes)
  | noToken (e : GoError)
  | noRequest (e : GoError)
  | noResponse (e : GoError)
  | noBody (e : GoError)
  | unauthorized
  | notFound
  | tooManyRequests
  | status (statusCode : ℕ) (body : Bytes)
  deriving DecidableEq

section
variable (text : Bytes → String) (creds : Credentials)

def getAccessToken (call : TokenCall) (c : Cache) : Except GoError String × Cache :=
  if c.valid call.now then (.ok c.accessToken,c)
  else
    let c := call.meanwhile c
    if c.valid call.nowLocked then (.ok c.accessToken,c)
    else if creds.clientID = "" ∨ creds.clientSecret = "" then
      (.error (.plain "missing API client ID or secret"),c)
    else match call.reply with
      | .noRequest e => (.error (.wrap "error creating token request: " e ""),c)
      | .noResponse e => (.error (.wrap "error fetching access token: " e ""),c)
      | .status statusCode body =>
        if statusCode = 401 ∨ statusCode = 400 then
          (.error (.wrap ("token endpoint returned " ++ toString statusCode ++ " (" ++
            text (trimSpace body) ++ "): ") .ErrAuthFailure ""),c)
        else (.error (.plain ("token endpoint returned " ++ toString statusCode ++ ": " ++
          text body)),c)
      | .malformed e => (.error (.wrap "error decoding token response: " e ""),c)
      | .token accessToken expiresIn =>
        (.ok accessToken,⟨accessToken,call.nowAfter+(expiresIn*1000000000).bmod (2^64)⟩)

/-- A turn of the loop of `callAPI` up to the answer; status 401 is left to the loop. -/
def answer (turn : Turn) (c : Cache) : Option Exit × Cache :=
  match getAccessToken text creds turn.tokenCall c with
  | (.error e,c) => (some (.noToken e),c)
  | (.ok _,c) =>
    match turn.reply with
    | .noRequest e => (some (.noRequest e),c)
    | .noResponse e => (some (.noResponse e),c)
    | .response statusCode body readErr =>
      match statusCode with
      | 200 =>
        match readErr with
        | none => (some (.ok body),c)
        | some e => (some (.noBody e),c)
      | 401 => (none,c)
      | 404 => (some .notFound,c)
      | 429 => (some .tooManyRequests,c)
      | _ => (some (.status statusCode body),c)

/-- The loop of `callAPI`: the first 401 drops the token and goes on, the second one returns. -/
def callLoop (first second : Turn) (c : Cache) : Exit × Cache :=
  match answer text creds first c with
  | (some exit,c) => (exit,c)
  | (none,c) =>
    match answer text creds second { c with accessToken := "" } with
    | (some exit,c) => (exit,c)
    | (none,c) => (.unauthorized,c)

/-- What a return statement of `callAPI` returns. -/
def Exit.result : Exit → Except GoError Bytes
  | .ok body => .ok body
  | .noToken e => .error (.wrap "get access token: " e "")
  | .noRequest e => .error (.wrap "create request: " e "")
  | .noResponse e => .error (.wrap "request failed: " e "")
  | .noBody e => .error (.wrap "read response body: " e "")
  | .unauthorized => .error
    (.wrap "HTTP 401: unauthorized after token refresh: " .ErrAuthFailure "")
  | .notFound => .error (.plain "HTTP 404: not found")
  | .tooManyRequests => .error (.plain "HTTP 429: rate limit exceeded")
  | .status statusCode body =>
    .error (.plain ("HTTP " ++ toString statusCode ++ ": " ++ text body))

def callAPI (first second : Turn) (c : Cache) : Except GoError Bytes :=
  (callLoop text creds first second c).1.result text

/-- The text that `ValidateAddress` looks for. -/
def status400 : String := "status code: 400"

def contains (s substr : String) : Bool := substr.toList <:+: s.toList

def validateAddress (first second : Turn) (c : Cache) : Except GoError Bool :=
  match callAPI text creds first second c with
  | .ok _ => .ok true
  | .error e => if contains e.error status400 then .ok false else .error e

/-- The text from outside that the error of a return statement shows. -/
def Exit.carried : Exit → String
  | .noToken e => e.error
  | .noRequest e => e.error
  | .noResponse e => e.error
  | .noBody e => e.error
  | .status _ body => text body
  | _ => ""

end

section
variable {text : Bytes → String} {creds : Credentials} {exit : Exit} {e : GoError}

theorem contains_iff {s substr : String} :
    contains s substr = true ↔ substr.toList <:+: s.toList := decide_eq_true_iff

theorem contains_append {front : String} (h : Apart status400.toList front.toList) (s : String) :
    contains (front ++ s) status400 = contains s status400 := by
  rw [Bool.eq_iff_iff,contains_iff,contains_iff,String.toList_append,infix_append_iff h]

theorem contains_wrap {front : String} (h : Apart status400.toList front.toList) (e : GoError) :
    contains (GoError.wrap front e "").error status400 = contains e.error status400 := by
  rw [GoError.error,String.append_empty,contains_append h]

theorem contains_fixed {s : String} (h : contains s status400 = false) :
    contains s status400 = contains "" status400 := by
  rw [h]
  decide

theorem apart_status (statusCode : ℕ) :
    Apart status400.toList ("HTTP " ++ toString statusCode ++ ": ").toList := by
  apply apart_of_notMem
  simp only [String.toList_append,List.mem_append,not_or]
  refine ⟨⟨by decide,?_⟩,by decide⟩
  intro hmem
  have hdigits : (toString statusCode).toList = Nat.toDigits 10 statusCode := by simp
  rw [hdigits] at hmem
  exact absurd (Nat.isDigit_of_mem_toDigits (by decide) (by decide) hmem) (by decide)

/-- The errors of `callAPI` say nothing of a status by themselves. -/
theorem contains_result (h : exit.result text = .error e) :
    contains e.error status400 = contains (exit.carried text) status400 := by
  cases exit with
  | ok body => cases h
  | noToken e' =>
    cases h
    exact contains_wrap (by decide) e'
  | noRequest e' =>
    cases h
    exact contains_wrap (by decide) e'
  | noResponse e' =>
    cases h
    exact contains_wrap (by decide) e'
  | noBody e' =>
    cases h
    exact contains_wrap (by decide) e'
  | unauthorized =>
    cases h
    exact contains_fixed (by decide +kernel)
  | notFound =>
    cases h
    exact contains_fixed (by decide +kernel)
  | tooManyRequests =>
    cases h
    exact contains_fixed (by decide +kernel)
  | status statusCode body =>
    cases h
    exact contains_append (apart_status statusCode) (text body)

/-- An error of `callAPI` is taken for a verdict when what it carries holds the text. -/
theorem validateAddress_of_error {first second : Turn} {c : Cache}
    (h : (callLoop text creds first second c).1.result text = .error e) :
    validateAddress text creds first second c =
      if contains ((callLoop text creds first second c).1.carried text) status400 then .ok false
      else .error e := by
  rw [← contains_result h]
  simp only [validateAddress,callAPI,h]

end

/-- A request that ends with status 400 is a verdict exactly when the body holds the text that is
looked for, and one that ends with another failure is an error exactly when nothing that its error
carries holds it: the errors of `callAPI` write the status in another way. -/
theorem validateAddress_iff (text : Bytes → String) (creds : Credentials) (first second : Turn)
    (c : Cache) :
    (∀ body, (callLoop text creds first second c).1 = .status 400 body →
      (validateAddress text creds first second c = .ok false ↔
        contains (text body) status400 = true)) ∧
    ∀ e, (callLoop text creds first second c).1.result text = .error e →
      (∀ body, (callLoop text creds first second c).1 ≠ .status 400 body) →
      ((∃ e', validateAddress text creds first second c = .error e') ↔
        contains ((callLoop text creds first second c).1.carried text) status400 = false) := by
  refine ⟨?_,?_⟩
  · intro body hexit
    have hvalidate := validateAddress_of_error (c := c) (by rw [hexit]; rfl)
    rw [hvalidate,hexit]
    change (if contains (text body) status400 = true then _ else _) = _ ↔ _
    split_ifs with hcontains
    · simp [hcontains]
    · simp [hcontains]
  · intro e he _
    rw [validateAddress_of_error he]
    split_ifs with hcontains
    · simp [hcontains]
    · simpa using hcontains

def latin (bs : Bytes) : String := String.ofList (bs.map fun c => Char.ofNat c.toNat)

def freshTurn (reply : ApiReply) : Turn :=
  ⟨⟨0,id,0,.token "token" 300,0⟩,reply⟩

def answered (statusCode : ℕ) (body : String) : Turn :=
  freshTurn (.response statusCode (ascii body) none)

def demo : Credentials := ⟨"id","secret"⟩

theorem validateAddress_proxied :
    validateAddress latin demo (answered 400 "unexpected status code: 400")
      (answered 200 "") ⟨"",0⟩ = .ok false := by
  have hexit : (callLoop latin demo (answered 400 "unexpected status code: 400")
      (answered 200 "") ⟨"",0⟩).1 = .status 400 (ascii "unexpected status code: 400") := by
    decide +kernel
  exact ((validateAddress_iff _ _ _ _ _).1 _ hexit).mpr (by decide +kernel)

/-- The answer to a malformed address, at once and after a token was refused, and an unrelated
failure whose body has the text. -/
theorem validateAddress_reversed :
    validateAddress latin demo (answered 400 "Invalid Bitcoin address") (answered 200 "") ⟨"",0⟩ =
      .error (.plain "HTTP 400: Invalid Bitcoin address") ∧
    validateAddress latin demo (answered 401 "") (answered 400 "Invalid Bitcoin address")
      ⟨"",0⟩ = .error (.plain "HTTP 400: Invalid Bitcoin address") ∧
    validateAddress latin demo (answered 500 "upstream: status code: 400") (answered 200 "")
      ⟨"",0⟩ = .ok false := by
  decide +kernel

end ChainKit.Bitcoin.Blockstream
