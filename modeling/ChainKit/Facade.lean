import ChainKit.Builder
import ChainKit.CloudAgent.Wire
import ChainKit.Interleaving.Accounts
import ChainKit.Lib.Occurrence
import ChainKit.RunOp.NotConfigured

/-! The built client with its metrics recorder. Goroutines call its operations, each of which runs
on a chain and then tells the recorder what has come of it; the chains share the scoring engines,
the clock and the recorder. -/
namespace ChainKit
open Lib CloudAgent
variable {τ ι ε δ : Type}

/-- The lower case of the `unicode` package, which is known on ASCII. -/
structure Unicode where
  lower : Char → Char
  lower_ascii : ∀ c, c.toNat < 128 → lower c = c.toLower

def Unicode.toLower (u : Unicode) (s : String) : String := String.ofList (s.toList.map u.lower)

/-- The lower case of ASCII letters only. -/
def Unicode.ascii : Unicode := ⟨Char.toLower,fun _ _ => rfl⟩

/-- `strings.Contains`. -/
def stringsContains (s substr : String) : Bool := decide (substr.toList <:+: s.toList)

/-- The texts by which `classifyError` tells a rate limit. -/
def rateLimitTexts : List String := ["rate limit","429","too many requests"]

def classifyError (u : Unicode) : Option GoError → String
  | none => ""
  | some err =>
    if err.is GoError.ErrAuthFailure then "auth"
    else if err.is GoError.ErrProviderNotConfigured then "config"
    else if err.is (.sentinel .deadlineExceeded) || err.is (.sentinel .canceled) then "timeout"
    else if rateLimitTexts.any (stringsContains (u.toLower err.error)) then "rate_limit"
    else "other"

/-- The vocabulary of `ErrorClass` for calls that fail. -/
def errorClasses : List String := ["auth","config","timeout","rate_limit","other"]

theorem classifyError_mem (u : Unicode) (err : GoError) :
    classifyError u (some err) ∈ errorClasses := by
  simp only [classifyError]
  split_ifs <;> decide

/-- The text that `runOp` puts before an error neither holds nor begins one of a rate limit. -/
theorem stringsContains_allFailed (u : Unicode) (err : GoError) {t : String}
    (ht : t ∈ rateLimitTexts) :
    stringsContains (u.toLower (World.allFailed (some err)).error) t =
      stringsContains (u.toLower err.error) t := by
  have hfront : "all providers failed, last error: ".toList.map u.lower =
      "all providers failed, last error: ".toList := by
    conv_rhs => rw [← List.map_id "all providers failed, last error: ".toList]
    apply List.map_congr_left
    have hlower : ("all providers failed, last error: ".toList.all fun c =>
        decide (c.toNat < 128) && c.toLower == c) = true := by decide +kernel
    intro c hc
    have h := List.all_eq_true.mp hlower c hc
    simp only [Bool.and_eq_true,decide_eq_true_eq,beq_iff_eq] at h
    rw [u.lower_ascii c h.1,h.2,id]
  have hapart : ∀ t ∈ rateLimitTexts,
      Apart t.toList "all providers failed, last error: ".toList := by decide +kernel
  simp only [stringsContains,Unicode.toLower,World.allFailed,GoError.error,String.toList_append,
    List.map_append,String.toList_ofList,hfront]
  apply decide_eq_decide.mpr
  rw [List.append_assoc,infix_append_iff (hapart t ht)]
  simp

/-- The class of an error is that of the last error that led to it. -/
theorem classifyError_allFailed (u : Unicode) (err : GoError) :
    classifyError u (some (World.allFailed (some err))) = classifyError u (some err) := by
  have htexts : rateLimitTexts.any (stringsContains (u.toLower (World.allFailed (some err)).error))
      = rateLimitTexts.any (stringsContains (u.toLower err.error)) := by
    rw [Bool.eq_iff_iff,List.any_eq_true,List.any_eq_true]
    apply exists_congr
    intro t
    apply and_congr_right
    intro ht
    rw [stringsContains_allFailed u err ht]
  have his : ∀ s, (World.allFailed (some err)).is (.sentinel s) = err.is (.sentinel s) :=
    GoError.is_wrap_sentinel _ _ err
  have hauth : (World.allFailed (some err)).is GoError.ErrAuthFailure =
    err.is GoError.ErrAuthFailure := his .authFailure
  have hconfig : (World.allFailed (some err)).is GoError.ErrProviderNotConfigured =
    err.is GoError.ErrProviderNotConfigured := his .providerNotConfigured
  simp only [classifyError,htexts,hauth,hconfig,his]

inductive Operation
  | deriveAddress | getTxFees | getTxFee | calculateFee | pushTx | createTransaction
  | calculateTransactionSize | signTransaction | getUTXOs | getBalance | validateAddress
  | getExchangeRate | getExchangeRates | getHistoricalRates | getTxStatus
  deriving DecidableEq, Repr

namespace Operation

def chain : Operation → ProviderChainType
  | deriveAddress => .addressGenerators
  | getTxFees | getTxFee => .feeRecommenders
  | calculateFee => .feeEstimators
  | pushTx => .txBroadcasters
  | createTransaction => .txAssemblers
  | calculateTransactionSize => .txSizers
  | signTransaction => .txSigners
  | getUTXOs => .utxoFetchers
  | getBalance => .balanceFetchers
  | validateAddress => .addressValidators
  | getExchangeRate | getExchangeRates => .rateFetchers
  | getHistoricalRates => .historicalRateFetchers
  | getTxStatus => .txStatusFetchers

def name : Operation → String
  | deriveAddress => "DeriveAddress"
  | getTxFees => "GetTxFees"
  | getTxFee => "GetTxFee"
  | calculateFee => "CalculateFee"
  | pushTx => "PushTx"
  | createTransaction => "CreateTransaction"
  | calculateTransactionSize => "CalculateTransactionSize"
  | signTransaction => "SignTransaction"
  | getUTXOs => "GetUTXOs"
  | getBalance => "GetBalance"
  | validateAddress => "ValidateAddress"
  | getExchangeRate => "GetExchangeRate"
  | getExchangeRates => "GetExchangeRates"
  | getHistoricalRates => "GetHistoricalRates"
  | getTxStatus => "GetTxStatus"

end Operation

/-- What `executeWithFallbackAndMetrics` tells a `RichMetricsRecorder`. -/
def requestEvent (u : Unicode) (operation : Operation) (r : OpReturn δ) : RequestEvent where
  provider := r.providerName
  operation := operation.name
  success := r.err.isNone
  duration := r.duration
  attemptCount := r.attempts
  errorClass := classifyError u r.err

/-- `executeWithFallbackAndMetrics` is in `runOp`, or it has recorded what that returned. -/
inductive Stage (ι δ : Type)
  | running (pc : Pc ι δ)
  | recorded (r : OpReturn δ)

def Stage.pc : Stage ι δ → Pc ι δ
  | .running pc => pc
  | .recorded r => .returned (.ok r)

def Stage.isRecorded : Stage ι δ → Bool
  | .running _ => false
  | .recorded _ => true

structure Request (ι δ : Type) where
  operation : Operation
  call : Call ι δ

/-- `failedProviders` is the trail of this call alone. What a debug state holds that several calls
share is `Client.debugState`. -/
structure Goroutine (ι δ : Type) where
  request : Request ι δ
  stage : Stage ι δ := .running .entry
  invoked : ℕ := 0
  waited : ℕ := 0
  failedProviders : Option (List String) := none

/-- The client while goroutines call it. `log` has the invocations on all chains and `recorded`
what the metrics recorder was told, and by whom. -/
structure Client (τ ι ε δ : Type) where
  mp : MixedProviders ι ε
  ticks : ℕ
  log : List (Dispatch ι δ)
  recorded : List (τ × RequestEvent)
  goroutines : τ → Goroutine ι δ

namespace Client

def start (mp : MixedProviders ι ε) (requests : τ → Request ι δ) : Client τ ι ε δ where
  mp := mp
  ticks := 0
  log := []
  recorded := []
  goroutines t := { request := requests t }

/-- The client as a goroutine sees it in `runOp`. -/
def world (s : Client τ ι ε δ) (t : τ) : World ι ε δ where
  pm := s.mp.chain (s.goroutines t).request.operation.chain
  ticks := s.ticks
  log := s.log
  invoked := (s.goroutines t).invoked
  waited := (s.goroutines t).waited
  failedProviders := (s.goroutines t).failedProviders

/-- A manager is put back; the engines are those of all managers. -/
def putBack (mp : MixedProviders ι ε) (chainType : ProviderChainType) (pm : ProviderManager ι ε) :
    MixedProviders ι ε where
  chains := Function.update mp.chains chainType pm
  engines := pm.engines

variable [ScoringEngine ε] [DecidableEq τ] (u : Unicode) (host : Host)

def stepRunOp (s : Client τ ι ε δ) (t : τ) (pc : Pc ι δ) : Client τ ι ε δ :=
  let r := World.step host (s.goroutines t).request.call (s.world t,pc)
  { mp := putBack s.mp (s.goroutines t).request.operation.chain r.1.pm
    ticks := r.1.ticks
    log := r.1.log
    recorded := s.recorded
    goroutines := Function.update s.goroutines t
      { request := (s.goroutines t).request
        stage := .running r.2
        invoked := r.1.invoked
        waited := r.1.waited
        failedProviders := r.1.failedProviders } }

/-- The recorder is told about a call, which then returns to its caller. -/
def record (s : Client τ ι ε δ) (t : τ) (r : OpReturn δ) : Client τ ι ε δ :=
  { s with
    recorded := s.recorded ++ [(t,requestEvent u (s.goroutines t).request.operation r)]
    goroutines := Function.update s.goroutines t
      { s.goroutines t with stage := .recorded r } }

/-- The next step of a goroutine. A panic of `runOp` is not recorded. -/
def step (s : Client τ ι ε δ) (t : τ) : Client τ ι ε δ :=
  match (s.goroutines t).stage with
  | .recorded _ => s
  | .running (.returned (.ok r)) => s.record u t r
  | .running pc => s.stepRunOp host t pc

def run (s : Client τ ι ε δ) (schedule : List τ) : Client τ ι ε δ :=
  schedule.foldl (step u host) s

@[simp] theorem run_concat (s : Client τ ι ε δ) (l : List τ) (t : τ) :
    s.run u host (l ++ [t]) = (s.run u host l).step u host t := by
  simp [run]

/-- The invocations that the next step of a goroutine makes. -/
def invokedNext (s : Client τ ι ε δ) (t : τ) : List (Dispatch ι δ) :=
  (s.world t).invokedNext host (s.goroutines t).request.call (s.goroutines t).stage.pc

/-- The invocations that a goroutine makes in a run, in order. -/
def invocations (t : τ) : Client τ ι ε δ → List τ → List (Dispatch ι δ)
  | _,[] => []
  | s,v :: l => (if v = t then s.invokedNext host v else []) ++ invocations t (s.step u host v) l

theorem invocations_append (t : τ) (s : Client τ ι ε δ) (l l' : List τ) :
    s.invocations u host t (l ++ l') =
      s.invocations u host t l ++ (s.run u host l).invocations u host t l' := by
  induction l generalizing s with
  | nil => rfl
  | cons v l ih =>
    rw [List.cons_append,invocations,invocations,ih,List.append_assoc]
    rfl

@[simp] theorem invocations_concat (t : τ) (s : Client τ ι ε δ) (l : List τ) (v : τ) :
    s.invocations u host t (l ++ [v]) =
      s.invocations u host t l ++ if v = t then (s.run u host l).invokedNext host v else [] := by
  rw [invocations_append,invocations,invocations,List.append_nil]

theorem step_rule {P : Client τ ι ε δ → Prop} {s : Client τ ι ε δ} {t : τ}
    (hrunOp : ∀ pc, (s.goroutines t).stage = .running pc → (∀ r, pc ≠ .returned (.ok r)) →
      P (s.stepRunOp host t pc))
    (hrecord : ∀ r, (s.goroutines t).stage = .running (.returned (.ok r)) → P (s.record u t r))
    (hdone : ∀ r, (s.goroutines t).stage = .recorded r → P s) : P (s.step u host t) := by
  unfold step
  split
  next r h => exact hdone r h
  next r h => exact hrecord r h
  next pc hne h =>
    apply hrunOp pc h
    rintro r rfl
    exact hne r rfl

theorem step_of_ne (s : Client τ ι ε δ) {t v : τ} (h : v ≠ t) :
    (s.step u host t).goroutines v = s.goroutines v := by
  apply step_rule (P := fun s' => s'.goroutines v = s.goroutines v)
  case hrunOp => exact fun pc _ _ => Function.update_of_ne h _ _
  case hrecord => exact fun r _ => Function.update_of_ne h _ _
  case hdone => exact fun r _ => rfl

theorem step_request (s : Client τ ι ε δ) (t v : τ) :
    ((s.step u host t).goroutines v).request = (s.goroutines v).request := by
  by_cases h : v = t
  · subst h
    apply step_rule (P := fun s' => (s'.goroutines v).request = (s.goroutines v).request)
    case hrunOp => simp [stepRunOp]
    case hrecord => simp [record]
    case hdone => exact fun r _ => rfl
  · rw [s.step_of_ne u host h]

theorem run_request (mp : MixedProviders ι ε) (requests : τ → Request ι δ) (l : List τ) (t : τ) :
    (((start mp requests).run u host l).goroutines t).request = requests t := by
  induction l using List.reverseRecOn with
  | nil => rfl
  | append_singleton l v ih => rw [run_concat,step_request,ih]

theorem step_log (s : Client τ ι ε δ) (t : τ) :
    (s.step u host t).log = s.log ++ s.invokedNext host t := by
  apply step_rule (P := fun s' => s'.log = s.log ++ s.invokedNext host t)
  case hrunOp =>
    intro pc hstage _
    rw [invokedNext,hstage]
    exact World.step_log host _ (s.world t) pc
  case hrecord =>
    intro r hstage
    simp [invokedNext,hstage,Stage.pc,record,World.invokedNext]
  case hdone =>
    intro r hstage
    simp [invokedNext,hstage,Stage.pc,World.invokedNext]

theorem run_log_length [Fintype τ] (mp : MixedProviders ι ε) (requests : τ → Request ι δ)
    (l : List τ) : ((start mp requests).run u host l).log.length =
      ∑ t, ((start mp requests).invocations u host t l).length := by
  induction l using List.reverseRecOn with
  | nil => simp [invocations,run,start]
  | append_singleton l v ih =>
    have hlast : ∑ t, (if v = t then ((start mp requests).run u host l).invokedNext host v
        else []).length = (((start mp requests).run u host l).invokedNext host v).length := by
      rw [Finset.sum_eq_single v]
      · rw [if_pos rfl]
      · intro t _ ht
        rw [if_neg (Ne.symm ht),List.length_nil]
      · simp
    rw [run_concat,step_log,List.length_append,ih]
    simp only [invocations_concat,List.length_append,Finset.sum_add_distrib,hlast]

/-- In every interleaving each call stands where its own invocations have led it. -/
theorem run_accounts (mp : MixedProviders ι ε) (requests : τ → Request ι δ) (l : List τ) (t : τ) :
    World.Accounts (requests t).call ((start mp requests).invocations u host t l)
      (((start mp requests).run u host l).world t,
        (((start mp requests).run u host l).goroutines t).stage.pc) := by
  induction l using List.reverseRecOn with
  | nil => exact ⟨[],⟨rfl,rfl⟩,.inl rfl⟩
  | append_singleton l v ih =>
    rw [run_concat,invocations_concat]
    by_cases h : v = t
    · subst h
      rw [if_pos rfl,invokedNext]
      have hrequest := run_request u host mp requests l v
      generalize (start mp requests).run u host l = s at ih hrequest ⊢
      rw [← hrequest] at ih ⊢
      apply step_rule (P := fun s' => World.Accounts _ _ (s'.world v,(s'.goroutines v).stage.pc))
      case hrunOp =>
        intro pc hstage _
        rw [hstage] at ih ⊢
        have hstep := World.step_accounts _ host (s.world v) ih
        simp only [stepRunOp,world,Function.update_self,Stage.pc]
        exact hstep
      case hrecord =>
        intro r hstage
        rw [hstage] at ih ⊢
        simp only [record,world,Function.update_self,Stage.pc,World.invokedNext,List.append_nil]
        exact ih
      case hdone =>
        intro r hstage
        rw [hstage] at ih ⊢
        simpa [Stage.pc,World.invokedNext] using ih
    · rw [if_neg h,List.append_nil]
      have hsame := ((start mp requests).run u host l).step_of_ne u host (Ne.symm h)
      obtain ⟨names,hstands,htrail⟩ := ih
      refine ⟨names,?_,?_⟩
      · simpa only [hsame] using hstands
      · simpa only [world,hsame] using htrail

/-- The recorder was told exactly about the goroutines that have come to the end of their call. -/
structure Records (s : Client τ ι ε δ) : Prop where
  told : ∀ t e, (t,e) ∈ s.recorded → ∃ r, (s.goroutines t).stage = .recorded r ∧
    e = requestEvent u (s.goroutines t).request.operation r
  once : (s.recorded.map Prod.fst).Nodup
  all : ∀ t, (s.goroutines t).stage.isRecorded = true → t ∈ s.recorded.map Prod.fst

theorem step_records {s : Client τ ι ε δ} (hs : s.Records u) (t : τ) :
    (s.step u host t).Records u := by
  apply step_rule (P := fun s' => s'.Records u)
  case hdone => exact fun r _ => hs
  case hrunOp =>
    intro pc hstage _
    have hnot : ∀ v e, (v,e) ∈ s.recorded → v ≠ t := by
      rintro v e hmem rfl
      obtain ⟨r,hr,_⟩ := hs.told v e hmem
      rw [hstage] at hr
      cases hr
    refine ⟨?_,hs.once,?_⟩
    · intro v e hmem
      simpa [stepRunOp,Function.update_of_ne (hnot v e hmem)] using hs.told v e hmem
    · intro v hv
      by_cases h : v = t
      · subst h
        simp [stepRunOp,Stage.isRecorded] at hv
      · apply hs.all v
        simpa [stepRunOp,Function.update_of_ne h] using hv
  case hrecord =>
    intro r hstage
    have hnew : t ∉ s.recorded.map Prod.fst := by
      intro hmem
      obtain ⟨⟨v,e⟩,hv,rfl⟩ := List.mem_map.mp hmem
      obtain ⟨r',hr,_⟩ := hs.told v e hv
      rw [hstage] at hr
      cases hr
    refine ⟨?_,?_,?_⟩
    · intro v e hmem
      rcases List.mem_append.mp hmem with hold | hlast
      · have hne : v ≠ t := by
          rintro rfl
          exact hnew (List.mem_map_of_mem hold)
        simpa [record,Function.update_of_ne hne] using hs.told v e hold
      · obtain ⟨rfl,rfl⟩ := Prod.mk.inj (List.mem_singleton.mp hlast)
        exact ⟨r,by simp [record],by simp [record]⟩
    · simp only [record,List.map_append,List.map_cons,List.map_nil]
      exact List.nodup_append.mpr ⟨hs.once,by simp,by
        rintro a ha b hb rfl
        rw [List.mem_singleton.mp hb] at ha
        exact hnew ha⟩
    · intro v hv
      by_cases h : v = t
      · subst h
        simp [record]
      · have hold := hs.all v (by simpa [record,Function.update_of_ne h] using hv)
        simp only [record,List.map_append,List.mem_append]
        exact .inl hold

theorem run_records (mp : MixedProviders ι ε) (requests : τ → Request ι δ) (l : List τ) :
    ((start mp requests).run u host l).Records u := by
  apply foldl_invariant (I := Records u)
  · exact ⟨by simp [start],by simp [start],by simp [start,Stage.isRecorded]⟩
  · intro before t after _ hbefore
    exact step_records u host hbefore t

end Client

/-- A recorded event says what became of the invocations of its call. -/
structure RequestEvent.Truthful (u : Unicode) (request : Request ι δ) (ds : List (Dispatch ι δ))
    (e : RequestEvent) : Prop where
  operation : e.operation = request.operation.name
  attempts : e.attemptCount = ds.length
  served : e.success = true → e.errorClass = "" ∧
    ∃ before d x, ds = before ++ [d] ∧ (∀ d' ∈ before, d'.Failed) ∧ d.result = .ok x ∧
      e.provider = d.provider.name
  failed : e.success = false → e.provider = "" ∧ e.errorClass ∈ errorClasses ∧
    (∀ d ∈ ds, d.Failed) ∧
    (ds ≠ [] → ∃ err, LastError request.call ds err ∧ e.errorClass = classifyError u (some err))

theorem Accounted.truthful {request : Request ι δ} {names : List String}
    {ds : List (Dispatch ι δ)} {r : OpReturn δ} (u : Unicode)
    (h : Accounted request.call names ds r.data r.providerName r.attempts r.err) :
    RequestEvent.Truthful u request ds (requestEvent u request.operation r) := by
  refine ⟨rfl,by simp [requestEvent,h.attempts],?_,?_⟩
  · intro hsuccess
    have hnone : r.err = none := by simpa [requestEvent] using hsuccess
    obtain ⟨x,_,gone,round,d,rfl,hgone,hround,hresult,hname⟩ := h.served hnone
    refine ⟨by simp [requestEvent,hnone,classifyError],gone ++ round,d,x,by simp,?_,hresult,
      hname.symm⟩
    intro d' hd'
    rcases List.mem_append.mp hd' with hd' | hd'
    · exact hgone.failed d' hd'
    · exact (hround d' hd').2
  · intro hfailed
    obtain ⟨err,herr⟩ : ∃ err, r.err = some err := by
      simpa [requestEvent,Option.isNone_eq_false_iff,Option.isSome_iff_exists] using hfailed
    obtain ⟨_,hname,hgone,hlast⟩ := h.failed err herr
    refine ⟨hname,?_,hgone.failed,?_⟩
    · simp only [requestEvent,herr]
      exact classifyError_mem u err
    · intro hne
      obtain ⟨inner,hinner,rfl⟩ := hlast.resolve_left hne
      exact ⟨inner,hinner,by simp only [requestEvent,herr,classifyError_allFailed]⟩

theorem Client.recorded_accounted [ScoringEngine ε] [DecidableEq τ] (u : Unicode) (host : Host)
    (mp : MixedProviders ι ε) (requests : τ → Request ι δ) (l : List τ) {t : τ} {r : OpReturn δ}
    (h : (((start mp requests).run u host l).goroutines t).stage = .recorded r) :
    ∃ names, Accounted (requests t).call names ((start mp requests).invocations u host t l)
        r.data r.providerName r.attempts r.err ∧
      (((start mp requests).run u host l).goroutines t).failedProviders =
        (requests t).call.failedProviders.map (· ++ names) := by
  obtain ⟨names,hstands,htrail⟩ := run_accounts u host mp requests l t
  rw [h] at hstands htrail
  exact ⟨names,hstands,htrail.resolve_left (by simp [Stage.pc])⟩

theorem Client.run_truthful [ScoringEngine ε] [DecidableEq τ] (u : Unicode) (host : Host)
    (mp : MixedProviders ι ε) (requests : τ → Request ι δ) (l : List τ) {t : τ} {e : RequestEvent}
    (hmem : (t,e) ∈ ((start mp requests).run u host l).recorded) :
    e.Truthful u (requests t) ((start mp requests).invocations u host t l) := by
  obtain ⟨r,hstage,rfl⟩ := (run_records u host mp requests l).told t e hmem
  obtain ⟨names,hr,_⟩ := recorded_accounted u host mp requests l hstage
  rw [run_request u host mp requests l t]
  exact hr.truthful u

/-- For every client, all requests and every interleaving of their goroutines: the recorder is
told about a call at most once, about exactly those that have come to their end, and what it is
told is true of the invocations that the call has made. When all calls have come to their end, the
attempts that it was told of are all the invocations there were. -/
theorem recorded_truthful [ScoringEngine ε] [DecidableEq τ] [Fintype τ] (u : Unicode)
    (host : Host) (mp : MixedProviders ι ε) (requests : τ → Request ι δ) (l : List τ) :
    let s := (Client.start mp requests).run u host l
    (s.recorded.map Prod.fst).Nodup ∧
    (∀ t, t ∈ s.recorded.map Prod.fst ↔ (s.goroutines t).stage.isRecorded = true) ∧
    (∀ t e, (t,e) ∈ s.recorded →
      e.Truthful u (requests t) ((Client.start mp requests).invocations u host t l)) ∧
    ((∀ t, (s.goroutines t).stage.isRecorded = true) →
      (s.recorded.map fun x => x.2.attemptCount).sum = s.log.length) := by
  intro s
  have hs : s.Records u := Client.run_records u host mp requests l
  have htruthful : ∀ t e, (t,e) ∈ s.recorded →
      e.Truthful u (requests t) ((Client.start mp requests).invocations u host t l) :=
    fun t e hmem => Client.run_truthful u host mp requests l hmem
  refine ⟨hs.once,?_,htruthful,?_⟩
  · intro t
    refine ⟨?_,hs.all t⟩
    intro hmem
    obtain ⟨⟨v,e⟩,hv,rfl⟩ := List.mem_map.mp hmem
    obtain ⟨r,hstage,_⟩ := hs.told v e hv
    rw [hstage]
    rfl
  · intro hall
    -- The recorder was told about every goroutine, about each once.
    have hfinset : (s.recorded.map Prod.fst).toFinset = Finset.univ := by
      ext t
      simpa only [List.mem_toFinset,Finset.mem_univ,iff_true] using hs.all t (hall t)
    have hattempts : (s.recorded.map fun x => x.2.attemptCount) = (s.recorded.map Prod.fst).map
        fun t => (((Client.start mp requests).invocations u host t l).length : ℤ) := by
      rw [List.map_map]
      apply List.map_congr_left
      rintro ⟨t,e⟩ hmem
      exact (htruthful t e hmem).attempts
    rw [hattempts,← List.sum_toFinset _ hs.once,hfinset,
      Client.run_log_length u host mp requests l]
    push_cast
    rfl

end ChainKit
