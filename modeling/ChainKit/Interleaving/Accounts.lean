import ChainKit.Interleaving.Progress

/-! What a call returns and leaves in its debug context, against the invocations that it has made
itself. Other calls on the same manager may run in between. -/
namespace ChainKit
open Lib
variable {τ ι ε δ : Type}

def Dispatch.Failed (d : Dispatch ι δ) : Prop := ∃ err, d.result = .error err

/-- Invocations on one provider after the other, none of which has served the call: those on a
provider stand together. -/
inductive GivenUp : List String → List (Dispatch ι δ) → Prop
  | nil : GivenUp [] []
  | snoc {names : List String} {gone round : List (Dispatch ι δ)} (p : ProviderConfig ι)
      (h : GivenUp names gone) (hne : round ≠ []) (hround : ∀ d ∈ round, d.provider = p)
      (hfailed : ∀ d ∈ round, d.Failed) : GivenUp (names ++ [p.name]) (gone ++ round)

/-- The invocations of a call that was served: those on providers that were given up, then those
on the provider that has served it, of which only the last one has succeeded. -/
def ServedBy (names : List String) (ds : List (Dispatch ι δ)) (name : String) (data : δ) : Prop :=
  ∃ gone round d, ds = gone ++ (round ++ [d]) ∧ GivenUp names gone ∧
    (∀ d' ∈ round, d'.provider = d.provider ∧ d'.Failed) ∧ d.result = .ok data ∧
    d.provider.name = name

/-- The error is that of the last invocation, or the context's at one of the waits. -/
def LastError (call : Call ι δ) (ds : List (Dispatch ι δ)) (err : GoError) : Prop :=
  (∃ before d, ds = before ++ [d] ∧ d.result = .error err) ∨ ∃ k, call.wait k = some err

/-- The results of a call say what became of its invocations. -/
structure Accounted (call : Call ι δ) (names : List String) (ds : List (Dispatch ι δ))
    (data : Option δ) (name : String) (attempts : ℕ) (err : Option GoError) : Prop where
  attempts : attempts = ds.length
  served : err = none → ∃ x, data = some x ∧ ServedBy names ds name x
  failed : ∀ e, err = some e → data = none ∧ name = "" ∧ GivenUp names ds ∧
    (ds = [] ∨ ∃ inner, LastError call ds inner ∧ e = World.allFailed (some inner))

/-- The invocations on the current provider, after those on the providers that were given up. -/
def Round (names : List String) (ds : List (Dispatch ι δ)) (c : Cursor ι)
    (round : List (Dispatch ι δ)) : Prop :=
  ∃ gone, ds = gone ++ round ∧ GivenUp names gone ∧ gone.length = c.total ∧
    ∀ d ∈ round, d.provider = c.provider

/-- All attempts on the current provider have failed so far. -/
structure Failing (names : List String) (ds : List (Dispatch ι δ)) (c : Cursor ι)
    (round : List (Dispatch ι δ)) : Prop where
  isRound : Round names ds c round
  length : round.length = c.attempts
  failed : ∀ d ∈ round, d.Failed

/-- Where a call stands, against its invocations so far and the providers it has given up. -/
def Pc.Stands (call : Call ι δ) (names : List String) (ds : List (Dispatch ι δ)) : Pc ι δ → Prop
  | .entry | .getAvailable _ => names = [] ∧ ds = []
  | .narrow _ providers | .readPolicy _ providers => names = [] ∧ ds = [] ∧ providers ≠ []
  | .attempt c => ∃ round, Failing names ds c round
  | .inFlight c _ result => ∃ round d, Round names ds c (round ++ [d]) ∧
      round.length = c.attempts ∧ (∀ d' ∈ round, d'.Failed) ∧ d.result = result
  | .recordSuccess c _ data | .recordLatency c _ data | .recordAttempt c data =>
      ds.length = c.total+c.attempts ∧ ServedBy names ds c.provider.name data
  | .recordFailure c _ err | .updateFailure c _ err _ | .scoreFailure c _ err _
  | .handleAuthFailure c err _ =>
      ∃ round, Failing names ds c round ∧ round ≠ [] ∧ LastError call ds err
  | .finish _ data name attempts err => Accounted call names ds data name attempts err
  | .returned (.ok r) => Accounted call names ds r.data r.providerName r.attempts r.err
  | .returned (.error _) => names = [] ∧ ds = []

section
variable {call : Call ι δ} {names : List String} {ds : List (Dispatch ι δ)}

theorem Accounted.of_nil (err : GoError) :
    Accounted call [] ([] : List (Dispatch ι δ)) none "" 0 (some err) :=
  ⟨rfl,by simp,fun _ _ => ⟨rfl,rfl,.nil,.inl rfl⟩⟩

theorem GivenUp.failed (h : GivenUp names ds) : ∀ d ∈ ds, d.Failed := by
  induction h with
  | nil => simp
  | snoc p h hne hround hfailed ih =>
    intro d hd
    rcases List.mem_append.mp hd with hd | hd
    · exact ih d hd
    · exact hfailed d hd

end

namespace World
variable (call : Call ι δ)

/-- A call stands where its invocations have led it, and its debug context has got the names of
the providers that it has given up. -/
def Accounts (ds : List (Dispatch ι δ)) (s : World ι ε δ × Pc ι δ) : Prop :=
  ∃ names, s.2.Stands call names ds ∧
    (s.2 = .entry ∨ s.1.failedProviders = call.failedProviders.map (· ++ names))

section
variable {call} {w : World ι ε δ} {c : Cursor ι} {names : List String}
  {ds round : List (Dispatch ι δ)} {err : GoError}

theorem giveUp_accounts (htrail : w.failedProviders = call.failedProviders.map (· ++ names))
    (h : Failing names ds c round) (hne : round ≠ []) (hlast : LastError call ds err) :
    Accounts call ds (w.giveUp c err) := by
  obtain ⟨gone,hds,hgone,htotal,hprovider⟩ := h.isRound
  have hgivenUp : GivenUp (names ++ [c.provider.name]) ds := by
    rw [hds]
    exact .snoc c.provider hgone hne hprovider h.failed
  have hlength : c.total+c.attempts = ds.length := by
    rw [hds,List.length_append,htotal,h.length]
  refine ⟨names ++ [c.provider.name],?_,.inr ?_⟩
  · simp only [giveUp,hlength]
    cases c.rest with
    | nil =>
      refine ⟨rfl,by simp,?_⟩
      intro e he
      obtain rfl := Option.some.inj he
      exact ⟨rfl,rfl,hgivenUp,.inr ⟨err,hlast,rfl⟩⟩
    | cons p ps => exact ⟨[],⟨ds,by simp,hgivenUp,rfl,by simp⟩,rfl,by simp⟩
  · simp only [giveUp,recordFailedProvider,htrail,Option.map_map]
    congr 1
    funext l
    simp

theorem afterFailure_accounts (htrail : w.failedProviders = call.failedProviders.map (· ++ names))
    (h : Failing names ds c round) (hne : round ≠ []) (hlast : LastError call ds err) :
    Accounts call ds (w.afterFailure c err) := by
  unfold afterFailure
  split_ifs
  · exact ⟨names,⟨round,h⟩,.inr htrail⟩
  · exact giveUp_accounts htrail h hne hlast

end

variable [ScoringEngine ε] (host : Host) (w : World ι ε δ)

/-- A step that invokes nothing keeps the account; one that invokes adds to it. -/
theorem step_accounts {pc : Pc ι δ} {ds : List (Dispatch ι δ)} (h : Accounts call ds (w,pc)) :
    Accounts call (ds ++ w.invokedNext host call pc) (step host call (w,pc)) := by
  obtain ⟨names,hstands,htrail⟩ := h
  cases pc with
  | entry =>
    obtain ⟨rfl,rfl⟩ := hstands
    exact ⟨[],⟨rfl,rfl⟩,.inr (by simp [step,enter])⟩
  | attempt c =>
    replace htrail := htrail.resolve_left (by simp)
    have hwaited := w.afterWait_failedProviders c
    obtain ⟨round,hround⟩ := hstands
    cases hc : w.cancelled call c with
    | some err =>
      rw [step_attempt_cancelled host call hc,invokedNext,hc,List.append_nil]
      -- A wait is interrupted only after a first attempt.
      have hwait : 0 < c.attempts ∧ call.wait w.waited = some err := by
        simpa [cancelled] using hc
      refine giveUp_accounts (hwaited.trans htrail) hround ?_ (.inr ⟨w.waited,hwait.2⟩)
      apply List.ne_nil_of_length_pos
      rw [hround.length]
      exact hwait.1
    | none =>
      obtain ⟨gone,rfl,hgone,htotal,hprovider⟩ := hround.isRound
      rw [step_attempt_invokes host call hc,invokedNext,hc]
      refine ⟨names,⟨round,(w.afterWait c).invocation host call c.provider,
        ⟨gone,by simp,hgone,htotal,?_⟩,hround.length,hround.failed,rfl⟩,
        .inr (hwaited.trans htrail)⟩
      intro d hd
      rcases List.mem_append.mp hd with hd | hd
      · exact hprovider d hd
      · rw [List.mem_singleton.mp hd]
        rfl
  | getAvailable start =>
    replace htrail := htrail.resolve_left (by simp)
    obtain ⟨rfl,rfl⟩ := hstands
    have hkept : (step host call (w,.getAvailable start)).1.failedProviders =
        w.failedProviders := by
      rw [step_getAvailable_fst]
      rfl
    refine ⟨[],?_,.inr (hkept.trans htrail)⟩
    simp only [step,invokedNext,List.append_nil]
    split
    · exact ⟨rfl,rfl⟩
    · exact Accounted.of_nil _
    next hne _ => exact ⟨rfl,rfl,hne⟩
  | narrow start providers =>
    replace htrail := htrail.resolve_left (by simp)
    obtain ⟨rfl,rfl,hne⟩ := hstands
    refine ⟨[],?_,.inr (by rwa [step_narrow_fst])⟩
    simp only [step,invokedNext,List.append_nil]
    split
    · exact Accounted.of_nil _
    next hnarrow => exact ⟨rfl,rfl,narrow_ne_nil hne hnarrow⟩
  | readPolicy start providers =>
    replace htrail := htrail.resolve_left (by simp)
    obtain ⟨rfl,rfl,hne⟩ := hstands
    refine ⟨[],?_,.inr htrail⟩
    cases providers with
    | nil => exact absurd rfl hne
    | cons p ps => exact ⟨[],⟨[],rfl,.nil,rfl,by simp⟩,rfl,by simp⟩
  | inFlight c began result =>
    replace htrail := htrail.resolve_left (by simp)
    obtain ⟨round,d,⟨gone,rfl,hgone,htotal,hprovider⟩,hlength,hfailed,hresult⟩ := hstands
    have hd : d.provider = c.provider := hprovider d (by simp)
    simp only [invokedNext,List.append_nil]
    cases result with
    | ok data =>
      refine ⟨names,⟨by simp [htotal,hlength],gone,round,d,rfl,hgone,?_,hresult,by rw [hd]⟩,
        .inr htrail⟩
      intro d' hd'
      exact ⟨(hprovider d' (by simp [hd'])).trans hd.symm,hfailed d' hd'⟩
    | error err =>
      refine ⟨names,⟨round ++ [d],⟨⟨gone,rfl,hgone,htotal,hprovider⟩,by simp [hlength],?_⟩,by simp,
        .inl ⟨gone ++ round,d,by simp,hresult⟩⟩,.inr htrail⟩
      intro d' hd'
      rcases List.mem_append.mp hd' with hd' | hd'
      · exact hfailed d' hd'
      · rw [List.mem_singleton.mp hd']
        exact ⟨err,hresult⟩
  | recordAttempt c data =>
    replace htrail := htrail.resolve_left (by simp)
    obtain ⟨hlength,hserved⟩ := hstands
    simp only [step,invokedNext,List.append_nil]
    exact ⟨names,⟨hlength.symm,fun _ => ⟨data,rfl,hserved⟩,by simp⟩,.inr htrail⟩
  | scoreFailure c elapsed err now =>
    replace htrail := htrail.resolve_left (by simp)
    obtain ⟨round,hround,hne,hlast⟩ := hstands
    simp only [step,invokedNext,List.append_nil]
    split_ifs
    · exact ⟨names,⟨round,hround,hne,hlast⟩,.inr htrail⟩
    · exact afterFailure_accounts htrail hround hne hlast
  | handleAuthFailure c err now =>
    replace htrail := htrail.resolve_left (by simp)
    obtain ⟨round,hround,hne,hlast⟩ := hstands
    simp only [step,invokedNext,List.append_nil]
    exact afterFailure_accounts htrail hround hne hlast
  | _ =>
    simp only [invokedNext,List.append_nil]
    exact ⟨names,hstands,.inr (htrail.resolve_left (by simp))⟩

end World
end ChainKit
