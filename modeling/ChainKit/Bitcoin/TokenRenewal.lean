import ChainKit.Bitcoin.TokenCache

/-! What becomes of a call of `callAPI` whose token is refused, while other calls drop and renew the
token: it is made again with a token that was asked for after the refusal. -/
namespace ChainKit.Bitcoin.Blockstream
open Lib
variable {τ : Type}

/-- The log up to some point, if it is the start or a call has just dropped a token. -/
def Entry.Begins (t : τ) (before : List (Entry τ)) : Prop :=
  before = [] ∨ ∃ l, before = l ++ [.dropped t]

/-- The token was asked for and issued since the call began or has dropped a token. -/
def Fresh (log : List (Entry τ)) (t : τ) (token : String) : Prop :=
  ∀ before between, log = before ++ between → Entry.Begins t before →
    ∃ u now c, c.accessToken = token ∧ [.asked u now,.issued u c].Sublist between

theorem Entry.Begins.split {log before between : List (Entry τ)} {t : τ} {e : Entry τ}
    (hbegins : Begins t before) (he : e ≠ .dropped t) (hsplit : log ++ [e] = before ++ between) :
    ∃ rest, log = before ++ rest ∧ between = rest ++ [e] := by
  obtain rfl | ⟨rest,x,rfl⟩ := List.eq_nil_or_concat between
  · rw [List.append_nil] at hsplit
    subst hsplit
    obtain hnil | ⟨l,hl⟩ := hbegins
    · simp at hnil
    · exact absurd (List.append_singleton_inj.mp hl).2 he
  · rw [List.concat_eq_append,← List.append_assoc] at hsplit
    obtain ⟨hlog,rfl⟩ := List.append_singleton_inj.mp hsplit
    exact ⟨rest,hlog,List.concat_eq_append⟩

theorem Fresh.append {log : List (Entry τ)} {t : τ} {token : String} (h : Fresh log t token)
    {entries : List (Entry τ)} (hentries : .dropped t ∉ entries) :
    Fresh (log ++ entries) t token := by
  induction entries generalizing log with
  | nil => rwa [List.append_nil]
  | cons e entries ih =>
    rw [List.append_cons]
    refine ih ?_ (List.not_mem_of_not_mem_cons hentries)
    intro before between hsplit hbegins
    obtain ⟨rest,hlog,rfl⟩ := hbegins.split (List.ne_of_not_mem_cons hentries).symm hsplit
    obtain ⟨u,now,c,htoken,hsub⟩ := h before rest hlog hbegins
    exact ⟨u,now,c,htoken,hsub.trans (List.sublist_append_left rest [e])⟩

def Entry.Sound (log : List (Entry τ)) : Entry τ → Prop
  | .sent t token => Fresh log t token
  | _ => True

def snoc (log : List (Entry τ)) (e : Entry τ) : List (Entry τ) := log ++ [e]

theorem foldl_snoc (log entries : List (Entry τ)) : entries.foldl snoc log = log ++ entries := by
  induction entries generalizing log with
  | nil => simp
  | cons e entries ih => rw [List.foldl_cons,ih,snoc,List.append_assoc,List.singleton_append]

namespace Shared
variable [DecidableEq τ] {text : Bytes → String} {creds : Credentials} {s : Shared τ}

omit [DecidableEq τ] in
theorem Kept.since (h : s.Kept) {t : τ} {before between : List (Entry τ)}
    (hsplit : s.log = before ++ between) (hbegins : Entry.Begins t before) :
    (∀ u, (s.calls u).pc = .fetching → ∃ now, .asked u now ∈ between) ∧
    (s.cache.accessToken ≠ "" → ∃ u now, [.asked u now,.issued u s.cache].Sublist between) := by
  have hallowed := h.allowed
  rw [hsplit] at hallowed
  obtain ⟨hbefore,hbetween⟩ := allowed_append.mp hallowed
  have hclear : (Ledger.of before).fetching = none ∧ (Ledger.of before).cache.accessToken = "" := by
    obtain rfl | ⟨l,rfl⟩ := hbegins
    · exact ⟨rfl,rfl⟩
    · obtain ⟨_,hdropped,_⟩ := allowed_append.mp hbefore
      rw [Ledger.of_append]
      exact ⟨hdropped,rfl⟩
  have hledger := Ledger.issued_of_token hbetween hclear.1 hclear.2
  rw [← Ledger.of_append,← hsplit,h.cache] at hledger
  refine ⟨?_,hledger.2⟩
  intro u hu
  exact hledger.1 u ((h.fetching u).mp hu)

/-- Every token that is sent, or about to be, is fresh. -/
structure Renewed (s : Shared τ) : Prop where
  held : ∀ t token, (s.calls t).pc = .send token → Fresh s.log t token
  sent : Along snoc Entry.Sound [] s.log

theorem Renewed.extend (h : s.Renewed) {s' : Shared τ} (t : τ) (c : Call)
    (entries : List (Entry τ)) (hcalls : s'.calls = Function.update s.calls t c)
    (hlog : s'.log = s.log ++ entries) (hdropped : ∀ u, u ≠ t → .dropped u ∉ entries)
    (hheld : ∀ token, c.pc = .send token → Fresh (s.log ++ entries) t token)
    (hsent : Along snoc Entry.Sound s.log entries) : s'.Renewed := by
  refine ⟨?_,?_⟩
  · intro u token hpc
    rw [hcalls] at hpc
    rw [hlog]
    by_cases hu : u = t
    · subst hu
      rw [Function.update_self] at hpc
      exact hheld token hpc
    · rw [Function.update_of_ne hu] at hpc
      exact (h.held u token hpc).append (hdropped u hu)
  · rw [hlog,along_append,foldl_snoc,List.nil_append]
    exact ⟨h.sent,hsent⟩

theorem Renewed.silent (h : s.Renewed) {s' : Shared τ} (t : τ) (c : Call)
    (hcalls : s'.calls = Function.update s.calls t c) (hlog : s'.log = s.log)
    (hheld : ∀ token, c.pc = .send token → Fresh s.log t token) : s'.Renewed := by
  refine h.extend t c [] hcalls (by rw [hlog,List.append_nil]) (by simp) ?_ trivial
  rwa [List.append_nil]

omit [DecidableEq τ] in
/-- A valid token is fresh for whoever finds it. -/
theorem Kept.fresh (h : s.Kept) (t : τ) {now : ℤ} (hvalid : s.cache.valid now = true) :
    Fresh s.log t s.cache.accessToken := by
  have htoken : s.cache.accessToken ≠ "" := (of_decide_eq_true hvalid).1
  intro before between hsplit hbegins
  obtain ⟨u,now,hsub⟩ := (h.since hsplit hbegins).2 htoken
  exact ⟨u,now,s.cache,rfl,hsub⟩

omit [DecidableEq τ] in
theorem Kept.fresh_issued (h : s.Kept) {t : τ} (ht : (s.calls t).pc = .fetching) (c : Cache) :
    Fresh (s.log ++ [.issued t c]) t c.accessToken := by
  intro before between hsplit hbegins
  obtain ⟨rest,hlog,rfl⟩ := hbegins.split (by simp) hsplit
  obtain ⟨now,hmem⟩ := (h.since hlog hbegins).1 t ht
  exact ⟨t,now,c,rfl,(List.singleton_sublist.mpr hmem).append (List.Sublist.refl [_])⟩

theorem getAccessToken_issued {now : ℤ} {reply : TokenReply} {token : String} {c : Cache}
    (h : getAccessToken text creds ⟨now,id,now,reply,now⟩ ⟨"",0⟩ = (.ok token,c)) :
    c.accessToken = token := by
  have hempty : (⟨"",0⟩ : Cache).valid now = false := by simp [Cache.valid]
  simp only [getAccessToken,id,hempty,Bool.false_eq_true,if_false] at h
  split_ifs at h
  · cases h
  · cases reply with
    | token accessToken expiresIn =>
      cases h
      rfl
    | status statusCode body =>
      simp only at h
      split_ifs at h <;> cases h
    | _ => cases h

theorem step_renewed (hkept : s.Kept) (h : s.Renewed) (m : Move τ) :
    (s.step text creds m).Renewed := by
  apply step_rule
  case same => exact h
  case hit | rehit =>
    intro _ hvalid
    refine h.silent m.t _ rfl rfl ?_
    intro token htoken
    cases htoken
    exact hkept.fresh m.t hvalid
  case miss | acquire | missing | noRequest =>
    intros
    exact h.silent m.t _ rfl rfl (fun _ htoken => (nomatch htoken))
  case ask | fail =>
    intros
    exact h.extend m.t _ _ rfl rfl (by simp) (fun _ htoken => (nomatch htoken)) ⟨trivial,trivial⟩
  case issue =>
    intro token c hpc hgot
    refine h.extend m.t _ _ rfl rfl (by simp) ?_ ⟨trivial,trivial⟩
    intro token' htoken
    cases htoken
    rw [← getAccessToken_issued hgot]
    exact hkept.fresh_issued hpc c
  case answer =>
    intro token exit hpc _ _
    exact h.extend m.t _ _ rfl rfl (by simp) (fun _ htoken => (nomatch htoken))
      ⟨h.held m.t token hpc,trivial⟩
  case unauthorized | refuse =>
    intro token hpc _ _
    exact h.extend m.t _ _ rfl rfl (by simp) (fun _ htoken => (nomatch htoken))
      ⟨h.held m.t token hpc,trivial,trivial⟩
  case drop =>
    intro _ _
    refine h.extend m.t _ _ rfl rfl ?_ (fun _ htoken => (nomatch htoken)) ⟨trivial,trivial⟩
    intro u hu hmem
    cases List.mem_singleton.mp hmem
    exact hu rfl

end Shared

/-- What a call itself sends to the API, and its part in dropping tokens. -/
def Entry.ownBy [DecidableEq τ] (t : τ) : Entry τ → Bool
  | .sent u _ => u = t
  | .unauthorized u => u = t
  | .dropped u => u = t
  | _ => false

/-- All that a call ever does towards the API, with the first token and the second one. -/
def script (t : τ) (token token' : String) : List (Entry τ) :=
  [.sent t token,.unauthorized t,.dropped t,.sent t token',.unauthorized t]

def Call.progress (c : Call) : ℕ :=
  match c.pc with
  | .drop => 2
  | .done .unauthorized => 5
  | .done (.noToken _) => if c.retried then 3 else 0
  | .done (.noRequest _) => if c.retried then 3 else 0
  | .done _ => if c.retried then 4 else 1
  | _ => if c.retried then 3 else 0

namespace Shared
variable [DecidableEq τ] {text : Bytes → String} {creds : Credentials} {s : Shared τ}

/-- A call that has been answered, but not with status 401, has sent as many requests as it was
tried. -/
theorem progress_of_exit {reply : ApiReply} {exit : Exit} (hreply : ∀ e, reply ≠ .noRequest e)
    (h : reply.exit = some exit) (retried : Bool) :
    (⟨.done exit,retried⟩ : Call).progress = if retried then 4 else 1 := by
  cases reply with
  | noRequest e => exact absurd rfl (hreply e)
  | noResponse e =>
    cases h
    rfl
  | response statusCode body readErr =>
    simp only [ApiReply.exit] at h
    split at h
    · cases readErr <;> cases h <;> rfl
    all_goals
      cases h
      try rfl

theorem step_other (s : Shared τ) (text : Bytes → String) (creds : Credentials) {t : τ} {m : Move τ}
    (ht : t ≠ m.t) :
    (s.step text creds m).calls t = s.calls t ∧
      (s.step text creds m).log.filter (Entry.ownBy t) = s.log.filter (Entry.ownBy t) := by
  apply step_rule (P := fun s' => s'.calls t = s.calls t ∧
    s'.log.filter (Entry.ownBy t) = s.log.filter (Entry.ownBy t))
  case same => exact ⟨rfl,rfl⟩
  all_goals
    intros
    simp [goto,note,Function.update_of_ne ht,Entry.ownBy,ht.symm]

structure Scripted (s : Shared τ) (t : τ) : Prop where
  own : ∃ token token', s.log.filter (Entry.ownBy t) =
    (script t token token').take (s.calls t).progress
  retried : (s.calls t).pc = .drop → (s.calls t).retried = true

theorem step_scripted {t : τ} (h : s.Scripted t) (m : Move τ) :
    (s.step text creds m).Scripted t := by
  by_cases ht : t = m.t
  · subst ht
    obtain ⟨⟨token,token',hown⟩,hretried⟩ := h
    apply step_rule (P := (Scripted · m.t))
    case same => exact ⟨⟨token,token',hown⟩,hretried⟩
    case hit | miss =>
      intro hpc
      intros
      refine ⟨⟨token,token',?_⟩,by simp [goto]⟩
      simpa [goto,Call.progress,hpc] using hown
    case acquire | rehit | missing =>
      intro hpc _
      refine ⟨⟨token,token',?_⟩,by simp [goto]⟩
      simpa [goto,Call.progress,hpc] using hown
    case ask =>
      intro hpc _
      refine ⟨⟨token,token',?_⟩,by simp [goto,note]⟩
      simpa [goto,note,Call.progress,hpc,Entry.ownBy] using hown
    case issue | fail =>
      intro _ c hpc _
      refine ⟨⟨token,token',?_⟩,by simp [goto,note]⟩
      simpa [goto,note,Call.progress,hpc,Entry.ownBy] using hown
    case noRequest =>
      intro _ e hpc _
      refine ⟨⟨token,token',?_⟩,by simp [goto]⟩
      simpa [goto,Call.progress,hpc] using hown
    case answer =>
      intro sent exit hpc hreply hexit
      have hprogress := progress_of_exit hreply hexit (s.calls m.t).retried
      simp only [Call.progress,hpc] at hown
      cases hr : (s.calls m.t).retried with
      | false =>
        rw [hr] at hown hprogress
        refine ⟨⟨sent,"",?_⟩,by simp [goto,note]⟩
        simp [goto,note,hr,hprogress,hown,script,Entry.ownBy]
      | true =>
        rw [hr] at hown hprogress
        refine ⟨⟨token,sent,?_⟩,by simp [goto,note]⟩
        simp [goto,note,hr,hprogress,hown,script,Entry.ownBy]
    case unauthorized =>
      intro sent hpc _ hr
      simp only [Call.progress,hpc,hr] at hown
      refine ⟨⟨token,sent,?_⟩,by simp [goto,note]⟩
      simp [goto,note,Call.progress,hown,script,Entry.ownBy]
    case refuse =>
      intro sent hpc _ hr
      simp only [Call.progress,hpc,hr] at hown
      refine ⟨⟨sent,"",?_⟩,by simp [note]⟩
      simp [note,Call.progress,hown,script,Entry.ownBy]
    case drop =>
      intro hpc _
      have hr := hretried hpc
      simp only [Call.progress,hpc] at hown
      refine ⟨⟨token,"",?_⟩,by simp [goto,note]⟩
      simp [goto,note,Call.progress,hr,hown,script,Entry.ownBy]
  · obtain ⟨hcalls,hlog⟩ := step_other s text creds ht
    refine ⟨?_,?_⟩
    · rw [hcalls,hlog]
      exact h.own
    · rw [hcalls]
      exact h.retried

end Shared

section
variable (text : Bytes → String) (creds : Credentials)

/-- `GetAccessToken` may return this where no token is in memory. -/
def Obtains (result : Except GoError String) : Prop :=
  ∃ call, ∀ c : Cache, c.accessToken = "" → ∃ c', getAccessToken text creds call c = (result,c')

/-- A turn of the loop may end like this where no token is in memory. -/
def Ends (exit : Option Exit) : Prop :=
  ∃ turn, ∀ c : Cache, c.accessToken = "" → ∃ c', answer text creds turn c = (exit,c')

/-- What `callAPI` can do when nobody else calls it: have its first token refused, or return. -/
structure Explained (call : Call) : Prop where
  refused : call.retried = true → Ends text creds none
  obtains : ∀ token, call.pc = .send token → Obtains text creds (.ok token)
  done : ∀ exit, call.pc = .done exit → ∃ first second,
    (callLoop text creds first second ⟨"",0⟩).1 = exit

end

section
variable {text : Bytes → String} {creds : Credentials} {call call' : Call}

theorem valid_of_empty {c : Cache} (h : c.accessToken = "") (now : ℤ) : c.valid now = false := by
  simp [Cache.valid,h]

/-- The token may have been put into memory by somebody else before the lock was taken. -/
theorem obtains_of_valid {c₀ : Cache} {now : ℤ} (h : c₀.valid now = true) :
    Obtains text creds (.ok c₀.accessToken) := by
  refine ⟨⟨now,fun _ => c₀,now,.malformed .ErrAuthFailure,now⟩,?_⟩
  intro c hc
  exact ⟨c₀,by simp [getAccessToken,valid_of_empty hc,h]⟩

theorem obtains_of_reply {now : ℤ} {reply : TokenReply} {result : Except GoError String}
    {c₀ : Cache}
    (h : getAccessToken text creds ⟨now,id,now,reply,now⟩ ⟨"",0⟩ = (result,c₀)) :
    Obtains text creds result := by
  refine ⟨⟨now,fun _ => ⟨"",0⟩,now,reply,now⟩,?_⟩
  intro c hc
  refine ⟨c₀,?_⟩
  rw [← h]
  simp [getAccessToken,valid_of_empty hc,valid_of_empty (c := ⟨"",0⟩) rfl]

theorem obtains_missing (h : creds.clientID = "" ∨ creds.clientSecret = "") :
    Obtains text creds (.error (.plain "missing API client ID or secret")) := by
  refine ⟨⟨0,id,0,.malformed .ErrAuthFailure,0⟩,?_⟩
  intro c hc
  exact ⟨c,by simp [getAccessToken,valid_of_empty hc,h]⟩

theorem Obtains.ends {token : String} (h : Obtains text creds (.ok token)) (reply : ApiReply) :
    Ends text creds reply.exit := by
  obtain ⟨tokenCall,htoken⟩ := h
  refine ⟨⟨tokenCall,reply⟩,?_⟩
  intro c hc
  obtain ⟨c',hc'⟩ := htoken c hc
  refine ⟨c',?_⟩
  simp only [answer,hc']
  cases reply with
  | response statusCode body readErr =>
    simp only [ApiReply.exit]
    split
    · cases readErr <;> rfl
    · rfl
    · rfl
    · rfl
    · simp_all
  | _ => rfl

theorem Obtains.ends_of_error {e : GoError} (h : Obtains text creds (.error e)) :
    Ends text creds (some (.noToken e)) := by
  obtain ⟨tokenCall,htoken⟩ := h
  refine ⟨⟨tokenCall,.noResponse e⟩,?_⟩
  intro c hc
  obtain ⟨c',hc'⟩ := htoken c hc
  exact ⟨c',by simp only [answer,hc']⟩

/-- A turn that is the last one: the first if it is not refused, the second in any case. -/
theorem Explained.last (h : Explained text creds call) (hretried : call'.retried = call.retried)
    {exit : Exit} (hpc : call'.pc = .done exit)
    (hends : Ends text creds (some exit) ∨
      call.retried = true ∧ exit = .unauthorized ∧ Ends text creds none) :
    Explained text creds call' := by
  refine ⟨fun hr => h.refused (hretried ▸ hr),?_,?_⟩
  · intro token htoken
    rw [hpc] at htoken
    cases htoken
  intro exit' hexit
  rw [hpc] at hexit
  obtain rfl := Pc.done.inj hexit
  cases hr : call.retried with
  | false =>
    obtain ⟨turn,hturn⟩ := hends.resolve_right (by simp [hr])
    obtain ⟨c,hc⟩ := hturn ⟨"",0⟩ rfl
    exact ⟨turn,turn,by rw [callLoop,hc]⟩
  | true =>
    obtain ⟨first,hfirst⟩ := h.refused hr
    obtain ⟨c,hc⟩ := hfirst ⟨"",0⟩ rfl
    obtain ⟨second,hsecond⟩ | ⟨_,rfl,second,hsecond⟩ := hends
    · obtain ⟨c',hc'⟩ := hsecond { c with accessToken := "" } rfl
      exact ⟨first,second,by simp only [callLoop,hc,hc']⟩
    · obtain ⟨c',hc'⟩ := hsecond { c with accessToken := "" } rfl
      exact ⟨first,second,by simp only [callLoop,hc,hc']⟩

theorem Explained.goes (h : Explained text creds call) (hretried : call'.retried = call.retried)
    (hpc : ∀ token, call'.pc = .send token → Obtains text creds (.ok token))
    (hdone : ∀ exit, call'.pc ≠ .done exit) : Explained text creds call' :=
  ⟨fun hr => h.refused (hretried ▸ hr),hpc,fun exit hexit => absurd hexit (hdone exit)⟩

end

namespace Shared
variable [DecidableEq τ] {text : Bytes → String} {creds : Credentials} {s : Shared τ}

theorem step_explained {t : τ} (h : Explained text creds (s.calls t)) (m : Move τ) :
    Explained text creds ((s.step text creds m).calls t) := by
  by_cases ht : t = m.t
  · subst ht
    apply step_rule (P := fun s' => Explained text creds (s'.calls m.t))
    case same => exact h
    case hit | rehit =>
      intro _ hvalid
      simp only [goto,Function.update_self]
      refine h.goes rfl ?_ (by simp)
      intro token htoken
      cases htoken
      exact obtains_of_valid hvalid
    case miss | acquire | ask | drop =>
      intros
      simp only [goto,note,Function.update_self]
      exact h.goes rfl (by simp) (by simp)
    case missing =>
      intro _ hcreds
      simp only [goto,Function.update_self]
      exact h.last rfl rfl (.inl (obtains_missing hcreds).ends_of_error)
    case issue =>
      intro token c _ hgot
      simp only [goto,note,Function.update_self]
      refine h.goes rfl ?_ (by simp)
      intro token' htoken
      cases htoken
      exact obtains_of_reply hgot
    case fail =>
      intro e c _ hgot
      simp only [goto,note,Function.update_self]
      exact h.last rfl rfl (.inl (obtains_of_reply hgot).ends_of_error)
    case noRequest =>
      intro token e hpc hreply
      simp only [goto,Function.update_self]
      exact h.last rfl rfl (.inl ((h.obtains token hpc).ends (.noRequest e)))
    case answer =>
      intro token exit hpc _ hexit
      simp only [goto,note,Function.update_self]
      exact h.last rfl rfl (.inl (hexit ▸ (h.obtains token hpc).ends m.reply))
    case unauthorized =>
      intro token hpc hexit hretried
      simp only [goto,note,Function.update_self]
      have hends := (h.obtains token hpc).ends m.reply
      rw [hexit] at hends
      exact h.last rfl rfl (.inr ⟨hretried,rfl,hends⟩)
    case refuse =>
      intro token hpc hexit _
      simp only [note,Function.update_self]
      have hends := (h.obtains token hpc).ends m.reply
      rw [hexit] at hends
      exact ⟨fun _ => hends,by simp,by simp⟩
  · rw [(step_other s text creds ht).1]
    exact h

variable (text creds) (moves : List (Move τ))

theorem run_renewed : (run text creds moves).Renewed := by
  apply foldl_invariant
  · exact ⟨fun _ _ h => (nomatch h),trivial⟩
  · intro before m after _ h
    exact step_renewed (run_kept text creds before) h m

theorem run_scripted (t : τ) : (run text creds moves).Scripted t := by
  apply foldl_invariant (I := (Scripted · t))
  · exact ⟨⟨"","",rfl⟩,fun h => (nomatch h)⟩
  · intro before m after _ h
    exact step_scripted h m

theorem run_explained (t : τ) : Explained text creds ((run text creds moves).calls t) := by
  apply foldl_invariant (I := fun s : Shared τ => Explained text creds (s.calls t))
  · exact ⟨fun h => (nomatch h),fun _ h => (nomatch h),fun _ h => (nomatch h)⟩
  · intro before m after _ h
    exact step_explained h m

theorem progress_bound (call : Call) :
    call.progress ≤ 5 ∧ (call.progress = 5 ↔ call.pc = .done .unauthorized) := by
  obtain ⟨pc,retried⟩ := call
  cases pc with
  | done exit => cases exit <;> cases retried <;> simp [Call.progress]
  | _ => cases retried <;> simp [Call.progress]

/-- In every interleaving a call sends at most two requests to the API. The second one is sent only
after the first was answered with status 401 and the token dropped, and every token that is sent was
asked for and issued since then, or since the start. A call returns that it is unauthorized exactly
when the second request was refused too, and returns nothing that it would not return alone. -/
theorem refused_token_renewed (t : τ) :
    (∃ token token', (run text creds moves).log.filter (Entry.ownBy t) <+: script t token token') ∧
    (((run text creds moves).calls t).pc = .done .unauthorized ↔
      ((run text creds moves).log.filter (Entry.ownBy t)).length = 5) ∧
    (∀ before between token after,
      (run text creds moves).log = before ++ between ++ .sent t token :: after →
      Entry.Begins t before →
      ∃ u now c, c.accessToken = token ∧ [.asked u now,.issued u c].Sublist between) ∧
    ∀ exit, ((run text creds moves).calls t).pc = .done exit → ∃ first second,
      (callLoop text creds first second ⟨"",0⟩).1 = exit := by
  obtain ⟨⟨token,token',hown⟩,_⟩ := run_scripted text creds moves t
  refine ⟨⟨token,token',?_⟩,?_,?_,(run_explained text creds moves t).done⟩
  · rw [hown]
    exact List.take_prefix _ _
  · obtain ⟨hle,hfive⟩ := progress_bound ((run text creds moves).calls t)
    rw [hown,List.length_take,← hfive]
    simp only [script,List.length_cons,List.length_nil]
    omega
  · intro before between token after hsplit hbegins
    have hsound := along_iff.mp (run_renewed text creds moves).sent _ _ _ hsplit
    rw [foldl_snoc,List.nil_append] at hsound
    exact hsound before between rfl hbegins

end Shared
end ChainKit.Bitcoin.Blockstream
