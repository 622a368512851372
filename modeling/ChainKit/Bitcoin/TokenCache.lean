import ChainKit.Bitcoin.Blockstream
import ChainKit.Lib.Exclusive
import ChainKit.Lib.Schedule

/-! The access token under any number of calls of `callAPI` at a time. The first check is made under
the read lock, the second one and the request for a token under the write lock, and a token that the
API refuses is dropped under the write lock. -/
namespace ChainKit.Bitcoin.Blockstream
open Lib
variable {τ : Type}

inductive Pc
  | check
  | acquire
  | recheck
  | fetching
  | send (token : String)
  | drop
  | done (exit : Exit)
  deriving DecidableEq

structure Call where
  pc : Pc := .check
  retried : Bool := false
  deriving DecidableEq

/-- What goes over the wire, and what happens to the token. -/
inductive Entry (τ : Type)
  | asked (t : τ) (now : ℤ)
  | failed (t : τ)
  | issued (t : τ) (c : Cache)
  | sent (t : τ) (token : String)
  | unauthorized (t : τ)
  | dropped (t : τ)
  deriving DecidableEq

structure Shared (τ : Type) where
  cache : Cache := ⟨"",0⟩
  tokenMu : Option τ := none
  calls : τ → Call := fun _ => {}
  log : List (Entry τ) := []

/-- A goroutine takes its next step, at a time, with the replies that come if it asks for any. -/
structure Move (τ : Type) where
  t : τ
  now : ℤ
  tokenReply : TokenReply
  reply : ApiReply

/-- What `callAPI` returns at a reply; status 401 is left to the loop. -/
def ApiReply.exit : ApiReply → Option Exit
  | .noRequest e => some (.noRequest e)
  | .noResponse e => some (.noResponse e)
  | .response statusCode body readErr =>
    match statusCode with
    | 200 =>
      match readErr with
      | none => some (.ok body)
      | some e => some (.noBody e)
    | 401 => none
    | 404 => some .notFound
    | 429 => some .tooManyRequests
    | _ => some (.status statusCode body)

namespace Shared
variable [DecidableEq τ]

def goto (s : Shared τ) (t : τ) (pc : Pc) : Shared τ :=
  { s with calls := Function.update s.calls t { s.calls t with pc := pc } }

def note (s : Shared τ) (entries : List (Entry τ)) : Shared τ := { s with log := s.log ++ entries }

/-- The next step of a call. A request to the API and its answer are one step, for neither touches
what is shared; the locks are waited for by doing nothing. -/
def step (text : Bytes → String) (creds : Credentials) (s : Shared τ) (m : Move τ) : Shared τ :=
  match (s.calls m.t).pc with
  | .check =>
    if s.tokenMu ≠ none then s
    else s.goto m.t (if s.cache.valid m.now then .send s.cache.accessToken else .acquire)
  | .acquire =>
    if s.tokenMu ≠ none then s
    else { s.goto m.t .recheck with tokenMu := some m.t }
  | .recheck =>
    if s.cache.valid m.now then { s.goto m.t (.send s.cache.accessToken) with tokenMu := none }
    else if creds.clientID = "" ∨ creds.clientSecret = "" then
      { s.goto m.t (.done (.noToken (.plain "missing API client ID or secret"))) with
        tokenMu := none }
    else (s.goto m.t .fetching).note [.asked m.t m.now]
  | .fetching =>
    -- behind the second check, which an empty token fails
    match getAccessToken text creds ⟨m.now,id,m.now,m.tokenReply,m.now⟩ ⟨"",0⟩ with
    | (.ok token,c) =>
      { (s.goto m.t (.send token)).note [.issued m.t c] with tokenMu := none, cache := c }
    | (.error e,_) =>
      { (s.goto m.t (.done (.noToken e))).note [.failed m.t] with tokenMu := none }
  | .send token =>
    match m.reply with
    | .noRequest e => s.goto m.t (.done (.noRequest e))
    | reply =>
      match reply.exit with
      | some exit => (s.goto m.t (.done exit)).note [.sent m.t token]
      | none =>
        if (s.calls m.t).retried then
          (s.goto m.t (.done .unauthorized)).note [.sent m.t token,.unauthorized m.t]
        else
          { s with calls := Function.update s.calls m.t ⟨.drop,true⟩ }.note
            [.sent m.t token,.unauthorized m.t]
  | .drop =>
    if s.tokenMu ≠ none then s
    else { (s.goto m.t .check).note [.dropped m.t] with
      cache := { s.cache with accessToken := "" } }
  | .done _ => s

def run (text : Bytes → String) (creds : Credentials) (moves : List (Move τ)) : Shared τ :=
  moves.foldl (step text creds) {}

variable {text : Bytes → String} {creds : Credentials} {s : Shared τ}

theorem step_rule {P : Shared τ → Prop} (m : Move τ) (same : P s)
    (hit : (s.calls m.t).pc = .check → s.cache.valid m.now = true →
      P (s.goto m.t (.send s.cache.accessToken)))
    (miss : (s.calls m.t).pc = .check → P (s.goto m.t .acquire))
    (acquire : (s.calls m.t).pc = .acquire → s.tokenMu = none →
      P { s.goto m.t .recheck with tokenMu := some m.t })
    (rehit : (s.calls m.t).pc = .recheck → s.cache.valid m.now = true →
      P { s.goto m.t (.send s.cache.accessToken) with tokenMu := none })
    (missing : (s.calls m.t).pc = .recheck → creds.clientID = "" ∨ creds.clientSecret = "" →
      P { s.goto m.t (.done (.noToken (.plain "missing API client ID or secret"))) with
        tokenMu := none })
    (ask : (s.calls m.t).pc = .recheck → s.cache.valid m.now = false →
      P ((s.goto m.t .fetching).note [.asked m.t m.now]))
    (issue : ∀ token c, (s.calls m.t).pc = .fetching →
      getAccessToken text creds ⟨m.now,id,m.now,m.tokenReply,m.now⟩ ⟨"",0⟩ = (.ok token,c) →
      P { (s.goto m.t (.send token)).note [.issued m.t c] with tokenMu := none, cache := c })
    (fail : ∀ e c, (s.calls m.t).pc = .fetching →
      getAccessToken text creds ⟨m.now,id,m.now,m.tokenReply,m.now⟩ ⟨"",0⟩ = (.error e,c) →
      P { (s.goto m.t (.done (.noToken e))).note [.failed m.t] with tokenMu := none })
    (noRequest : ∀ token e, (s.calls m.t).pc = .send token → m.reply = .noRequest e →
      P (s.goto m.t (.done (.noRequest e))))
    (answer : ∀ token exit, (s.calls m.t).pc = .send token → (∀ e, m.reply ≠ .noRequest e) →
      m.reply.exit = some exit → P ((s.goto m.t (.done exit)).note [.sent m.t token]))
    (unauthorized : ∀ token, (s.calls m.t).pc = .send token → m.reply.exit = none →
      (s.calls m.t).retried = true →
      P ((s.goto m.t (.done .unauthorized)).note [.sent m.t token,.unauthorized m.t]))
    (refuse : ∀ token, (s.calls m.t).pc = .send token → m.reply.exit = none →
      (s.calls m.t).retried = false →
      P ({ s with calls := Function.update s.calls m.t ⟨.drop,true⟩ }.note
        [.sent m.t token,.unauthorized m.t]))
    (drop : (s.calls m.t).pc = .drop → s.tokenMu = none →
      P { (s.goto m.t .check).note [.dropped m.t] with
        cache := { s.cache with accessToken := "" } }) :
    P (s.step text creds m) := by
  unfold step
  cases hpc : (s.calls m.t).pc with
  | check =>
    simp only
    split_ifs with hmu hvalid
    · exact same
    · exact hit hpc hvalid
    · exact miss hpc
  | acquire =>
    simp only
    split_ifs with hmu
    · exact same
    · exact acquire hpc (not_not.mp hmu)
  | recheck =>
    simp only
    split_ifs with hvalid hcreds
    · exact rehit hpc hvalid
    · exact missing hpc hcreds
    · exact ask hpc (by simpa using hvalid)
  | fetching =>
    simp only
    split
    next token c hgot => exact issue token c hpc hgot
    next e c hgot => exact fail e c hpc hgot
  | send token =>
    simp only
    split
    next e hreply => exact noRequest token e hpc hreply
    next hreply =>
      split
      next exit hexit => exact answer token exit hpc hreply hexit
      next hexit =>
        split_ifs with hretried
        · exact unauthorized token hpc hexit hretried
        · exact refuse token hpc hexit (by simpa using hretried)
  | drop =>
    simp only
    split_ifs with hmu
    · exact same
    · exact drop hpc (not_not.mp hmu)
  | done exit => exact same

end Shared

/-- The token that counts, and the call that is asking for one. -/
structure Ledger (τ : Type) where
  cache : Cache := ⟨"",0⟩
  fetching : Option τ := none

namespace Ledger

def note (l : Ledger τ) : Entry τ → Ledger τ
  | .asked t _ => { l with fetching := some t }
  | .failed _ => { l with fetching := none }
  | .issued _ c => ⟨c,none⟩
  | .dropped _ => { l with cache := { l.cache with accessToken := "" } }
  | .sent _ _ => l
  | .unauthorized _ => l

/-- A token is asked for only while there is no valid one, and while it is, nobody else asks for one
or drops one. -/
def Allows (l : Ledger τ) : Entry τ → Prop
  | .asked _ now => l.fetching = none ∧ l.cache.valid now = false
  | .failed t => l.fetching = some t
  | .issued t _ => l.fetching = some t
  | .dropped _ => l.fetching = none
  | .sent _ _ => True
  | .unauthorized _ => True

def of (log : List (Entry τ)) : Ledger τ := log.foldl note {}

@[simp] theorem of_append (log entries : List (Entry τ)) :
    of (log ++ entries) = entries.foldl note (of log) := List.foldl_append

end Ledger

/-- A token that is there after a stretch of the log which begins without one was asked for and
issued in it. -/
theorem Ledger.issued_of_token {l : Ledger τ} {between : List (Entry τ)}
    (h : Along note Allows l between) (hidle : l.fetching = none)
    (hempty : l.cache.accessToken = "") :
    (∀ u, (between.foldl note l).fetching = some u → ∃ now, .asked u now ∈ between) ∧
    ((between.foldl note l).cache.accessToken ≠ "" → ∃ u now,
      [.asked u now,.issued u (between.foldl note l).cache].Sublist between) := by
  induction between using List.reverseRecOn with
  | nil =>
    refine ⟨?_,fun htoken => absurd hempty htoken⟩
    intro u hu
    rw [List.foldl_nil,hidle] at hu
    cases hu
  | append_singleton between e ih =>
    obtain ⟨hbetween,hallows,_⟩ := along_append.mp h
    obtain ⟨hasked,hissued⟩ := ih hbetween
    have hleft := List.sublist_append_left between [e]
    -- what was in the log before is still there
    have hasked' : ∀ u, (between.foldl note l).fetching = some u →
        ∃ now, .asked u now ∈ between ++ [e] :=
      fun u hu => (hasked u hu).imp fun _ h => hleft.subset h
    have hissued' : (between.foldl note l).cache.accessToken ≠ "" → ∃ u now,
        [.asked u now,.issued u (between.foldl note l).cache].Sublist (between ++ [e]) := by
      intro htoken
      obtain ⟨u,now,hsub⟩ := hissued htoken
      exact ⟨u,now,hsub.trans hleft⟩
    rw [List.foldl_append]
    simp only [List.foldl_cons,List.foldl_nil]
    cases e with
    | asked t now =>
      refine ⟨?_,hissued'⟩
      intro u hu
      obtain rfl := Option.some.inj hu
      exact ⟨now,List.mem_append_right _ List.mem_cons_self⟩
    | failed t => exact ⟨fun u hu => (nomatch hu),hissued'⟩
    | issued t c =>
      refine ⟨fun u hu => (nomatch hu),?_⟩
      intro _
      obtain ⟨now,hmem⟩ := hasked t hallows
      exact ⟨t,now,(List.singleton_sublist.mpr hmem).append (List.Sublist.refl [_])⟩
    | dropped t => exact ⟨hasked',fun htoken => absurd rfl htoken⟩
    | sent | unauthorized => exact ⟨hasked',hissued'⟩

def Entry.Quiet : Entry τ → Prop
  | .sent _ _ => True
  | .unauthorized _ => True
  | _ => False

def Allowed (log : List (Entry τ)) : Prop := Along Ledger.note Ledger.Allows {} log

theorem allowed_append {log entries : List (Entry τ)} : Allowed (log ++ entries) ↔
    Allowed log ∧ Along Ledger.note Ledger.Allows (Ledger.of log) entries := along_append

theorem quiet_append (log : List (Entry τ)) {entries : List (Entry τ)}
    (h : ∀ e ∈ entries, e.Quiet) :
    Ledger.of (log ++ entries) = Ledger.of log ∧ (Allowed log → Allowed (log ++ entries)) := by
  induction entries generalizing log with
  | nil => simp
  | cons e entries ih =>
    have hquiet := h e List.mem_cons_self
    obtain ⟨hof,hallowed⟩ := ih (log ++ [e]) (fun e' he' => h e' (List.mem_cons_of_mem e he'))
    rw [List.append_cons]
    have hone : Ledger.of (log ++ [e]) = Ledger.of log ∧ (Allowed log → Allowed (log ++ [e])) := by
      rw [Ledger.of_append,allowed_append]
      cases e with
      | sent | unauthorized => exact ⟨rfl,fun hlog => ⟨hlog,trivial,trivial⟩⟩
      | _ => exact hquiet.elim
    exact ⟨hof.trans hone.1,fun hlog => hallowed (hone.2 hlog)⟩

def Pc.Locked : Pc → Prop
  | .recheck => True
  | .fetching => True
  | _ => False

namespace Shared
variable [DecidableEq τ] {text : Bytes → String} {creds : Credentials} {s : Shared τ}

/-- The ledger of the log is the state of the cache and its lock. -/
structure Kept (s : Shared τ) : Prop where
  locked : Owned (fun c : Call => c.pc.Locked) s.calls s.tokenMu
  cache : (Ledger.of s.log).cache = s.cache
  fetching : Owned (fun c : Call => c.pc = .fetching) s.calls (Ledger.of s.log).fetching
  allowed : Allowed s.log

omit [DecidableEq τ] in
theorem Kept.idle (h : s.Kept) (hmu : s.tokenMu = none) : (Ledger.of s.log).fetching = none := by
  have hlocked := h.locked
  rw [hmu] at hlocked
  apply hlocked.eq_none _ h.fetching
  intro c hc
  rw [hc]
  trivial

omit [DecidableEq τ] in
theorem note_nil (s : Shared τ) : s.note [] = s := by
  rw [note,List.append_nil]

theorem Kept.unlocked (h : s.Kept) {t : τ} {c : Call} {entries : List (Entry τ)}
    (ht : ¬(s.calls t).pc.Locked) (hc : ¬c.pc.Locked) (hentries : ∀ e ∈ entries, e.Quiet) :
    ({ s with calls := Function.update s.calls t c }.note entries).Kept := by
  obtain ⟨hof,hallowed⟩ := quiet_append s.log hentries
  have hfetching : ∀ {pc : Pc}, ¬pc.Locked → pc ≠ .fetching := by
    rintro pc hpc rfl
    exact hpc trivial
  refine ⟨h.locked.same (iff_of_false hc ht),?_,?_,hallowed h.allowed⟩
  · exact (congrArg Ledger.cache hof).trans h.cache
  · have hsame := h.fetching.same (a := c) (iff_of_false (hfetching hc) (hfetching ht))
    rw [← hof] at hsame
    exact hsame

theorem Kept.released (h : s.Kept) {t : τ} {pc : Pc} (ht : (s.calls t).pc = .recheck)
    (hpc : ¬pc.Locked) : ({ s.goto t pc with tokenMu := none } : Shared τ).Kept := by
  refine ⟨h.locked.release ?_ hpc,h.cache,h.fetching.same ?_,h.allowed⟩
  · rw [ht]
    trivial
  · rw [ht]
    refine iff_of_false ?_ (by decide)
    rintro rfl
    exact hpc trivial

omit [DecidableEq τ] in
/-- While a call has the lock and does not ask for a token, nobody does. -/
theorem Kept.idle_of_recheck (h : s.Kept) {t : τ} (ht : (s.calls t).pc = .recheck) :
    (Ledger.of s.log).fetching = none := by
  have howner := (h.locked t).mp (by simp only [ht]; trivial)
  rw [Option.eq_none_iff_forall_ne_some]
  intro u hu
  have hpc : (s.calls u).pc = .fetching := (h.fetching u).mpr hu
  have hut := (h.locked u).mp (by simp only [hpc]; trivial)
  rw [howner] at hut
  obtain rfl := Option.some.inj hut
  rw [ht] at hpc
  cases hpc

theorem step_kept (h : s.Kept) (m : Move τ) : (s.step text creds m).Kept := by
  have hnone : ∀ e ∈ ([] : List (Entry τ)), e.Quiet := fun _ he => nomatch he
  apply step_rule
  case same => exact h
  case hit | miss =>
    intro hpc
    intros
    rw [← note_nil (s.goto m.t _)]
    exact h.unlocked (by rw [hpc]; exact id) id hnone
  case acquire =>
    intro hpc hmu
    have hlocked := h.locked
    rw [hmu] at hlocked
    refine ⟨hlocked.acquire trivial,h.cache,h.fetching.same ?_,h.allowed⟩
    simp [hpc]
  case rehit | missing =>
    intro hpc _
    exact h.released hpc id
  case ask =>
    intro hpc hvalid
    have hidle := h.idle_of_recheck hpc
    refine ⟨h.locked.same ?_,?_,?_,?_⟩
    · simp [hpc,Pc.Locked]
    · rw [note,Ledger.of_append]
      exact h.cache
    · have hfetching := h.fetching
      rw [hidle] at hfetching
      rw [note,Ledger.of_append]
      exact hfetching.acquire rfl
    · refine allowed_append.mpr ⟨h.allowed,⟨hidle,?_⟩,trivial⟩
      have hcache : (Ledger.of s.log).cache.valid m.now = false := by rw [h.cache,hvalid]
      exact hcache
  case issue | fail =>
    intro _ _ hpc _
    have howner := (h.fetching m.t).mp hpc
    refine ⟨h.locked.release ?_ id,?_,?_,?_⟩
    · rw [hpc]
      trivial
    · rw [note,Ledger.of_append]
      first | rfl | exact h.cache
    · rw [note,Ledger.of_append]
      exact h.fetching.release hpc (by simp)
    · exact allowed_append.mpr ⟨h.allowed,howner,trivial⟩
  case noRequest =>
    intro token e hpc _
    rw [← note_nil (s.goto m.t _)]
    exact h.unlocked (by rw [hpc]; exact id) id hnone
  case answer =>
    intro token exit hpc _ _
    apply h.unlocked (by rw [hpc]; exact id) id
    simp [Entry.Quiet]
  case unauthorized | refuse =>
    intro token hpc _ _
    apply h.unlocked (by rw [hpc]; exact id) id
    simp [Entry.Quiet]
  case drop =>
    intro hpc hmu
    have hidle := h.idle hmu
    refine ⟨h.locked.same ?_,?_,?_,?_⟩
    · simp [hpc,Pc.Locked]
    · rw [note,Ledger.of_append]
      exact congrArg (fun c : Cache => { c with accessToken := "" }) h.cache
    · have hsame := h.fetching.same (t := m.t) (a := { s.calls m.t with pc := .check })
        (by simp [hpc])
      rw [note,Ledger.of_append]
      exact hsame
    · exact allowed_append.mpr ⟨h.allowed,hidle,trivial⟩

/-- A call that is not done can go on, or the one that has the lock can. -/
theorem Kept.live (h : s.Kept) {t : τ} (ht : ∀ exit, (s.calls t).pc ≠ .done exit) :
    ∃ u, ∀ m : Move τ, m.t = u → ((s.step text creds m).calls u).pc ≠ (s.calls u).pc := by
  cases hmu : s.tokenMu with
  | some u =>
    refine ⟨u,?_⟩
    rintro m rfl
    have hlocked : (s.calls m.t).pc.Locked := (h.locked m.t).mpr hmu
    cases hpc : (s.calls m.t).pc with
    | recheck =>
      simp only [step,hpc]
      split_ifs <;> simp [goto,note]
    | fetching =>
      simp only [step,hpc]
      split <;> simp [goto,note]
    | _ =>
      rw [hpc] at hlocked
      exact hlocked.elim
  | none =>
    refine ⟨t,?_⟩
    rintro m rfl
    have hunlocked : ¬(s.calls m.t).pc.Locked := by
      intro hlocked
      have howner := (h.locked m.t).mp hlocked
      rw [hmu] at howner
      cases howner
    cases hpc : (s.calls m.t).pc with
    | check =>
      simp only [step,hpc,hmu]
      split_ifs <;> simp_all [goto]
    | acquire => simp [step,hpc,hmu,goto]
    | send token =>
      simp only [step,hpc]
      split
      · simp [goto]
      · split
        · simp [goto,note]
        · split_ifs <;> simp [goto,note]
    | drop => simp [step,hpc,hmu,goto,note]
    | done exit => exact absurd hpc (ht exit)
    | _ =>
      rw [hpc] at hunlocked
      exact absurd trivial hunlocked

variable (text creds) (moves : List (Move τ))

theorem run_kept : (run text creds moves).Kept := by
  apply foldl_invariant
  · refine ⟨?_,rfl,?_,trivial⟩
    · intro t
      exact iff_of_false id (by simp)
    · intro t
      exact iff_of_false Pc.noConfusion (by simp [Ledger.of])
  · intro before m after _ h
    exact step_kept h m

/-- In every interleaving a token is asked for only while the last one that was issued has expired
or has been dropped, only one at a time, and while it is asked for nobody drops one; the token in
memory is the last one that was issued, unless it was dropped since. Some call can always go on
until all are done. -/
theorem token_asked_when_needed :
    (∀ before e after, (run text creds moves).log = before ++ e :: after →
      (Ledger.of before).Allows e) ∧
    (run text creds moves).cache = (Ledger.of (run text creds moves).log).cache ∧
    (∀ t, ((run text creds moves).calls t).pc = .fetching ↔
      (Ledger.of (run text creds moves).log).fetching = some t) ∧
    ∀ t, (∀ exit, ((run text creds moves).calls t).pc ≠ .done exit) →
      ∃ u, ∀ m : Move τ, m.t = u →
        (((run text creds moves).step text creds m).calls u).pc ≠
          ((run text creds moves).calls u).pc := by
  have h := run_kept text creds moves
  refine ⟨?_,h.cache.symm,h.fetching,?_⟩
  · exact along_iff.mp h.allowed
  · intro t ht
    exact h.live ht

end Shared
end ChainKit.Bitcoin.Blockstream
