import ChainKit.Lib.Schedule
import ChainKit.Scoring.Store.Hybrid

/-! Concurrent calls on one hybrid store whose two stores never fail and whose cache writes are
not left to goroutines. Each call of a store and each access to the freshness map is one step; a
schedule says whose step is next. -/
namespace ChainKit.Store
open Lib HybridStore
variable {τ α : Type}

inductive Call (α : Type)
  | get (name : String)
  | set (data : ProviderScoreData α)
  | delete (name : String)

/-- Where a call is, named by what comes next or by what was done last: `GetScore` checks the
freshness, reads the cache, reads the primary store, populates the cache and marks; `SetScore`
writes the primary store and then treats the cache as its mode says; `DeleteScore` removes the
entry from the primary store and from the cache, then the mark. What was read for a name is
under that name. -/
inductive Pc (α : Type)
  | idle
  | check (name : String)
  | cacheRead (name : String)
  | primaryRead (name : String)
  | populate (name : String) (data : ProviderScoreData α) (hname : data.name = name)
  | populated (name : String) (data : ProviderScoreData α) (hname : data.name = name)
  | write (data : ProviderScoreData α)
  | written (data : ProviderScoreData α)
  | through (data : ProviderScoreData α)
  | invalidated (data : ProviderScoreData α)
  | remove (name : String)
  | removed (name : String)
  | dropped (name : String)

def Call.start : Call α → Pc α
  | .get name => .check name
  | .set data => .write data
  | .delete name => .remove name

namespace Pc

/-- One step of a call at a time, with what it does to the store. -/
def next (now : ℤ) (h : HybridStore α) : Pc α → Pc α × HybridStore α
  | .idle => (.idle,h)
  | .check name => (if h.isCacheFresh now name then .cacheRead name else .primaryRead name,h)
  | .cacheRead name => (if (h.cache.get name).isSome then .idle else .primaryRead name,h)
  | .primaryRead name =>
    match hdata : h.primary.get name with
    | some data => (.populate name data (KeyedMap.key_of_get hdata),h)
    | none => (.idle,h)
  | .populate name data hname => (.populated name data hname,h.cacheSet none [data])
  | .populated name _ _ => (.idle,h.markCacheFresh now name)
  | .write data => (.written data,{ h with primary := h.primary.set data })
  | .written data =>
    if h.config.invalidateOnWrite then (.invalidated data,h.invalidateCache data.name)
    else if h.config.writeThrough then (.through data,h.cacheSet none [data])
    else (.idle,h.invalidateCache data.name)
  | .through data => (.idle,h.markCacheFresh now data.name)
  | .invalidated data => (.idle,h.cacheDelete none data.name)
  | .remove name => (.removed name,{ h with primary := h.primary.delete name })
  | .removed name => (.dropped name,h.cacheDelete none name)
  | .dropped name => (.idle,h.invalidateCache name)

/-- The answer of a `GetScore` that returns with its next step. -/
def answer (h : HybridStore α) : Pc α → Option (String × Option (ProviderScoreData α))
  | .cacheRead name => (h.cache.get name).map fun data => (name,some data)
  | .primaryRead name => if (h.primary.get name).isSome then none else some (name,none)
  | .populated name data _ => some (name,some data)
  | _ => none

def wrote : Pc α → Option (String × Option (ProviderScoreData α))
  | .write data => some (data.name,some data)
  | .remove name => some (name,none)
  | _ => none

def name : Pc α → Option String
  | .idle => none
  | .check name => some name
  | .cacheRead name => some name
  | .primaryRead name => some name
  | .populate name _ _ => some name
  | .populated name _ _ => some name
  | .write data => some data.name
  | .written data => some data.name
  | .through data => some data.name
  | .invalidated data => some data.name
  | .remove name => some name
  | .removed name => some name
  | .dropped name => some name

/-- The call holds a value that it still has to put into the cache or to mark. -/
def Holds (config : HybridConfig) : Pc α → Prop
  | .populate _ _ _ => True
  | .populated _ _ _ => True
  | .written _ => config.invalidateOnWrite = false ∧ config.writeThrough = true
  | .through _ => True
  | _ => False

instance (config : HybridConfig) : (pc : Pc α) → Decidable (pc.Holds config)
  | .populate _ _ _ => .isTrue trivial
  | .populated _ _ _ => .isTrue trivial
  | .written _ =>
    inferInstanceAs (Decidable (config.invalidateOnWrite = false ∧ config.writeThrough = true))
  | .through _ => .isTrue trivial
  | .idle => .isFalse id
  | .check _ => .isFalse id
  | .cacheRead _ => .isFalse id
  | .primaryRead _ => .isFalse id
  | .write _ => .isFalse id
  | .invalidated _ => .isFalse id
  | .remove _ => .isFalse id
  | .removed _ => .isFalse id
  | .dropped _ => .isFalse id

end Pc

structure Sys (τ α : Type) where
  store : HybridStore α
  threads : τ → Pc α

/-- A thread without a call makes one, or a thread takes a step at a time. -/
inductive Label (τ α : Type)
  | call (t : τ) (c : Call α)
  | step (t : τ) (now : ℤ)

namespace Sys
variable [DecidableEq τ]

def step (s : Sys τ α) : Label τ α → Sys τ α
  | .call t c =>
    match s.threads t with
    | .idle => { s with threads := Function.update s.threads t c.start }
    | _ => s
  | .step t now =>
    let r := (s.threads t).next now s.store
    { store := r.2, threads := Function.update s.threads t r.1 }

def run (s : Sys τ α) (schedule : List (Label τ α)) : Sys τ α := schedule.foldl step s

/-- What a step of a thread writes to the primary store. -/
def wrote (s : Sys τ α) : Label τ α → Option (String × Option (ProviderScoreData α))
  | .call _ _ => none
  | .step t _ => (s.threads t).wrote

/-- The answers that calls of `GetScore` return with, each with its thread. -/
def answer (s : Sys τ α) : Label τ α → Option (τ × String × Option (ProviderScoreData α))
  | .call _ _ => none
  | .step t _ => ((s.threads t).answer s.store).map (t,·)

def start (h : HybridStore α) : Sys τ α := ⟨h,fun _ => .idle⟩

def Quiescent (s : Sys τ α) : Prop := ∀ t, s.threads t = .idle

/-- The primary store is written for a name only while no call holds a value for that name. -/
def Exclusive (s : Sys τ α) (l : Label τ α) : Prop :=
  ∀ w, s.wrote l = some w →
    ∀ u, (s.threads u).name = some w.1 → ¬(s.threads u).Holds s.store.config

instance [Fintype τ] (s : Sys τ α) (l : Label τ α) : Decidable (s.Exclusive l) :=
  inferInstanceAs (Decidable (∀ w ∈ s.wrote l,
    ∀ u, (s.threads u).name = some w.1 → ¬(s.threads u).Holds s.store.config))

end Sys

/-- The next step of a call when no other call comes in between. -/
def Pc.alone (x : Pc α × HybridStore α) (now : ℤ) : Pc α × HybridStore α := x.1.next now x.2

theorem Sys.run_alone [DecidableEq τ] (s : Sys τ α) (t : τ) (times : List ℤ) :
    s.run (times.map (.step t ·)) =
      { store := (times.foldl Pc.alone (s.threads t,s.store)).2
        threads := Function.update s.threads t
          (times.foldl Pc.alone (s.threads t,s.store)).1 } ∧
    observe Sys.step Sys.answer s (times.map (.step t ·)) =
      (observe Pc.alone (fun x _ => x.1.answer x.2) (s.threads t,s.store) times).map (t,·) := by
  induction times generalizing s with
  | nil => simp [Sys.run,observe]
  | cons now rest ih =>
    obtain ⟨hrun,hanswers⟩ := ih (s.step (.step t now))
    have hthread : (s.step (.step t now)).threads t = ((s.threads t).next now s.store).1 :=
      Function.update_self ..
    rw [hthread] at hrun hanswers
    constructor
    · rw [List.map_cons,Sys.run,List.foldl_cons]
      refine hrun.trans ?_
      simp [Sys.step,Pc.alone]
    · rw [List.map_cons,observe,hanswers,observe,List.map_append]
      congr 1
      simp only [Sys.answer]
      cases (s.threads t).answer s.store <;> rfl

def Call.op : Call α → Op α
  | .get name => .getScore name
  | .set data => .setScore (some data)
  | .delete name => .deleteScore name

/-- What a call of `GetScore` answers when nothing fails. -/
def Call.answers (h : HybridStore α) (env : Env) :
    Call α → List (String × Option (ProviderScoreData α))
  | .get name => ((h.getScore env name).1.toOption.map (name,·)).toList
  | _ => []

theorem Pc.alone_primaryRead (h : HybridStore α) (now : ℤ) (name : String) : ∃ times : List ℤ,
    times.foldl alone (.primaryRead name,h) =
      (.idle,match h.primary.get name with
        | some data => (h.cacheSet none [data]).markCacheFresh now name
        | none => h) ∧
    observe alone (fun x _ => x.1.answer x.2) (.primaryRead name,h) times =
      [(name,h.primary.get name)] := by
  cases hdata : h.primary.get name with
  | some data =>
    have hread : alone (.primaryRead name,h) now =
        (.populate name data (KeyedMap.key_of_get hdata),h) := by
      simp only [alone,next]
      split
      · rename_i other hother
        obtain rfl := Option.some.inj (hdata.symm.trans hother)
        rfl
      · rename_i hnone
        rw [hdata] at hnone
        cases hnone
    refine ⟨[now,now,now],?_,?_⟩
    · rw [List.foldl_cons,hread]
      rfl
    · rw [observe,hread]
      simp only [answer,hdata,Option.isSome_some,if_true]
      rfl
  | none =>
    have hread : alone (.primaryRead name,h) now = (.idle,h) := by
      simp only [alone,next]
      split
      · rename_i other hother
        rw [hdata] at hother
        cases hother
      · rfl
    exact ⟨[now],hread,by simp [observe,answer,hdata]⟩

theorem Call.alone_eq {h : HybridStore α} (hsync : h.config.asyncWrite = false) (now : ℕ → ℤ)
    (c : Call α) : ∃ times : List ℤ,
      times.foldl Pc.alone (c.start,h) = (.idle,h.exec (c.op,⟨none,fun _ => none,now⟩)) ∧
      observe Pc.alone (fun x _ => x.1.answer x.2) (c.start,h) times =
        c.answers h ⟨none,fun _ => none,now⟩ := by
  cases c with
  | get name =>
    obtain ⟨times,hrun,hanswer⟩ := Pc.alone_primaryRead h (now 1) name
    -- The calls that miss go on in the same way, with or without a look at the cache.
    have hmiss (hhit : h.cacheHit ⟨none,fun _ => none,now⟩ name = none) :
        times.foldl Pc.alone (.primaryRead name,h) =
          (.idle,h.exec ((Call.get name).op,⟨none,fun _ => none,now⟩)) ∧
        observe Pc.alone (fun x _ => x.1.answer x.2) (.primaryRead name,h) times =
          (Call.get name).answers h ⟨none,fun _ => none,now⟩ := by
      rw [hrun,hanswer]
      simp only [op,exec,answers,getScore,hhit,cacheWrite,hsync,Bool.false_eq_true,if_false]
      cases h.primary.get name <;> exact ⟨rfl,rfl⟩
    by_cases hfresh : h.isCacheFresh (now 0) name = true
    · cases hcopy : h.cache.get name with
      | some data =>
        refine ⟨[now 0,now 0],?_⟩
        simp [start,op,answers,observe,Pc.alone,Pc.next,Pc.answer,exec,getScore,cacheHit,cacheGet,
          hfresh,hcopy,Except.toOption]
      | none =>
        obtain ⟨hstate,hanswers⟩ := hmiss (by simp [cacheHit,cacheGet,hcopy])
        refine ⟨now 0 :: now 0 :: times,?_,?_⟩
        · simpa [start,Pc.alone,Pc.next,hfresh,hcopy] using hstate
        · simpa [start,observe,Pc.alone,Pc.next,Pc.answer,hfresh,hcopy] using hanswers
    · obtain ⟨hstate,hanswers⟩ := hmiss (by simp [cacheHit,hfresh])
      refine ⟨now 0 :: times,?_,?_⟩
      · simpa [start,Pc.alone,Pc.next,hfresh] using hstate
      · simpa [start,observe,Pc.alone,Pc.next,Pc.answer,hfresh] using hanswers
  | set data =>
    refine ⟨[now 0,now 0,now 0],?_⟩
    cases hinvalidate : h.config.invalidateOnWrite <;> cases hthrough : h.config.writeThrough <;>
      simp [start,op,answers,observe,Pc.alone,Pc.next,Pc.answer,exec,setScore,cacheWrite,hsync,
        hinvalidate,hthrough]
  | delete name =>
    refine ⟨[now 0,now 0,now 0],?_⟩
    simp [start,op,answers,observe,Pc.alone,Pc.next,Pc.answer,exec,deleteScore]

/-- A call that no other call disturbs is the operation of the sequential store. -/
theorem Sys.run_call [DecidableEq τ] {s : Sys τ α} {t : τ} (hidle : s.threads t = .idle)
    (hsync : s.store.config.asyncWrite = false) (now : ℕ → ℤ) (c : Call α) : ∃ times : List ℤ,
      s.run (.call t c :: times.map (.step t ·)) =
        { s with store := s.store.exec (c.op,⟨none,fun _ => none,now⟩) } ∧
      observe step answer s (.call t c :: times.map (.step t ·)) =
        (c.answers s.store ⟨none,fun _ => none,now⟩).map (t,·) := by
  have hcall : s.step (.call t c) = { s with threads := Function.update s.threads t c.start } := by
    simp [step,hidle]
  obtain ⟨times,hstate,hanswers⟩ := c.alone_eq hsync now
  obtain ⟨hrun,hobserve⟩ := run_alone (s.step (.call t c)) t times
  rw [hcall] at hrun hobserve
  simp only [Function.update_self,hstate,hanswers,Function.update_idem] at hrun hobserve
  refine ⟨times,?_,?_⟩
  · rw [run,List.foldl_cons,hcall]
    refine hrun.trans ?_
    rw [← hidle,Function.update_eq_self]
  · rw [observe,hcall]
    exact hobserve

end ChainKit.Store
