import ChainKit.Config
import ChainKit.Lib.Lease
import ChainKit.Lib.Schedule
import ChainKit.Lib.Text

/-! The lock of the Redis store: any number of calls of `Lock` and of the functions that they
return, on a server that runs one command or one script at a time. -/
namespace ChainKit.Store.Locking
open Lib

/-- Where a call of `Lock` stands. The function that it returns may run at any time, as often as
the caller likes; `released` says that it has. -/
inductive Status
  | ready
  | locked (deadline : Option ℕ) (released : Bool)
  | failed (e : GoError)

structure Call where
  providerName : String
  ttl : ℤ
  lockValue : Bytes
  status : Status

/-- The clock and the keys of the server, and the calls so far; a call is known by its number. -/
structure State where
  now : ℕ
  keys : String → Option (Lease Bytes ℕ)
  calls : List Call

/-- What becomes of a SET: the answer comes back, or the connection breaks after or before the
server has run it. -/
inductive Delivery
  | answered
  | lost (e : GoError)
  | unsent (e : GoError)

def Delivery.reached : Delivery → Bool
  | .unsent _ => false
  | _ => true

def redisNil : GoError := .plain "redis: nil"

/-- What `Result` returns for SET NX. -/
def Delivery.result (free : Bool) : Delivery → String × Option GoError
  | .answered => if free then ("OK",none) else ("",some redisNil)
  | .lost e => ("",some e)
  | .unsent e => ("",some e)

/-- The error of `Lock`. A broken connection has no result either, and so reads as a lock that is
held. -/
def lockError (providerName : String) (result : String) (err : Option GoError) : Option GoError :=
  if err = some redisNil ∨ result = "" then
    some (.plain ("lock already held for provider " ++ providerName))
  else err.map fun e => .wrap "redis set: " e ""

/-- `Lock` reads the clock, then sends its SET. `unlock` is a run of the script. -/
inductive Step
  | begin (providerName : String) (ttl unixNano : ℤ)
  | set (i : ℕ) (delivery : Delivery)
  | unlock (i : ℕ)
  | wait (t : ℕ)

-- The prefix of the keys, and for how long the server keeps a key that is set with a TTL.
variable (keyPrefix : String) (expiry : ℤ → Option ℕ)

def lockKey (providerName : String) : String := keyPrefix ++ "lock:" ++ providerName

namespace State

def free (s : State) (providerName : String) : Bool :=
  (current s.now (s.keys (lockKey keyPrefix providerName))).isNone

def begin (s : State) (providerName : String) (ttl unixNano : ℤ) : State :=
  { s with calls := s.calls ++ [⟨providerName,ttl,formatInt unixNano,.ready⟩] }

/-- The SET of a call that is ready. -/
def setNX (s : State) (i : ℕ) (c : Call) (delivery : Delivery) : State :=
  let free := s.free keyPrefix c.providerName
  let deadline := (expiry c.ttl).map (s.now + ·)
  { s with
    keys := if delivery.reached && free then
        Function.update s.keys (lockKey keyPrefix c.providerName) (some ⟨c.lockValue,deadline,i⟩)
      else s.keys
    calls := s.calls.set i { c with
      status :=
        match lockError c.providerName (delivery.result free).1 (delivery.result free).2 with
        | some e => .failed e
        | none => .locked deadline false } }

def unlock (s : State) (i : ℕ) (c : Call) (deadline : Option ℕ) : State :=
  let key := lockKey keyPrefix c.providerName
  { s with
    keys := Function.update s.keys key (giveBack s.now c.lockValue (s.keys key))
    calls := s.calls.set i { c with status := .locked deadline true } }

def step (s : State) : Step → State
  | .begin providerName ttl unixNano => s.begin providerName ttl unixNano
  | .set i delivery =>
    match s.calls[i]? with
    | some c =>
      match c.status with
      | .ready => s.setNX keyPrefix expiry i c delivery
      | _ => s
    | none => s
  | .unlock i =>
    match s.calls[i]? with
    | some c =>
      match c.status with
      | .locked deadline _ => s.unlock keyPrefix i c deadline
      | _ => s
    | none => s
  | .wait t => { s with now := s.now+t }

def start : State := ⟨0,fun _ => none,[]⟩

def run (steps : List Step) : State := steps.foldl (step keyPrefix expiry) start

end State

def readings (steps : List Step) : List ℤ :=
  steps.filterMap fun
    | .begin _ _ unixNano => some unixNano
    | _ => none

/-- The token by which a call knows its lock. -/
def Call.token (c : Call) : Option Bytes := some c.lockValue

/-- The deadline of a lock on the provider that has not been released. -/
def Call.granted (providerName : String) (c : Call) : Option (Option ℕ) :=
  match c.status with
  | .locked deadline false => if c.providerName = providerName then some deadline else none
  | _ => none

/-- The call has succeeded, and its lock on the provider has neither expired nor been released. -/
def Holds (s : State) (i : ℕ) (providerName : String) : Prop :=
  ∃ c deadline, s.calls[i]? = some c ∧ c.providerName = providerName ∧
    c.status = .locked deadline false ∧ unexpired deadline s.now = true

/-- What the calls on one provider share. -/
def State.cell (s : State) (providerName : String) : LeaseCell Bytes ℕ where
  now := s.now
  lease := s.keys (lockKey keyPrefix providerName)
  token i := s.calls[i]?.bind Call.token
  granted i := s.calls[i]?.bind (Call.granted providerName)

theorem holds_cell {s : State} {i : ℕ} {providerName : String} (h : Holds s i providerName) :
    (s.cell keyPrefix providerName).Holds i := by
  obtain ⟨c,deadline,hc,hname,hstatus,hlive⟩ := h
  refine ⟨deadline,?_,hlive⟩
  simp [State.cell,hc,Call.granted,hstatus,hname]

theorem lockKey_injective : Function.Injective (lockKey keyPrefix) := by
  intro a b h
  have hlist := congrArg String.toList h
  simp only [lockKey,String.toList_append,List.append_cancel_left_eq] at hlist
  exact String.toList_inj.mp hlist

section
variable {α β : Type}

theorem bind_set {l : List α} {i : ℕ} (hi : i < l.length) (a : α) (g : α → Option β) :
    (fun j : ℕ => (l.set i a)[j]?.bind g) =
      Function.update (fun j : ℕ => l[j]?.bind g) i (g a) := by
  funext j
  by_cases hj : j = i
  · subst hj
    simp [hi]
  · simp [hj,List.getElem?_set_ne (Ne.symm hj)]

theorem bind_concat (l : List α) (a : α) (g : α → Option β) :
    (fun j : ℕ => (l ++ [a])[j]?.bind g) =
      Function.update (fun j : ℕ => l[j]?.bind g) l.length (g a) := by
  funext j
  by_cases hj : j = l.length
  · simp [hj]
  · simp only [Function.update_of_ne hj]
    rcases Nat.lt_or_gt_of_ne hj with hlt | hgt
    · rw [List.getElem?_append_left hlt]
    · rw [List.getElem?_eq_none (by simp; omega),List.getElem?_eq_none (by omega)]

theorem bind_set_same {l : List α} {i : ℕ} {a a' : α} (ha : l[i]? = some a) (g : α → Option β)
    (hg : g a' = g a) : (fun j : ℕ => (l.set i a')[j]?.bind g) = fun j : ℕ => l[j]?.bind g := by
  have hi := (List.getElem?_eq_some_iff.mp ha).1
  rw [bind_set hi,hg]
  exact Function.update_eq_self_iff.mpr (by simp [ha])

end

section
variable {s : State} {i : ℕ} {c : Call} (providerName : String)

theorem move_begin (other : String) (ttl unixNano : ℤ)
    (hfresh : formatInt unixNano ∉ s.calls.map Call.lockValue) :
    (s.cell keyPrefix providerName).Move
      ((s.begin other ttl unixNano).cell keyPrefix providerName) := by
  have hcell : (s.begin other ttl unixNano).cell keyPrefix providerName =
      { s.cell keyPrefix providerName with
        token := Function.update (s.cell keyPrefix providerName).token s.calls.length
          (some (formatInt unixNano)) } := by
    simp only [State.cell,State.begin,bind_concat]
    congr 1
    exact Function.update_eq_self_iff.mpr (by simp [Call.granted])
  rw [hcell]
  refine .draw s.calls.length (formatInt unixNano) (by simp [State.cell]) ?_
  intro j hj
  simp only [State.cell,Option.bind_eq_some_iff] at hj
  obtain ⟨c,hc,hvalue⟩ := hj
  refine hfresh (List.mem_map.mpr ⟨c,List.mem_of_getElem? hc,?_⟩)
  simpa [Call.token] using hvalue

/-- A SET sets the key while it is free, and is granted when the answer comes back. -/
theorem move_setNX (hc : s.calls[i]? = some c) (hready : c.status = .ready)
    (delivery : Delivery) : (s.cell keyPrefix providerName).Move
      ((s.setNX keyPrefix expiry i c delivery).cell keyPrefix providerName) := by
  have hi := (List.getElem?_eq_some_iff.mp hc).1
  have htoken : (s.cell keyPrefix providerName).token i = some c.lockValue := by
    simp [State.cell,hc,Call.token]
  have hnone : c.granted providerName = none := by simp [Call.granted,hready]
  -- The tokens stay, whatever becomes of the call.
  have htokens (status : Status) :
      (fun j : ℕ => (s.calls.set i { c with status := status })[j]?.bind Call.token) =
        fun j : ℕ => s.calls[j]?.bind Call.token := bind_set_same hc _ rfl
  by_cases hname : c.providerName = providerName
  · subst hname
    simp only [State.cell,State.setNX,htokens]
    by_cases hfree : s.free keyPrefix c.providerName = true
    · have hcurrent : current s.now (s.keys (lockKey keyPrefix c.providerName)) = none := by
        simpa [State.free] using hfree
      cases delivery with
      | answered =>
        have hok : lockError c.providerName (Delivery.answered.result true).1
            (Delivery.answered.result true).2 = none := by simp [lockError,Delivery.result]
        simp only [hfree,hok,Delivery.reached,Bool.and_self,if_true,Function.update_self,
          bind_set hi,Call.granted]
        exact .grant i c.lockValue _ htoken hcurrent
      | lost e =>
        simp only [hfree,Delivery.reached,Delivery.result,lockError,Bool.and_self,if_true,
          Function.update_self,or_true]
        rw [bind_set_same hc _ (by simp [Call.granted,hready])]
        exact .set i c.lockValue _ htoken hcurrent
      | unsent e =>
        simp only [Delivery.reached,Delivery.result,lockError,Bool.false_and,
          Bool.false_eq_true,if_false,or_true,if_true]
        rw [bind_set_same hc _ (by simp [Call.granted,hready])]
        exact .skip
    · -- Somebody else has the key: the call fails.
      rw [Bool.not_eq_true] at hfree
      have herror : ∃ e, lockError c.providerName (delivery.result false).1
          (delivery.result false).2 = some e := by
        cases delivery <;> exact ⟨_,by simp [lockError,Delivery.result]; rfl⟩
      obtain ⟨e,he⟩ := herror
      simp only [hfree,he,Bool.and_false,Bool.false_eq_true,if_false]
      rw [bind_set_same hc _ (by simp [Call.granted,hready])]
      exact .skip
  · have hkey : lockKey keyPrefix providerName ≠ lockKey keyPrefix c.providerName := by
      intro h
      exact hname (lockKey_injective keyPrefix h).symm
    have hcell : (s.setNX keyPrefix expiry i c delivery).cell keyPrefix providerName =
        s.cell keyPrefix providerName := by
      simp only [State.cell,State.setNX,htokens]
      congr 1
      · split_ifs
        · exact Function.update_of_ne hkey _ _
        · rfl
      · apply bind_set_same hc
        rw [hnone]
        simp only [Call.granted,if_neg hname]
        split <;> rfl
    rw [hcell]
    exact .skip

theorem move_unlock (hc : s.calls[i]? = some c) {deadline : Option ℕ} {released : Bool}
    (hlocked : c.status = .locked deadline released) : (s.cell keyPrefix providerName).Move
      ((s.unlock keyPrefix i c deadline).cell keyPrefix providerName) := by
  have hi := (List.getElem?_eq_some_iff.mp hc).1
  have htokens : (fun j : ℕ =>
      (s.calls.set i { c with status := .locked deadline true })[j]?.bind Call.token) =
        fun j : ℕ => s.calls[j]?.bind Call.token := bind_set_same hc _ rfl
  by_cases hname : c.providerName = providerName
  · subst hname
    simp only [State.cell,State.unlock,htokens,Function.update_self,bind_set hi]
    exact .release i c.lockValue (by simp [hc,Call.token])
  · have hkey : lockKey keyPrefix providerName ≠ lockKey keyPrefix c.providerName := by
      intro h
      exact hname (lockKey_injective keyPrefix h).symm
    have hcell : (s.unlock keyPrefix i c deadline).cell keyPrefix providerName =
        s.cell keyPrefix providerName := by
      simp only [State.cell,State.unlock,htokens,Function.update_of_ne hkey]
      congr 1
      apply bind_set_same hc
      cases released <;> simp [Call.granted,hlocked,hname]
    rw [hcell]
    exact .skip

/-- Every step of the system is a step of the calls on each provider. -/
theorem move_step (a : Step) (hfresh : ∀ other ttl unixNano, a = .begin other ttl unixNano →
      formatInt unixNano ∉ s.calls.map Call.lockValue) :
    (s.cell keyPrefix providerName).Move
      ((s.step keyPrefix expiry a).cell keyPrefix providerName) := by
  cases a with
  | begin other ttl unixNano =>
    exact move_begin keyPrefix providerName other ttl unixNano (hfresh other ttl unixNano rfl)
  | set i delivery =>
    simp only [State.step]
    split
    · rename_i c hc
      split
      · rename_i hready
        exact move_setNX keyPrefix expiry providerName hc hready delivery
      · exact .skip
    · exact .skip
  | unlock i =>
    simp only [State.step]
    split
    · rename_i c hc
      split
      · rename_i deadline released hlocked
        exact move_unlock keyPrefix providerName hc hlocked
      · exact .skip
    · exact .skip
  | wait t => exact .wait t

end

theorem lockValues_step (s : State) (a : Step) :
    (s.step keyPrefix expiry a).calls.map Call.lockValue =
      s.calls.map Call.lockValue ++ (readings [a]).map formatInt := by
  have hset (i : ℕ) (c : Call) (status : Status) (hc : s.calls[i]? = some c) :
      (s.calls.set i { c with status := status }).map Call.lockValue =
        s.calls.map Call.lockValue := by
    obtain ⟨hi,rfl⟩ := List.getElem?_eq_some_iff.mp hc
    apply List.ext_getElem?
    intro j
    by_cases hj : i = j
    · subst hj
      simp [hi]
    · simp [List.getElem?_set_ne hj]
  cases a with
  | begin other ttl unixNano => simp [State.step,State.begin,readings]
  | set i delivery =>
    simp only [State.step]
    split
    · rename_i c hc
      split
      · simp only [State.setNX,hset i c _ hc]
        simp [readings]
      · simp [readings]
    · simp [readings]
  | unlock i =>
    simp only [State.step]
    split
    · rename_i c hc
      split
      · simp only [State.unlock,hset i c _ hc]
        simp [readings]
      · simp [readings]
    · simp [readings]
  | wait t => simp [State.step,readings]

theorem lockValues_run (steps : List Step) :
    (State.run keyPrefix expiry steps).calls.map Call.lockValue =
      (readings steps).map formatInt := by
  induction steps using List.reverseRecOn with
  | nil => rfl
  | append_singleton steps a ih =>
    rw [State.run,List.foldl_append,List.foldl_cons,List.foldl_nil,lockValues_step]
    rw [State.run] at ih
    rw [ih,← List.map_append]
    simp [readings]

theorem sound_run {steps : List Step} (hread : (readings steps).Nodup) (providerName : String) :
    ((State.run keyPrefix expiry steps).cell keyPrefix providerName).Sound := by
  apply foldl_invariant (I := fun s : State => (s.cell keyPrefix providerName).Sound)
    (LeaseCell.sound_start 0)
  intro before a after hsplit hsound
  refine (move_step keyPrefix expiry providerName a ?_).sound hsound
  rintro other ttl unixNano rfl
  have hvalues := lockValues_run keyPrefix expiry before
  rw [State.run] at hvalues
  rw [hvalues,List.mem_map]
  rintro ⟨nanos,hmem,hsame⟩
  obtain rfl := formatInt_injective hsame
  rw [hsplit] at hread
  simp only [readings,List.filterMap_append,List.filterMap_cons,List.nodup_append] at hread
  exact hread.2.2 nanos hmem nanos (by simp) rfl

/-- If no two calls of `Lock` read the same time, then a function that one of them has returned
never deletes the lock of another one, and no two of them hold a lock on the same provider at the
same time. -/
theorem lock_owned (steps : List Step) (hread : (readings steps).Nodup) :
    (∀ before i after, steps = before ++ .unlock i :: after →
      let s := State.run keyPrefix expiry before
      ∀ providerName lease, s.keys (lockKey keyPrefix providerName) = some lease →
        lease.owner ≠ i →
        (s.step keyPrefix expiry (.unlock i)).keys (lockKey keyPrefix providerName) =
          some lease) ∧
    ∀ before after, steps = before ++ after →
      let s := State.run keyPrefix expiry before
      ∀ i j providerName, Holds s i providerName → Holds s j providerName → i = j := by
  have hsound (before after : List Step) (hsplit : steps = before ++ after) (name : String) :
      ((State.run keyPrefix expiry before).cell keyPrefix name).Sound := by
    apply sound_run
    rw [hsplit,readings,List.filterMap_append] at hread
    exact (List.nodup_append.mp hread).1
  constructor
  · intro before i after hsplit s name lease hlease hne
    have hs := hsound before _ hsplit name
    simp only [State.step]
    split
    · rename_i c hc
      split
      · rename_i deadline released hlocked
        by_cases hname : name = c.providerName
        · subst hname
          have htoken : (s.cell keyPrefix c.providerName).token i = some c.lockValue := by
            simp [State.cell,hc,Call.token]
          have hsame := hs.giveBack_of_ne htoken hlease hne
          simp only [State.unlock,Function.update_self]
          exact hsame.trans hlease
        · have hkey := (lockKey_injective keyPrefix).ne hname
          simp only [State.unlock,Function.update_of_ne hkey]
          exact hlease
      · exact hlease
    · exact hlease
  · intro before after hsplit s i j name hi hj
    exact (hsound before after hsplit name).exclusive (holds_cell keyPrefix hi)
      (holds_cell keyPrefix hj)

/-- The first lock expires, the second call gets it, and the first one unlocks too late. -/
def lateUnlock : List Step :=
  [.begin "a" 5 100,.set 0 .answered,.wait 5,.begin "a" 5 200,.set 1 .answered,.unlock 0,.unlock 0]

def keepFor (ttl : ℤ) : Option ℕ := if ttl ≤ 0 then none else some ttl.toNat

/-- The lock of the second call is still there. -/
theorem lock_owned_late :
    let s := State.run "chainkit:scoring:" keepFor (lateUnlock.take 5)
    (s.step "chainkit:scoring:" keepFor (.unlock 0)).keys "chainkit:scoring:lock:a" =
      some ⟨formatInt 200,some 10,1⟩ :=
  (lock_owned "chainkit:scoring:" keepFor lateUnlock (by decide)).1 (lateUnlock.take 5) 0
    [.unlock 0] rfl "a" ⟨formatInt 200,some 10,1⟩ rfl (by decide)

end ChainKit.Store.Locking
