import ChainKit.Scoring.Store.Penalties

/-! What `GetRecent` of the composite penalty store answers, compared with the rows of the
primary store. -/
namespace ChainKit.Store
open Lib
variable {α : Type}

/-- The records for a provider that goroutines still have to append. -/
def pendingIn (background : List (Option (PenaltyRecordData α))) (providerName : String) :
    List (PenaltyRecordData α) :=
  (background.filterMap kept).filter (·.providerName = providerName)

section
variable {background : List (Option (PenaltyRecordData α))}
  {record : Option (PenaltyRecordData α)} {r : PenaltyRecordData α} {providerName : String}

@[simp] theorem pendingIn_append (l l' : List (Option (PenaltyRecordData α))) :
    pendingIn (l ++ l') providerName = pendingIn l providerName ++ pendingIn l' providerName := by
  simp [pendingIn]

theorem pendingIn_singleton : pendingIn [record] providerName =
    (kept record).toList.filter (·.providerName = providerName) := by
  cases hkept : kept record <;> simp [pendingIn,hkept]

theorem pendingIn_cons (l : List (Option (PenaltyRecordData α))) :
    pendingIn (record :: l) providerName =
      (kept record).toList.filter (·.providerName = providerName) ++ pendingIn l providerName := by
  rw [← List.singleton_append,pendingIn_append,pendingIn_singleton]

theorem background_split {i : ℕ} (h : background[i]? = some record) : ∃ before after,
    background = before ++ record :: after ∧ background.take i = before ∧
      background.eraseIdx i = before ++ after := by
  obtain ⟨hi,hrecord⟩ := List.getElem?_eq_some_iff.mp h
  refine ⟨background.take i,background.drop (i+1),?_,rfl,List.eraseIdx_eq_take_drop_succ ..⟩
  rw [← hrecord,List.cons_getElem_drop_succ,List.take_append_drop]

end

namespace Redis

theorem ltrim_suffix (config : RedisPenaltyConfig) (r : PenaltyRecordData α)
    (l : List (PenaltyRecordData α)) : ∃ before, l = before ++ Command.exec config r l .ltrim ∧
      (before = [] ∨ config.maxEntriesPerProvider ≤ (Command.exec config r l .ltrim).length) := by
  rw [Command.exec,range_to_end]
  refine ⟨_,(List.take_append_drop _ _).symm,?_⟩
  rw [List.length_drop,List.take_eq_nil_iff]
  split_ifs <;> omega

/-- As soon as a record has been pushed, the list has the last records, and not fewer than the
limit unless it has them all; or it is gone. -/
theorem pipeline_suffix (config : RedisPenaltyConfig) {done : ℕ} (hdone : done ≠ 0)
    (r : PenaltyRecordData α) (l : List (PenaltyRecordData α)) :
    pipeline config done r l = [] ∨ ∃ before, l ++ [r] = before ++ pipeline config done r l ∧
      (before = [] ∨ config.maxEntriesPerProvider ≤ (pipeline config done r l).length) := by
  rcases done with _ | _ | _ | done
  · exact absurd rfl hdone
  · exact .inr ⟨[],rfl,.inl rfl⟩
  · exact .inr (ltrim_suffix config r (l ++ [r]))
  · by_cases httl : config.ttl ≤ 0
    · left
      simp [pipeline,Command.exec,httl]
    · right
      have hpipeline : pipeline config (done+3) r l = Command.exec config r (l ++ [r]) .ltrim := by
        simp [pipeline,Command.exec,httl]
      rw [hpipeline]
      exact ltrim_suffix config r (l ++ [r])

end Redis

namespace CompositePenaltyStore
variable (pg : Postgres α)

/-- The steps that keep the lists in step with the table. A record is one that its row keeps as
it is, and no older than the rows of its provider. A goroutine that fails finds no list of its
provider; one that pushes its record comes after the earlier ones of the provider, and if there
is no list, then no row of the provider was ever in it. -/
def InStep (s : CompositePenaltyStore α) : PenaltyStep α → Prop
  | .append record now fault => fault = none → ∀ r ∈ kept record,
      pg.row now r = r ∧ ∀ q ∈ s.rowsOf r.providerName, q.createdAt ≤ r.createdAt
  | .background i done => ∀ r ∈ s.background[i]?.bind kept,
      if done = 0 then s.lists r.providerName = []
      else pendingIn (s.background.take i) r.providerName = [] ∧
        (s.lists r.providerName = [] →
          s.rowsOf r.providerName = pendingIn s.background r.providerName)
  | .expire _ => True

instance [DecidableEq α] (s : CompositePenaltyStore α) :
    (step : PenaltyStep α) → Decidable (s.InStep pg step)
  | .append record now fault => inferInstanceAs (Decidable (fault = none → ∀ r ∈ kept record,
      pg.row now r = r ∧ ∀ q ∈ s.rowsOf r.providerName, q.createdAt ≤ r.createdAt))
  | .background i done => inferInstanceAs (Decidable (∀ r ∈ s.background[i]?.bind kept,
      if done = 0 then s.lists r.providerName = []
      else pendingIn (s.background.take i) r.providerName = [] ∧
        (s.lists r.providerName = [] →
          s.rowsOf r.providerName = pendingIn s.background r.providerName)))
  | .expire _ => .isTrue trivial

def Tracks (s : CompositePenaltyStore α) (providerName : String) : Prop :=
  Follows PenaltyRecordData.createdAt s.config.maxEntriesPerProvider (s.rowsOf providerName)
    (s.lists providerName) (pendingIn s.background providerName)

section
variable {s : CompositePenaltyStore α} {providerName : String}

theorem tracks_append (hs : s.Tracks providerName) {record : Option (PenaltyRecordData α)}
    {now : ℤ} {fault : Option GoError} (hstep : s.InStep pg (.append record now fault)) :
    (s.exec pg (.append record now fault)).Tracks providerName := by
  simp only [exec,append,Postgres.append,Tracks]
  cases hkept : kept record with
  | none => simpa [Tracks,rowsOf,pendingIn_singleton,hkept] using hs
  | some r =>
    cases fault with
    | some e => exact hs
    | none =>
      obtain ⟨hrow,hnewest⟩ := hstep rfl r hkept
      simp only [hrow,rowsOf,List.filter_append,pendingIn_append,pendingIn_singleton,hkept,
        Option.toList_some]
      by_cases hname : r.providerName = providerName
      · subst hname
        simpa [rowsOf] using hs.concat hnewest
      · simpa [Tracks,rowsOf,hname] using hs

theorem tracks_background (hs : s.Tracks providerName) {i done : ℕ}
    (hstep : s.InStep pg (.background i done)) :
    (s.exec pg (.background i done)).Tracks providerName := by
  simp only [exec]
  split
  · exact hs
  · rename_i record hrecord
    obtain ⟨before,after,hsplit,htake,herase⟩ := background_split hrecord
    simp only [InStep,hrecord,htake,Option.bind_some] at hstep
    rw [Tracks,hsplit,pendingIn_append,pendingIn_cons] at hs
    simp only [Tracks,Redis.append,herase,pendingIn_append]
    cases hkept : kept record with
    | none => simpa [rowsOf,hkept] using hs
    | some r =>
      rw [hkept] at hs
      by_cases hname : r.providerName = providerName
      · subst hname
        simp only [Option.toList_some,List.filter_cons,decide_true,if_true,List.filter_nil,
          List.singleton_append] at hs
        simp only [Function.update_self]
        have hr := hstep r hkept
        split_ifs at hr with hdone
        · -- The record never comes to the cache, which has no list.
          rw [hdone,hr]
          exact hs.drop ((List.Sublist.refl _).append (List.sublist_cons_self r _))
        · obtain ⟨hfirst,hall⟩ := hr
          rw [hsplit,pendingIn_append,hfirst,pendingIn_cons,hkept] at hall
          rw [hfirst] at hs ⊢
          exact hs.add (by simpa using hall) (Redis.pipeline_suffix s.config hdone r _)
      · simpa [rowsOf,hname,Function.update_of_ne (Ne.symm hname)] using hs

theorem tracks_expire (hs : s.Tracks providerName) (expired : String) :
    (s.exec pg (.expire expired)).Tracks providerName := by
  simp only [exec,Tracks]
  by_cases hname : providerName = expired
  · subst hname
    rw [Function.update_self]
    exact hs.drop (List.Sublist.refl _)
  · rw [Function.update_of_ne hname]
    exact hs

theorem tracks_exec (hs : s.Tracks providerName) {step : PenaltyStep α}
    (hstep : s.InStep pg step) : (s.exec pg step).Tracks providerName := by
  cases step with
  | append record now fault => exact tracks_append pg hs hstep
  | background i done => exact tracks_background pg hs hstep
  | expire expired => exact tracks_expire pg hs expired

/-- The lists of a new store follow the rows of all providers, as long as all steps are in
step. -/
theorem tracks_run {config : RedisPenaltyConfig} {rows : List (PenaltyRecordData α)}
    {steps : List (PenaltyStep α)} (hsteps : ∀ before step after, steps = before ++ step :: after →
      ((newCompositePenaltyStore config rows).run pg before).InStep pg step)
    (providerName : String) :
    ((newCompositePenaltyStore config rows).run pg steps).Tracks providerName := by
  refine foldl_invariant (I := fun s : CompositePenaltyStore α => s.Tracks providerName)
    (Follows.start _) ?_
  intro before step after hsplit hbefore
  exact tracks_exec pg hbefore (hsteps before step after hsplit)

end
end CompositePenaltyStore

theorem Postgres.getRecent_eq_ok (pg : Postgres α) (rows : List (PenaltyRecordData α))
    (providerName : String) (limit : ℤ) : ∃ answer,
      pg.getRecent rows none providerName limit = .ok answer ∧
      IsRecent PenaltyRecordData.createdAt limit.toNat
        (rows.filter (·.providerName = providerName)) answer := by
  unfold getRecent
  split_ifs with hlimit
  · refine ⟨[],rfl,List.Pairwise.nil,?_,rows.filter (·.providerName = providerName),?_,by simp⟩
    · rw [Int.toNat_of_nonpos hlimit,Nat.zero_min,List.length_nil]
    · rw [List.append_nil]
  · exact ⟨_,rfl,isRecent_of_descending (pg.perm _) (pg.sorted _)⟩

/-- When all steps were in step and no append is in flight, `GetRecent` gives the most recent
rows, oldest first, for every limit that the lists can hold or that the rows do not need. -/
theorem getRecent_isRecent (pg : Postgres α) (config : RedisPenaltyConfig)
    (rows : List (PenaltyRecordData α)) (steps : List (PenaltyStep α))
    (hsteps : ∀ before step after, steps = before ++ step :: after →
      ((newCompositePenaltyStore config rows).run pg before).InStep pg step)
    (hquiet : ((newCompositePenaltyStore config rows).run pg steps).background = [])
    (reply : Redis.Reply) (providerName : String) (limit : ℤ) :
    let s := (newCompositePenaltyStore config rows).run pg steps
    (limit ≤ s.config.maxEntriesPerProvider ∨
      (s.rowsOf providerName).length ≤ s.config.maxEntriesPerProvider) →
    ∃ answer, s.getRecent pg reply none providerName limit = .ok answer ∧
      IsRecent PenaltyRecordData.createdAt limit.toNat (s.rowsOf providerName) answer := by
  intro s hlimit
  have htracks : s.Tracks providerName := CompositePenaltyStore.tracks_run pg hsteps providerName
  rw [CompositePenaltyStore.Tracks,hquiet] at htracks
  unfold CompositePenaltyStore.getRecent
  split
  · rename_i r rest hanswer
    refine ⟨r :: rest,rfl,?_⟩
    unfold Redis.getRecent at hanswer
    split_ifs at hanswer with hpositive
    · cases hanswer
    · split at hanswer
      · rw [Redis.range_last _ (by omega),Except.ok.injEq] at hanswer
        have hlist : s.lists providerName ≠ [] := by
          intro hempty
          rw [hempty] at hanswer
          simp at hanswer
        rw [← hanswer]
        exact htracks.isRecent hlist (by omega)
      · cases hanswer
      · cases hanswer
  · exact pg.getRecent_eq_ok s.rows providerName limit

/-- Microseconds, and rows of the same time in the order of the table. -/
def Postgres.insertion : Postgres α where
  column t := t-t%1000
  order := List.insertionSort (fun r q => q.createdAt ≤ r.createdAt)
  perm := List.perm_insertionSort _
  sorted l := by
    have : Std.Total (fun r q : PenaltyRecordData α => q.createdAt ≤ r.createdAt) :=
      ⟨fun r q => le_total q.createdAt r.createdAt⟩
    have : IsTrans (PenaltyRecordData α) (fun r q => q.createdAt ≤ r.createdAt) :=
      ⟨fun _ _ _ h h' => h'.trans h⟩
    exact List.pairwise_insertionSort _ l

theorem getRecent_isRecent_appended :
    let s := (newCompositePenaltyStore ⟨0,0⟩ []).run Postgres.insertion
      [.append (some ⟨"p",1000,1⟩) 1000 none,.background 0 3,
        .append (some ⟨"p",2000,2⟩) 2000 none,.append (some ⟨"q",2000,3⟩) 2000 none,
        .append (some ⟨"p",3000,4⟩) 3000 none,.background 1 3,.background 0 3,.background 0 2]
    s.getRecent Postgres.insertion .complete none "p" 2 = .ok [⟨"p",2000,2⟩,⟨"p",3000,4⟩] ∧
    IsRecent PenaltyRecordData.createdAt 2 (s.rowsOf "p") [⟨"p",2000,2⟩,⟨"p",3000,4⟩] := by
  have hrecent := getRecent_isRecent (α := ℕ) Postgres.insertion ⟨0,0⟩ []
    [.append (some ⟨"p",1000,1⟩) 1000 none,.background 0 3,
      .append (some ⟨"p",2000,2⟩) 2000 none,.append (some ⟨"q",2000,3⟩) 2000 none,
      .append (some ⟨"p",3000,4⟩) 3000 none,.background 1 3,.background 0 3,.background 0 2]
    (along_iff.mp (by decide +kernel)) (by decide +kernel) .complete "p" 2
    (.inl (by decide +kernel))
  intro s
  have hanswer : s.getRecent Postgres.insertion .complete none "p" 2 =
      .ok [⟨"p",2000,2⟩,⟨"p",3000,4⟩] := by decide +kernel
  obtain ⟨answer,heq,hanswer'⟩ := hrecent
  obtain rfl := Except.ok.inj (hanswer.symm.trans heq)
  exact ⟨hanswer,hanswer'⟩

/-- Nothing fails, but the goroutines of two appends run in the other order. -/
theorem getRecent_out_of_order :
    let s := (newCompositePenaltyStore ⟨0,0⟩ []).run Postgres.insertion
      [.append (some ⟨"p",1000,1⟩) 1000 none,.append (some ⟨"p",2000,2⟩) 2000 none,
        .background 1 3,.background 0 3]
    s.background = [] ∧
    s.getRecent Postgres.insertion .complete none "p" 1 = .ok [⟨"p",1000,1⟩] ∧
    s.rowsOf "p" = [⟨"p",1000,1⟩,⟨"p",2000,2⟩] ∧
    ¬IsRecent PenaltyRecordData.createdAt 1 (s.rowsOf "p") [⟨"p",1000,1⟩] := by
  intro s
  have hrows : s.rowsOf "p" = [⟨"p",1000,1⟩,⟨"p",2000,2⟩] := by decide +kernel
  refine ⟨by decide +kernel,by decide +kernel,hrows,?_⟩
  rw [hrows]
  intro hrecent
  obtain ⟨rest,hperm,hnewest⟩ := hrecent.newest
  have hmem : (⟨"p",2000,2⟩ : PenaltyRecordData ℕ) ∈ rest ++ [⟨"p",1000,1⟩] :=
    hperm.mem_iff.mpr (by simp)
  have hrest : (⟨"p",2000,2⟩ : PenaltyRecordData ℕ) ∈ rest := by simpa using hmem
  have hle := hnewest _ hrest _ (List.mem_singleton_self _)
  simp at hle

end ChainKit.Store
