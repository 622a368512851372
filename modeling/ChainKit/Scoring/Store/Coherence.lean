import ChainKit.Lib.CacheCell
import ChainKit.Scoring.Store.Concurrent
import ChainKit.Scoring.Store.Transparency

/-! What later calls of `GetScore` answer after concurrent calls: each name of the store is a
cell of a cache protocol, and the calls are its agents. -/
namespace ChainKit.Store
open Lib HybridStore
variable {τ α : Type}

namespace Pc

/-- What a call still has to do to its entry and the copy in the cache. -/
def task (config : HybridConfig) : Pc α → Phase (ProviderScoreData α)
  | .populate _ data _ => .carry data
  | .populated _ data _ => .mark data
  | .written data =>
    if config.invalidateOnWrite = false ∧ config.writeThrough = true then .carry data else .fix
  | .through data => .mark data
  | .removed _ => .fix
  | _ => .idle

/-- The same, as seen from one name. -/
def phase (config : HybridConfig) (name : String) (pc : Pc α) : Phase (ProviderScoreData α) :=
  if pc.name = some name then pc.task config else .idle

theorem free_task {config : HybridConfig} {pc : Pc α} (h : ¬pc.Holds config) :
    (pc.task config).Free := by
  cases pc with
  | populate name data hname => exact absurd trivial h
  | populated name data hname => exact absurd trivial h
  | through data => exact absurd trivial h
  | written data =>
    have hmode : ¬(config.invalidateOnWrite = false ∧ config.writeThrough = true) := h
    rw [task,if_neg hmode]
    trivial
  | _ => trivial

theorem free_phase {config : HybridConfig} {name : String} {pc : Pc α}
    (h : pc.name = some name → ¬pc.Holds config) : (pc.phase config name).Free := by
  unfold phase
  split_ifs with hname
  · exact free_task (h hname)
  · trivial

theorem next_name (now : ℤ) (h : HybridStore α) (pc : Pc α) :
    (pc.next now h).1.name = none ∨ (pc.next now h).1.name = pc.name := by
  cases pc with
  | check name =>
    simp only [next]
    split_ifs <;> exact .inr rfl
  | cacheRead name =>
    simp only [next]
    split_ifs
    · exact .inl rfl
    · exact .inr rfl
  | primaryRead name =>
    simp only [next]
    split
    · exact .inr rfl
    · exact .inl rfl
  | written data =>
    simp only [next]
    split_ifs
    · exact .inr rfl
    · exact .inr rfl
    · exact .inl rfl
  | _ => first | exact .inl rfl | exact .inr rfl

theorem next_frame (now : ℤ) (h : HybridStore α) {pc : Pc α} {name : String}
    (hne : pc.name ≠ some name) : (pc.next now h).2.primary.get name = h.primary.get name ∧
      (pc.next now h).2.cache.get name = h.cache.get name ∧
      (pc.next now h).2.cacheTime name = h.cacheTime name := by
  have hname {n : String} (hn : some n ≠ some name) : name ≠ n :=
    fun heq => hn (congrArg some heq.symm)
  cases pc with
  | idle => exact ⟨rfl,rfl,rfl⟩
  | check n => exact ⟨rfl,rfl,rfl⟩
  | cacheRead n => exact ⟨rfl,rfl,rfl⟩
  | primaryRead n =>
    simp only [next]
    split <;> exact ⟨rfl,rfl,rfl⟩
  | populate n data hdata =>
    have hdata : name ≠ data.name := hdata ▸ hname hne
    simp [next,cacheSet,KeyedMap.setAll,hdata]
  | populated n data hdata => simp [next,markCacheFresh,hname hne]
  | write data => simp [next,hname hne]
  | written data =>
    simp only [next]
    split_ifs <;> simp [invalidateCache,cacheSet,KeyedMap.setAll,hname hne]
  | through data => simp [next,markCacheFresh,hname hne]
  | invalidated data => simp [next,cacheDelete,hname hne]
  | remove n => simp [next,hname hne]
  | removed n => simp [next,cacheDelete,hname hne]
  | dropped n => simp [next,invalidateCache,hname hne]

end Pc

/-- One name of the store and what the threads still have to do to it. -/
def HybridStore.cell (h : HybridStore α) (name : String)
    (phase : τ → Phase (ProviderScoreData α)) : Cell τ (ProviderScoreData α) where
  truth := h.primary.get name
  copy := h.cache.get name
  trusted := (h.cacheTime name).isSome
  phase := phase

namespace Sys

def cell (s : Sys τ α) (name : String) : Cell τ (ProviderScoreData α) :=
  s.store.cell name fun t => (s.threads t).phase s.store.config name

variable [DecidableEq τ]

theorem next_config (now : ℤ) (h : HybridStore α) (pc : Pc α) :
    (pc.next now h).2.config = h.config := by
  cases pc with
  | primaryRead name =>
    simp only [Pc.next]
    split <;> rfl
  | written data =>
    simp only [Pc.next]
    split_ifs <;> rfl
  | _ => rfl

theorem cell_step (s : Sys τ α) (t : τ) (now : ℤ) (name : String) :
    (s.step (.step t now)).cell name = ((s.threads t).next now s.store).2.cell name
      (Function.update (s.cell name).phase t
        (((s.threads t).next now s.store).1.phase s.store.config name)) := by
  simp only [step,cell,next_config]
  congr 1
  funext u
  by_cases hu : u = t
  · rw [hu,Function.update_self,Function.update_self]
  · rw [Function.update_of_ne hu,Function.update_of_ne hu]
    rfl

theorem cell_call (s : Sys τ α) (t : τ) (c : Call α) (name : String) :
    (s.step (.call t c)).cell name = s.cell name := by
  simp only [step]
  split
  · rename_i hidle
    have hstart : c.start.phase s.store.config name = .idle := by
      unfold Pc.phase
      split_ifs
      · cases c <;> rfl
      · rfl
    simp only [cell]
    congr 1
    funext u
    by_cases hu : u = t
    · rw [hu,Function.update_self,hidle,hstart]
      rfl
    · rw [Function.update_of_ne hu]
  · rfl

theorem cell_step_of_ne {s : Sys τ α} {t : τ} {now : ℤ} {name : String}
    (hne : (s.threads t).name ≠ some name) : (s.step (.step t now)).cell name = s.cell name := by
  obtain ⟨htruth,hcopy,htime⟩ := Pc.next_frame now s.store hne
  have hphase : ((s.threads t).next now s.store).1.phase s.store.config name =
      (s.cell name).phase t := by
    have hbefore : (s.threads t).phase s.store.config name = .idle := if_neg hne
    have hafter : ((s.threads t).next now s.store).1.name ≠ some name := by
      obtain hnone | hsame := Pc.next_name now s.store (s.threads t)
      · rw [hnone]
        exact (Option.some_ne_none name).symm
      · rw [hsame]
        exact hne
    exact (if_neg hafter).trans hbefore.symm
  rw [cell_step,hphase,Function.update_eq_self]
  simp only [HybridStore.cell,htruth,hcopy,htime]
  rfl

theorem cell_step_self {s : Sys τ α} {t : τ} {now : ℤ} {name : String}
    (hname : (s.threads t).name = some name) : (s.step (.step t now)).cell name =
      ((s.threads t).next now s.store).2.cell name (Function.update (s.cell name).phase t
        (((s.threads t).next now s.store).1.task s.store.config)) := by
  have hphase : ((s.threads t).next now s.store).1.phase s.store.config name =
      ((s.threads t).next now s.store).1.task s.store.config := by
    obtain hnone | hsame := Pc.next_name now s.store (s.threads t)
    · cases hpc : ((s.threads t).next now s.store).1 with
      | idle => rfl
      | _ =>
        rw [hpc] at hnone
        cases hnone
    · exact if_pos (hsame.trans hname)
  rw [cell_step]
  simp only [hphase]

/-- The step of a call, as a move of the cell of its name. The entry is only written while all
agents are free. -/
theorem move_next {h : HybridStore α} {pc : Pc α} {name : String} (hname : pc.name = some name)
    (now : ℤ) {phase : τ → Phase (ProviderScoreData α)} {t : τ}
    (hphase : phase t = pc.task h.config)
    (hfree : ∀ w, pc.wrote = some (name,w) → ∀ u, (phase u).Free) :
    (h.cell name phase).Move ((pc.next now h).2.cell name
      (Function.update phase t ((pc.next now h).1.task h.config))) := by
  -- Steps that only read move nothing but the thread.
  have hskip (hidle : phase t = .idle) :
      (h.cell name phase).Move (h.cell name (Function.update phase t .idle)) := by
    rw [← hidle,Function.update_eq_self]
    exact .skip
  have hset (data : ProviderScoreData α) :
      (h.cache.setAll [data]).get data.name = some data := by
    simp [KeyedMap.setAll]
  cases pc with
  | idle => cases hname
  | check n =>
    simp only [Pc.next]
    split_ifs <;> exact hskip hphase
  | cacheRead n =>
    simp only [Pc.next]
    split_ifs <;> exact hskip hphase
  | primaryRead n =>
    obtain rfl := Option.some.inj hname
    simp only [Pc.next]
    split
    · rename_i data hdata
      exact .load t data hphase hdata
    · exact hskip hphase
  | populate n data hdata =>
    obtain rfl := Option.some.inj hname
    subst hdata
    simp only [HybridStore.cell,Pc.next,cacheSet,hset]
    exact .fill t data hphase
  | populated n data hdata =>
    obtain rfl := Option.some.inj hname
    simp only [HybridStore.cell,Pc.next,markCacheFresh,Function.update_self,Option.isSome_some]
    exact .trust t data hphase
  | write data =>
    obtain rfl := Option.some.inj hname
    simp only [HybridStore.cell,Pc.next,KeyedMap.get_set,Function.update_self,Pc.task]
    split_ifs
    · exact .writeThrough t data (hfree (some data) rfl)
    · exact .write t (some data) (hfree (some data) rfl)
  | written data =>
    obtain rfl := Option.some.inj hname
    simp only [Pc.next]
    split_ifs with hinvalidate hthrough
    · simp only [HybridStore.cell,invalidateCache,Function.update_self,Option.isSome_none]
      exact .distrust t (by simp [hphase,Pc.task,hinvalidate,Phase.Free])
    · simp only [HybridStore.cell,cacheSet,hset]
      exact .fill t data (by simp [hphase,Pc.task,hinvalidate,hthrough])
    · simp only [HybridStore.cell,invalidateCache,Function.update_self,Option.isSome_none]
      exact .distrust t (by simp [hphase,Pc.task,hthrough,Phase.Free])
  | through data =>
    obtain rfl := Option.some.inj hname
    simp only [HybridStore.cell,Pc.next,markCacheFresh,Function.update_self,Option.isSome_some]
    exact .trust t data hphase
  | invalidated data =>
    obtain rfl := Option.some.inj hname
    simp only [HybridStore.cell,Pc.next,cacheDelete,KeyedMap.get_delete,Function.update_self]
    exact .drop t (by simp [hphase,Pc.task,Phase.Free])
  | remove n =>
    obtain rfl := Option.some.inj hname
    simp only [HybridStore.cell,Pc.next,KeyedMap.get_delete,Function.update_self]
    exact .write t none (hfree none rfl)
  | removed n =>
    obtain rfl := Option.some.inj hname
    simp only [HybridStore.cell,Pc.next,cacheDelete,KeyedMap.get_delete,Function.update_self]
    exact .drop t (by simp [hphase,Pc.task,Phase.Free])
  | dropped n =>
    obtain rfl := Option.some.inj hname
    simp only [HybridStore.cell,Pc.next,invalidateCache,Function.update_self,Option.isSome_none]
    exact .distrust t (by simp [hphase,Pc.task,Phase.Free])

theorem move_step {s : Sys τ α} {t : τ} {now : ℤ} {name : String}
    (hname : (s.threads t).name = some name) (hexclusive : s.Exclusive (.step t now)) :
    (s.cell name).Move ((s.step (.step t now)).cell name) := by
  rw [cell_step_self hname]
  exact move_next hname now (if_pos hname) fun w hw u => Pc.free_phase (hexclusive (name,w) hw u)

/-- Under the rule, every step moves every cell as the agents of a cell may. -/
theorem moves {s : Sys τ α} {l : Label τ α} (hexclusive : s.Exclusive l) (name : String) :
    (s.cell name).Move ((s.step l).cell name) := by
  cases l with
  | call t c =>
    rw [cell_call]
    exact .skip
  | step t now =>
    by_cases hname : (s.threads t).name = some name
    · exact move_step hname hexclusive
    · rw [cell_step_of_ne hname]
      exact .skip

theorem sound_run {h : HybridStore α} (hfresh : ∀ name, h.cacheTime name = none)
    {schedule : List (Label τ α)} (hschedule : ∀ before l after,
      schedule = before ++ l :: after → ((start h).run before).Exclusive l) (name : String) :
    (((start h).run schedule).cell name).Sound := by
  refine foldl_invariant (I := fun s : Sys τ α => (s.cell name).Sound) ?_ ?_
  · exact Cell.sound_of_untrusted (fun t => rfl) (by simp [cell,HybridStore.cell,start,hfresh])
  · intro before l after hsplit hbefore
    exact (moves (hschedule before l after hsplit) name).sound hbefore

theorem primary_step (s : Sys τ α) (l : Label τ α) :
    (s.step l).store.primary.get = (s.wrote l).toList.foldl
      (fun m w => Function.update m w.1 w.2) s.store.primary.get := by
  cases l with
  | call t c =>
    simp only [step]
    split <;> rfl
  | step t now =>
    simp only [step,wrote]
    cases s.threads t with
    | primaryRead name =>
      simp only [Pc.next]
      split <;> rfl
    | written data =>
      simp only [Pc.next]
      split_ifs <;> rfl
    | write data => exact KeyedMap.get_set _ data
    | remove name => exact KeyedMap.get_delete _ name
    | _ => rfl

end Sys

/-- The value of the last write to a name, or what was there before. -/
def lastWrite (initial : String → Option (ProviderScoreData α))
    (writes : List (String × Option (ProviderScoreData α))) :
    String → Option (ProviderScoreData α) :=
  writes.foldl (fun m w => Function.update m w.1 w.2) initial

namespace Sys
variable [DecidableEq τ]

theorem primary_run (s : Sys τ α) (schedule : List (Label τ α)) :
    (s.run schedule).store.primary.get =
      lastWrite s.store.primary.get (observe step wrote s schedule) := by
  induction schedule generalizing s with
  | nil => rfl
  | cons l rest ih =>
    rw [observe,lastWrite,List.foldl_append,← primary_step]
    exact ih (s.step l)

end Sys

def Label.Reads : Label τ α → Prop
  | .call _ (.get _) => True
  | .call _ _ => False
  | .step _ _ => True

section
variable {truth : String → Option (ProviderScoreData α)} {h h' : HybridStore α} {pc : Pc α}

/-- Where a call of `GetScore` may be, when the cache is never wrong where it is trusted. -/
def Pc.Reading (truth : String → Option (ProviderScoreData α)) (h : HybridStore α) : Pc α → Prop
  | .idle => True
  | .check _ => True
  | .cacheRead name => Copies (truth name) (h.cache.get name)
  | .primaryRead _ => True
  | .populate name data _ => truth name = some data
  | .populated name data _ => truth name = some data ∧ Copies (truth name) (h.cache.get name)
  | _ => False

/-- A store with that truth whose cache can be trusted. -/
structure HybridStore.Settled (truth : String → Option (ProviderScoreData α))
    (h : HybridStore α) : Prop where
  primary : h.primary.get = truth
  trusted : ∀ name, (h.cacheTime name).isSome = true → Copies (truth name) (h.cache.get name)

theorem Pc.Reading.mono (hpc : pc.Reading truth h) (hcache : ∀ name,
    Copies (truth name) (h.cache.get name) → Copies (truth name) (h'.cache.get name)) :
    pc.Reading truth h' := by
  cases pc with
  | cacheRead name => exact hcache name hpc
  | populated name data hname => exact ⟨hpc.1,hcache name hpc.2⟩
  | _ => exact hpc

theorem copies_set {data : ProviderScoreData α} (hdata : truth data.name = some data)
    (name : String) (hcopies : Copies (truth name) (h.cache.get name)) :
    Copies (truth name) ((h.cache.setAll [data]).get name) := by
  by_cases hname : name = data.name
  · rw [hname,hdata]
    simp [KeyedMap.setAll]
  · simpa [KeyedMap.setAll,hname] using hcopies

theorem Pc.answer_settled (hsettled : h.Settled truth) (hpc : pc.Reading truth h)
    {a : String × Option (ProviderScoreData α)} (ha : pc.answer h = some a) :
    a.2 = truth a.1 := by
  cases pc with
  | cacheRead name =>
    obtain ⟨data,hdata,rfl⟩ := Option.map_eq_some_iff.mp ha
    exact (hpc data hdata).symm
  | primaryRead name =>
    rw [answer] at ha
    split_ifs at ha with hdata
    cases ha
    rw [Bool.not_eq_true,Option.isSome_eq_false_iff,Option.isNone_iff_eq_none] at hdata
    rw [← hsettled.primary]
    exact hdata.symm
  | populated name data hname =>
    cases ha
    exact hpc.1.symm
  | _ => cases ha

theorem Pc.next_settled (now : ℤ) (hsettled : h.Settled truth) (hpc : pc.Reading truth h) :
    (pc.next now h).2.Settled truth ∧ (pc.next now h).1.Reading truth (pc.next now h).2 ∧
      ∀ name, Copies (truth name) (h.cache.get name) →
        Copies (truth name) ((pc.next now h).2.cache.get name) := by
  cases pc with
  | idle => exact ⟨hsettled,trivial,fun _ => id⟩
  | check name =>
    refine ⟨hsettled,?_,fun _ => id⟩
    simp only [next]
    split_ifs with hfresh
    · apply hsettled.trusted
      unfold isCacheFresh at hfresh
      split at hfresh
      · rename_i ht
        rw [ht,Option.isSome_some]
      · cases hfresh
    · trivial
  | cacheRead name =>
    refine ⟨hsettled,?_,fun _ => id⟩
    simp only [next]
    split_ifs <;> trivial
  | primaryRead name =>
    simp only [next]
    split
    · rename_i data hdata
      rw [hsettled.primary] at hdata
      exact ⟨hsettled,hdata,fun _ => id⟩
    · exact ⟨hsettled,trivial,fun _ => id⟩
  | populate name data hname =>
    have hdata : truth data.name = some data := by
      rw [hname]
      exact hpc
    have hcopies (n : String) := copies_set (h := h) hdata n
    refine ⟨⟨hsettled.primary,fun n hn => hcopies n (hsettled.trusted n hn)⟩,⟨hpc,?_⟩,hcopies⟩
    simp only [next,cacheSet]
    rw [← hname,hdata]
    simp [KeyedMap.setAll]
  | populated name data hname =>
    obtain ⟨hdata,hcopies⟩ := hpc
    refine ⟨⟨hsettled.primary,?_⟩,trivial,fun _ => id⟩
    intro n hn
    by_cases hname : n = name
    · rw [hname]
      exact hcopies
    · apply hsettled.trusted
      simpa [next,markCacheFresh,hname] using hn
  | _ => exact hpc.elim

end

namespace Sys
variable [DecidableEq τ] {truth : String → Option (ProviderScoreData α)} {s : Sys τ α}

/-- Nothing but calls of `GetScore` is under way on a settled store. -/
structure Calm (truth : String → Option (ProviderScoreData α)) (s : Sys τ α) : Prop where
  settled : s.store.Settled truth
  reading : ∀ t, (s.threads t).Reading truth s.store

theorem calm_step (hs : s.Calm truth) {l : Label τ α} (hl : l.Reads) :
    (s.step l).Calm truth ∧ ∀ a, s.answer l = some a → a.2.2 = truth a.2.1 := by
  cases l with
  | call t c =>
    refine ⟨?_,by simp [answer]⟩
    simp only [step]
    split
    · refine ⟨hs.settled,?_⟩
      intro u
      by_cases hu : u = t
      · rw [hu]
        cases c with
        | get name => simp [Call.start,Pc.Reading]
        | set data => exact hl.elim
        | delete name => exact hl.elim
      · simpa [hu] using hs.reading u
    · exact hs
  | step t now =>
    obtain ⟨hsettled,hreading,hcopies⟩ := Pc.next_settled now hs.settled (hs.reading t)
    refine ⟨⟨hsettled,?_⟩,?_⟩
    · intro u
      by_cases hu : u = t
      · rw [hu]
        simpa [step] using hreading
      · simpa [step,hu] using (hs.reading u).mono hcopies
    · intro a ha
      obtain ⟨b,hb,rfl⟩ := Option.map_eq_some_iff.mp ha
      exact Pc.answer_settled hs.settled (hs.reading t) hb

theorem calm_answers (hs : s.Calm truth) {schedule : List (Label τ α)}
    (hschedule : ∀ l ∈ schedule, l.Reads) :
    ∀ a ∈ observe step answer s schedule, a.2.2 = truth a.2.1 := by
  induction schedule generalizing s with
  | nil => simp [observe]
  | cons l rest ih =>
    obtain ⟨hcalm,hanswer⟩ := calm_step hs (hschedule l (by simp))
    intro a ha
    rw [observe,List.mem_append] at ha
    obtain hhead | htail := ha
    · exact hanswer a (by simpa using hhead)
    · exact ih hcalm (fun m hm => hschedule m (by simp [hm])) a htail

omit [DecidableEq τ] in
/-- When all calls have returned, the store is settled. -/
theorem calm_of_quiescent (hsound : ∀ name, (s.cell name).Sound) (hquiescent : s.Quiescent) :
    s.Calm s.store.primary.get := by
  have hidle (name : String) (t : τ) : (s.cell name).phase t = .idle := by
    simp [cell,HybridStore.cell,Pc.phase,hquiescent t,Pc.name]
  refine ⟨⟨rfl,fun name hmarked => (hsound name).copies (hidle name) hmarked⟩,?_⟩
  intro t
  rw [hquiescent t]
  trivial

end Sys

/-- The steps that a call of `GetScore` may still need. -/
def Pc.remaining : Pc α → ℕ
  | .check _ => 5
  | .cacheRead _ => 4
  | .primaryRead _ => 3
  | .populate _ _ _ => 2
  | .populated _ _ _ => 1
  | _ => 0

theorem Pc.next_remaining (now : ℤ) (h : HybridStore α) {pc : Pc α} {name : String}
    (hname : pc.name = some name) (hpos : 0 < pc.remaining) :
    (∃ r, pc.answer h = some (name,r)) ∨ (pc.next now h).1.name = some name ∧
      0 < (pc.next now h).1.remaining ∧ (pc.next now h).1.remaining < pc.remaining := by
  cases pc with
  | check n =>
    right
    simp only [next]
    split_ifs <;> exact ⟨hname,by simp [remaining]⟩
  | cacheRead n =>
    obtain rfl := Option.some.inj hname
    cases hcopy : h.cache.get n with
    | some data => exact .inl ⟨some data,by simp [answer,hcopy]⟩
    | none => exact .inr (by simp [next,hcopy,Pc.name,remaining])
  | primaryRead n =>
    obtain rfl := Option.some.inj hname
    by_cases hdata : (h.primary.get n).isSome
    · right
      simp only [next]
      split
      · exact ⟨hname,by simp [remaining]⟩
      · rename_i hnone
        rw [hnone] at hdata
        cases hdata
    · exact .inl ⟨none,by rw [answer,if_neg hdata]⟩
  | populate n data hdata => exact .inr ⟨hname,by simp [next,remaining]⟩
  | populated n data hdata =>
    obtain rfl := Option.some.inj hname
    exact .inl ⟨some data,rfl⟩
  | _ => cases hpos

def stepsOf [DecidableEq τ] (t : τ) : List (Label τ α) → ℕ
  | [] => 0
  | .step u _ :: rest => if u = t then stepsOf t rest+1 else stepsOf t rest
  | .call _ _ :: rest => stepsOf t rest

namespace Sys
variable [DecidableEq τ]

/-- A call of `GetScore` answers as soon as its thread has taken enough steps. -/
theorem answers {s : Sys τ α} {t : τ} {name : String} {schedule : List (Label τ α)}
    (hname : (s.threads t).name = some name) (hpos : 0 < (s.threads t).remaining)
    (hsteps : (s.threads t).remaining ≤ stepsOf t schedule) :
    ∃ r, (t,name,r) ∈ observe step answer s schedule := by
  induction schedule generalizing s with
  | nil =>
    rw [stepsOf] at hsteps
    omega
  | cons l rest ih =>
    have hlater (hthread : (s.step l).threads t = s.threads t)
        (hrest : (s.threads t).remaining ≤ stepsOf t rest) :
        ∃ r, (t,name,r) ∈ observe step answer s (l :: rest) := by
      obtain ⟨r,hr⟩ := ih (s := s.step l) (by rwa [hthread]) (by rwa [hthread])
        (by rwa [hthread])
      exact ⟨r,List.mem_append_right _ hr⟩
    cases l with
    | call u c =>
      refine hlater ?_ hsteps
      simp only [step]
      split
      · rename_i hidle
        have hne : t ≠ u := by
          rintro rfl
          rw [hidle] at hpos
          cases hpos
        simp [hne]
      · rfl
    | step u now =>
      by_cases hu : u = t
      · subst hu
        simp only [stepsOf,if_true] at hsteps
        obtain ⟨r,hr⟩ | ⟨hname',hpos',hless⟩ := Pc.next_remaining now s.store hname hpos
        · exact ⟨r,List.mem_append_left _ (by simp [answer,hr])⟩
        · have hthread : (s.step (.step u now)).threads u =
              ((s.threads u).next now s.store).1 := Function.update_self ..
          obtain ⟨r,hr⟩ := ih (s := s.step (.step u now)) (by rwa [hthread]) (by rwa [hthread])
            (by rw [hthread]; omega)
          exact ⟨r,List.mem_append_right _ hr⟩
      · refine hlater ?_ (by simpa [stepsOf,hu] using hsteps)
        simp [step,Ne.symm hu]

end Sys

theorem cacheTime_new {config : HybridConfig} {primary cache : ScoreMap α} {h : HybridStore α}
    (hnew : newHybridStore config (some primary) (some cache) = .ok h) :
    h.primary = primary ∧ ∀ name, h.cacheTime name = none := by
  cases hnew
  exact ⟨rfl,fun _ => rfl⟩

/-- In every mode of cache writes that a call makes itself: if the primary store is written for a
name only while no other call holds a value for that name, then after all calls have returned every
later `GetScore` answers with the value of the last write. -/
theorem later_reads_lastWrite [DecidableEq τ] {config : HybridConfig} {primary cache : ScoreMap α}
    {h : HybridStore α} (hnew : newHybridStore config (some primary) (some cache) = .ok h)
    (schedule later : List (Label τ α))
    (hexclusive : ∀ before l after, schedule = before ++ l :: after →
      ((Sys.start h).run before).Exclusive l)
    (hquiescent : ((Sys.start h).run schedule).Quiescent) (hlater : ∀ l ∈ later, l.Reads) :
    let s := (Sys.start h).run schedule
    let value := lastWrite primary.get (observe Sys.step Sys.wrote (Sys.start h) schedule)
    (∀ a ∈ observe Sys.step Sys.answer s later, a.2.2 = value a.2.1) ∧
    ∀ before t name rest, later = before ++ .call t (.get name) :: rest →
      (s.run before).threads t = .idle → 5 ≤ stepsOf t rest →
      (t,name,value name) ∈ observe Sys.step Sys.answer s later := by
  intro s value
  obtain ⟨hprimary,hfresh⟩ := cacheTime_new hnew
  have hcalm : s.Calm value := by
    have hvalue : s.store.primary.get = value := by
      rw [Sys.primary_run (Sys.start h) schedule]
      simp only [Sys.start,hprimary,value]
    rw [← hvalue]
    exact Sys.calm_of_quiescent (Sys.sound_run hfresh hexclusive) hquiescent
  have hright := Sys.calm_answers hcalm hlater
  refine ⟨hright,?_⟩
  intro before t name rest hsplit hidle hsteps
  have hthread : ((s.run before).step (.call t (.get name))).threads t = .check name := by
    simp [Sys.step,hidle,Call.start]
  have hanswers : ∃ r, (t,name,r) ∈
      observe Sys.step Sys.answer ((s.run before).step (.call t (.get name))) rest := by
    refine Sys.answers (t := t) ?_ ?_ ?_
    · rw [hthread]
      rfl
    · simp [hthread,Pc.remaining]
    · rw [hthread]
      exact hsteps
  obtain ⟨r,hr⟩ := hanswers
  have hmem : (t,name,r) ∈ observe Sys.step Sys.answer s later := by
    rw [hsplit,observe_append]
    exact List.mem_append_right _ (List.mem_append_right _ hr)
  have hvalue := hright _ hmem
  rw [← hvalue]
  exact hmem

/-- A read that overlaps with a write, but reads the primary store only after it. -/
def overlapping : List (Label Bool ℕ) :=
  [.call false (.get "a"),.step false 0,.call true (.set ⟨"a",1⟩),.step true 0,.step false 1,
    .step true 1,.step false 1,.step true 2,.step false 2]

theorem later_reads_overlapping :
    (true,"a",some ⟨"a",1⟩) ∈ observe Sys.step Sys.answer ((Sys.start freshStore).run overlapping)
      (.call true (.get "a") :: List.replicate 5 (.step true 3)) := by
  have hnew : newHybridStore throughConfig (some .empty) (some .empty) = .ok freshStore := rfl
  have hquiescent : ((Sys.start freshStore).run overlapping).Quiescent := by
    intro t
    cases t <;> rfl
  have hreads : ∀ l ∈ (.call true (.get "a") :: List.replicate 5 (.step true 3) :
      List (Label Bool ℕ)), l.Reads := by
    simp [Label.Reads]
  exact (later_reads_lastWrite hnew overlapping _ (along_iff.mp (by decide +kernel))
    hquiescent hreads).2 [] true "a" _ rfl (hquiescent true) (by decide)

/-- The store of a program that finds data in the primary store when it starts. -/
def restarted : HybridStore ℕ := { freshStore with primary := freshStore.primary.set ⟨"a",1⟩ }

/-- A read takes the old value from the primary store, a write runs from its start to its end,
and the read puts the old value into the cache. -/
def lateRead : List (Label Bool ℕ) :=
  [.call false (.get "a"),.step false 0,.step false 0,
    .call true (.set ⟨"a",2⟩),.step true 1,.step true 1,.step true 1,
    .step false 2,.step false 2]

/-- All calls have returned, and yet the next one answers with what the write has replaced. -/
theorem getScore_returns_populated :
    let s := (Sys.start restarted).run lateRead
    newHybridStore throughConfig (some restarted.primary) (some .empty) = .ok restarted ∧
    s.Quiescent ∧
    lastWrite restarted.primary.get
      (observe Sys.step Sys.wrote (Sys.start restarted) lateRead) "a" = some ⟨"a",2⟩ ∧
    observe Sys.step Sys.answer s [.call true (.get "a"),.step true 3,.step true 3] =
      [(true,"a",some ⟨"a",1⟩)] := by
  refine ⟨rfl,?_,by decide +kernel,by decide +kernel⟩
  intro t
  cases t <;> rfl

end ChainKit.Store
