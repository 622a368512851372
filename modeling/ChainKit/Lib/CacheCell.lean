import ChainKit.Lib.Keyed

/-! One entry of a store and its copy in a cache, under any number of agents that read and write
the entry, fill or drop the copy, and say whether the copy is to be trusted. -/
namespace ChainKit.Lib
variable {τ ν : Type}

/-- What an agent still has to do: fill the copy with a value and trust it, trust the copy, or
take care of a copy that its own write has made wrong. -/
inductive Phase (ν : Type)
  | idle
  | carry (v : ν)
  | mark (v : ν)
  | fix

/-- The agent holds no value. -/
def Phase.Free : Phase ν → Prop
  | .idle => True
  | .fix => True
  | _ => False

/-- The next step of the agent makes the copy right or untrusted. -/
def Phase.Repairs : Phase ν → Prop
  | .carry _ => True
  | .fix => True
  | _ => False

structure Cell (τ ν : Type) where
  truth : Option ν
  copy : Option ν
  trusted : Bool
  phase : τ → Phase ν

namespace Cell
variable {c c' : Cell τ ν}

/-- The values that are held are right, and a copy that is trusted is right unless some agent is
about to repair it. -/
structure Sound (c : Cell τ ν) : Prop where
  carried : ∀ t v, c.phase t = .carry v → c.truth = some v
  marking : ∀ t v, c.phase t = .mark v → c.truth = some v ∧ Copies c.truth c.copy
  trusted : c.trusted = true → Copies c.truth c.copy ∨ ∃ t, (c.phase t).Repairs

theorem sound_of_untrusted (hphase : ∀ t, c.phase t = .idle) (htrusted : c.trusted = false) :
    c.Sound := by
  refine ⟨?_,?_,?_⟩
  · intro t v h
    rw [hphase] at h
    cases h
  · intro t v h
    rw [hphase] at h
    cases h
  · intro h
    rw [htrusted] at h
    cases h

/-- Where no agent has anything left to do, a trusted copy is right. -/
theorem Sound.copies (hc : c.Sound) (hphase : ∀ t, c.phase t = .idle)
    (htrusted : c.trusted = true) : Copies c.truth c.copy := by
  obtain hcopies | ⟨t,hrepairs⟩ := hc.trusted htrusted
  · exact hcopies
  · rw [hphase] at hrepairs
    exact hrepairs.elim

variable [DecidableEq τ]

/-- The steps of the agents. An entry is only written while no agent holds a value. -/
inductive Move (c : Cell τ ν) : Cell τ ν → Prop
  | skip : Move c c
  | load (t : τ) (v : ν) : c.phase t = .idle → c.truth = some v →
      Move c { c with phase := Function.update c.phase t (.carry v) }
  | fill (t : τ) (v : ν) : c.phase t = .carry v →
      Move c { c with copy := some v, phase := Function.update c.phase t (.mark v) }
  | trust (t : τ) (v : ν) : c.phase t = .mark v →
      Move c { c with trusted := true, phase := Function.update c.phase t .idle }
  | write (t : τ) (w : Option ν) : (∀ u, (c.phase u).Free) →
      Move c { c with truth := w, phase := Function.update c.phase t .fix }
  | writeThrough (t : τ) (v : ν) : (∀ u, (c.phase u).Free) →
      Move c { c with truth := some v, phase := Function.update c.phase t (.carry v) }
  | distrust (t : τ) : (c.phase t).Free →
      Move c { c with trusted := false, phase := Function.update c.phase t .idle }
  | drop (t : τ) : (c.phase t).Free →
      Move c { c with copy := none, phase := Function.update c.phase t .idle }

theorem of_update_idle {phase : τ → Phase ν} {t u : τ} {p : Phase ν} (hp : p ≠ .idle)
    (h : Function.update phase t .idle u = p) : phase u = p := by
  by_cases hu : u = t
  · rw [hu,Function.update_self] at h
    exact absurd h.symm hp
  · rwa [Function.update_of_ne hu] at h

theorem of_update_free {phase : τ → Phase ν} {t u : τ} {p q : Phase ν}
    (hfree : ∀ u, (phase u).Free) (hq : ¬q.Free) (h : Function.update phase t p u = q) :
    p = q := by
  by_cases hu : u = t
  · rwa [hu,Function.update_self] at h
  · rw [Function.update_of_ne hu] at h
    exact absurd (h ▸ hfree u) hq

theorem sound_load (hc : c.Sound) {t : τ} {v : ν} (hv : c.truth = some v) :
    Sound { c with phase := Function.update c.phase t (.carry v) } := by
  refine ⟨?_,?_,?_⟩
  · intro u w h
    by_cases hu : u = t
    · rw [hu] at h
      simp only [Function.update_self,Phase.carry.injEq] at h
      rw [← h]
      exact hv
    · exact hc.carried u w (by simpa [hu] using h)
  · intro u w h
    by_cases hu : u = t
    · simp [hu] at h
    · exact hc.marking u w (by simpa [hu] using h)
  · intro _
    exact .inr ⟨t,by simp [Phase.Repairs]⟩

theorem sound_fill (hc : c.Sound) {t : τ} {v : ν} (ht : c.phase t = .carry v) :
    Sound { c with copy := some v, phase := Function.update c.phase t (.mark v) } := by
  have hv := hc.carried t v ht
  have hcopies : Copies c.truth (some v) := by
    rw [hv]
    exact copies_self _
  refine ⟨?_,?_,fun _ => .inl hcopies⟩
  · intro u w h
    by_cases hu : u = t
    · simp [hu] at h
    · exact hc.carried u w (by simpa [hu] using h)
  · intro u w h
    by_cases hu : u = t
    · rw [hu] at h
      simp only [Function.update_self,Phase.mark.injEq] at h
      rw [← h]
      exact ⟨hv,hcopies⟩
    · exact ⟨(hc.marking u w (by simpa [hu] using h)).1,hcopies⟩

theorem sound_rest (hc : c.Sound) {t : τ} {copy : Option ν} {trusted : Bool}
    (hcopy : copy = c.copy ∨ Copies c.truth copy)
    (htrusted : trusted = true → Copies c.truth copy) :
    Sound { c with copy := copy, trusted := trusted,
                   phase := Function.update c.phase t .idle } := by
  refine ⟨?_,?_,fun h => .inl (htrusted h)⟩
  · intro u w h
    exact hc.carried u w (of_update_idle (by simp) h)
  · intro u w h
    obtain ⟨hw,hcopies⟩ := hc.marking u w (of_update_idle (by simp) h)
    obtain rfl | hright := hcopy
    · exact ⟨hw,hcopies⟩
    · exact ⟨hw,hright⟩

/-- A write while no agent holds a value, after which the writer repairs the copy. -/
theorem sound_write {t : τ} {w : Option ν} {p : Phase ν} (hfree : ∀ u, (c.phase u).Free)
    (hp : p = .fix ∨ ∃ v, p = .carry v ∧ w = some v) :
    Sound { c with truth := w, phase := Function.update c.phase t p } := by
  refine ⟨?_,?_,?_⟩
  · intro u v h
    have hcarry : p = .carry v := of_update_free hfree (by simp [Phase.Free]) h
    obtain rfl | ⟨v',rfl,hw⟩ := hp
    · cases hcarry
    · cases hcarry
      exact hw
  · intro u v h
    have hmark : p = .mark v := of_update_free hfree (by simp [Phase.Free]) h
    obtain rfl | ⟨v',rfl,_⟩ := hp
    · cases hmark
    · cases hmark
  · intro _
    refine .inr ⟨t,?_⟩
    obtain rfl | ⟨v,rfl,_⟩ := hp
    · simp [Phase.Repairs]
    · simp [Phase.Repairs]

theorem Move.sound (hmove : c.Move c') (hc : c.Sound) : c'.Sound := by
  cases hmove with
  | skip => exact hc
  | load t v ht hv => exact sound_load hc hv
  | fill t v ht => exact sound_fill hc ht
  | trust t v ht => exact sound_rest hc (.inl rfl) fun _ => (hc.marking t v ht).2
  | write t w hfree => exact sound_write hfree (.inl rfl)
  | writeThrough t v hfree => exact sound_write hfree (.inr ⟨v,rfl,rfl⟩)
  | distrust t ht => exact sound_rest hc (.inl rfl) (by simp)
  | drop t ht => exact sound_rest hc (.inr (copies_none _)) fun _ => copies_none _

end Cell
end ChainKit.Lib
