import ChainKit.CloudAgent.Drain

/-! What the shutdown drain offers to the cloud. A batch that the cloud calls malformed ends the
drain like one that can be sent again, so the batches after it are never offered. -/
namespace ChainKit.CloudAgent
open Lib

namespace Transport
variable (t : Transport)

theorem flatten_due : t.due.flatten = t.inflight ++ t.buf := by
  unfold due
  rw [List.flatten_append,flatten_batches t.settings.batchCap_pos]
  split_ifs with h <;> simp [h]

theorem ne_nil_of_mem_due {batch : List Recorded} (h : batch ∈ t.due) : batch ≠ [] := by
  unfold due at h
  rcases List.mem_append.mp h with hinflight | hbuf
  · split_ifs at hinflight with hnil
    · cases hinflight
    · rwa [List.mem_singleton.mp hinflight]
  · exact ne_nil_of_mem_batches t.settings.batchCap_pos hbuf

theorem due_ne_nil_iff : t.due ≠ [] ↔ t.inflight ++ t.buf ≠ [] := by
  rw [← t.flatten_due]
  constructor
  · intro h hflat
    obtain ⟨batch,hbatch⟩ := List.exists_mem_of_ne_nil t.due h
    exact t.ne_nil_of_mem_due hbatch (List.flatten_eq_nil_iff.mp hflat batch hbatch)
  · rintro h hdue
    exact h (by rw [hdue,List.flatten_nil])

end Transport

namespace Agent

def answeredSince (s₀ s : Agent) : List (Post × Answer) :=
  s.history.answered.drop s₀.history.answered.length

/-- Every event that was pending in `s₀` is in a POST by `s`, unless a POST could be made again. -/
def OffersAll (s₀ s : Agent) : Prop :=
  (∀ r ∈ s₀.transport.inflight ++ s₀.transport.buf, ∃ post ∈ s₀.sentSince s, r ∈ post.events) ∨
  ∃ a ∈ s₀.answeredSince s, a.2.outcome = .retryable

instance (s₀ s : Agent) : Decidable (s₀.OffersAll s) := inferInstanceAs (Decidable (_ ∨ _))

def Serialisable (rt : Runtime) (opts : Options) (events : List Recorded) : Prop :=
  ∀ batch : List Recorded, (∀ r ∈ batch, r ∈ events) → ∀ batchID now ids,
    rt.marshalError (buildBatch (batch.map Recorded.event) opts batchID now ids) = none

section Offers
variable {rt : Runtime} {s₀ s : Agent} {answers : List (Post × Answer)}

theorem Offered.answeredSince_eq (h : Offered rt s₀ s answers) :
    s₀.answeredSince s = answers := by
  rw [answeredSince,h.answered,List.drop_left]

theorem Offered.sentSince_eq (h : Offered rt s₀ s answers) (hpc : s.pc = .exited) :
    s₀.sentSince s = answers.map Prod.fst := by
  rw [sentSince,h.sent,List.drop_left,hpc]
  exact List.append_nil _

/-- The pending events are in POSTs if and only if all batches that were due are. -/
theorem Offered.all_iff (h : Offered rt s₀ s answers) (hpc : s.pc = .exited)
    (hnodup : (s₀.transport.inflight ++ s₀.transport.buf).Nodup) :
    (∀ r ∈ s₀.transport.inflight ++ s₀.transport.buf, ∃ post ∈ s₀.sentSince s, r ∈ post.events) ↔
      answers.length = s₀.transport.due.length := by
  have hitems (r : Recorded) : (∃ post ∈ s₀.sentSince s, r ∈ post.events) ↔
      r ∈ (offers answers).flatten := by
    rw [h.sentSince_eq hpc]
    simp [offers]
  have hlength : (offers answers).length = answers.length := List.length_map _
  simp only [hitems]
  rw [← s₀.transport.flatten_due] at hnodup ⊢
  constructor
  · intro hall
    rw [← hlength,eq_of_isPrefix h.isPrefix (fun _ => s₀.transport.ne_nil_of_mem_due) hnodup hall]
  · intro hall
    rw [h.isPrefix.eq_of_length (hlength.trans hall)]
    exact fun _ hr => hr

/-- Only the last of the batches that were due is called malformed. -/
def PoisonLast (s₀ : Agent) (answers : List (Post × Answer)) : Prop :=
  ∀ k a, answers[k]? = some a → a.2.outcome = .poison → k+1 = s₀.transport.due.length

theorem poisonLast_of_forall (h : ∀ a ∈ answers, a.2.outcome ≠ .poison) :
    s₀.PoisonLast answers := by
  intro k a ha hpoison
  exact absurd hpoison (h a (List.mem_of_getElem? ha))

/-- If the last answer is the only one that calls a batch malformed, its place counts. -/
theorem poisonLast_concat {before : List (Post × Answer)} {last : Post × Answer}
    (hbefore : ∀ a ∈ before, a.2.outcome = .accepted) (hlast : last.2.outcome = .poison) :
    s₀.PoisonLast (before ++ [last]) ↔ before.length+1 = s₀.transport.due.length := by
  constructor
  · intro h
    exact h before.length last (by simp) hlast
  · intro h k a ha hpoison
    rcases Nat.lt_or_ge k before.length with hk | hk
    · rw [List.getElem?_append_left hk] at ha
      have haccepted := hbefore a (List.mem_of_getElem? ha)
      rw [haccepted] at hpoison
      cases hpoison
    · have hlt := (List.getElem?_eq_some_iff.mp ha).1
      simp only [List.length_append,List.length_singleton] at hlt
      omega

/-- What the drain has offered when it ends, in terms of the replies. -/
theorem Offered.offersAll_iff (h : Offered rt s₀ s answers) (hpc : s.pc = .exited)
    (hnodup : (s₀.transport.inflight ++ s₀.transport.buf).Nodup)
    (hdead : s₀.transport.isTerminal = true → s₀.transport.due = [])
    (hserialisable : Serialisable rt s₀.transport.settings.opts
      (s₀.transport.inflight ++ s₀.transport.buf))
    (hrejected : ∀ a ∈ answers, a.2.outcome ≠ .rejected) :
    s₀.OffersAll s ↔
      (s₀.transport.inflight ++ s₀.transport.buf ≠ [] → rt.requestError s₀.url = none) ∧
      s₀.PoisonLast answers := by
  have hrequested (hne : answers ≠ []) : rt.requestError s₀.url = none := by
    apply h.requested
    simp [hne]
  have hall := h.all_iff hpc hnodup
  rw [OffersAll,hall,h.answeredSince_eq,← s₀.transport.due_ne_nil_iff]
  obtain ⟨hfront,hstops⟩ := h.stops (by rw [hpc]; rfl)
  cases hstops with
  | finished haccepted hoffers =>
    have hlength : answers.length = s₀.transport.due.length := by
      rw [← hoffers]
      exact (List.length_map _).symm
    have hlast : s₀.PoisonLast answers := by
      apply poisonLast_of_forall
      intro a ha
      simp [haccepted a ha]
    refine iff_of_true (.inl hlength) ⟨fun hdue => hrequested ?_,hlast⟩
    rintro rfl
    exact hdue hoffers.symm
  | dead hterm =>
    have hdue := hdead hterm
    rw [hdue,List.prefix_nil] at hfront
    have hnil : answers = [] := List.map_eq_nil_iff.mp hfront
    subst hnil
    refine iff_of_true (.inl (by rw [hdue]; rfl)) ⟨fun hne => absurd hdue hne,?_⟩
    exact poisonLast_of_forall (by simp)
  | unserialisable batch hbatch batchID now ids herr =>
    refine absurd (hserialisable batch ?_ batchID now ids) herr
    intro r hr
    rw [← s₀.transport.flatten_due]
    exact List.mem_flatten_of_mem hbatch hr
  | refused hdue hrequest =>
    -- No POST was made at all.
    have hnil : answers = [] := by
      by_contra hne
      exact hrequest (hrequested hne)
    subst hnil
    refine iff_of_false ?_ (fun hholds => hrequest (hholds.1 hdue))
    rintro (hlength | ⟨a,ha,_⟩)
    · exact hdue (List.length_eq_zero_iff.mp hlength.symm)
    · cases ha
  | answered before last hanswers hbefore hlast =>
    subst hanswers
    have hnone := hrequested (by simp)
    cases hout : last.2.outcome with
    | accepted => exact absurd hout hlast
    | rejected => exact absurd hout (hrejected last (by simp))
    | retryable =>
      refine iff_of_true (.inr ⟨last,by simp,hout⟩) ⟨fun _ => hnone,?_⟩
      apply poisonLast_of_forall
      intro a ha
      rcases List.mem_append.mp ha with ha | ha
      · simp [hbefore a ha]
      · simp [List.mem_singleton.mp ha,hout]
    | poison =>
      rw [poisonLast_concat hbefore hout,List.length_append,List.length_singleton]
      have hretry : ¬∃ a ∈ before ++ [last], a.2.outcome = .retryable := by
        rintro ⟨a,ha,hretry⟩
        rcases List.mem_append.mp ha with ha | ha
        · rw [hbefore a ha] at hretry
          cases hretry
        · rw [List.mem_singleton.mp ha,hout] at hretry
          cases hretry
      simp only [hretry,or_false,hnone,implies_true,true_and]

theorem run_due_of_isTerminal (rt : Runtime) (opts : Options) (labels : List Label)
    (h : ((start opts).run rt labels).transport.isTerminal = true) :
    ((start opts).run rt labels).transport.due = [] := by
  obtain ⟨err,herr⟩ := Option.isSome_iff_exists.mp h
  have hterminated := run_terminated rt opts labels herr
  exact Transport.due_eq_nil _ hterminated.buf hterminated.inflight

end Offers

/-- In every run that comes to the drain with serialisable events and from there, without pushes
and without a rejection of the key, to its end: each pending event was offered, or a POST could be
made again, if and only if requests to the endpoint can be built and no batch but the last was
called malformed. -/
theorem drain_offersAll_iff (rt : Runtime) (opts : Options) (before labels : List Label)
    (hpc : ((start opts).run rt before).pc = .drain)
    (hserialisable : Serialisable rt ((start opts).run rt before).transport.settings.opts
      (((start opts).run rt before).transport.inflight ++
        ((start opts).run rt before).transport.buf))
    (hpushes : ∀ l ∈ labels, l.isPush = false)
    (hexited : (((start opts).run rt before).run rt labels).pc = .exited)
    (hrejected : ∀ a ∈ ((start opts).run rt before).answeredSince
      (((start opts).run rt before).run rt labels), a.2.outcome ≠ .rejected) :
    let s₀ := (start opts).run rt before
    let s := s₀.run rt labels
    s₀.OffersAll s ↔
      (s₀.transport.inflight ++ s₀.transport.buf ≠ [] → rt.requestError s₀.url = none) ∧
      ∀ k a, (s₀.answeredSince s)[k]? = some a → a.2.outcome = .poison →
        k+1 = s₀.transport.due.length := by
  intro s₀ s
  obtain ⟨_,answers,hoffered⟩ := run_offered rt hpc hpushes
  have hnodup := (run_pending_nodup rt opts before).of_append_right
  rw [hoffered.answeredSince_eq] at hrejected ⊢
  exact hoffered.offersAll_iff hexited hnodup (run_due_of_isTerminal rt opts before)
    hserialisable hrejected

/-- One flush of the drain up to the answer of its POST. -/
def drainTurns (answer : Answer) : List Label :=
  List.replicate 4 (.loop {}) ++ [.loop { answer := answer }]

/-- The first of two batches is accepted and the last one called malformed. -/
theorem drain_offersAll_poison_last :
    let s₀ := (start { batchSize := 1 }).run .counting
      [.push (requestAt 0),.push (requestAt 1),.stop,.loop { wake := .stop }]
    let s := s₀.run .counting (drainTurns (.status 202) ++ [.loop {}] ++
      drainTurns (.status 400) ++ List.replicate 4 (.loop {}))
    s₀.pc = .drain ∧ s.pc = .exited ∧ s₀.OffersAll s := by
  refine ⟨rfl,rfl,?_⟩
  apply (drain_offersAll_iff .counting _ _ _ rfl (fun _ _ _ _ _ => rfl) ?_ rfl ?_).mpr
  · refine ⟨fun _ => rfl,?_⟩
    intro k a hk hpoison
    match k with
    | 0 =>
      obtain rfl := Option.some.inj hk
      revert hpoison
      decide
    | 1 => decide
    | k+2 => cases hk
  · decide
  · decide

/-- The first of two batches is called malformed, and the second one is never offered. -/
theorem drain_poison_first :
    let s₀ := (start { batchSize := 1 }).run .counting
      [.push (requestAt 0),.push (requestAt 1),.stop,.loop { wake := .stop }]
    let labels := drainTurns (.status 400) ++ List.replicate 4 (.loop {})
    let s := s₀.run .counting labels
    s₀.pc = .drain ∧
    Serialisable .counting s₀.transport.settings.opts
      (s₀.transport.inflight ++ s₀.transport.buf) ∧
    (∀ l ∈ labels, l.isPush = false) ∧ s.pc = .exited ∧
    (∀ a ∈ s₀.answeredSince s, a.2.outcome ≠ .rejected) ∧ ¬s₀.OffersAll s :=
  ⟨rfl,fun _ _ _ _ _ => rfl,by decide,rfl,by decide,by decide⟩

end Agent
end ChainKit.CloudAgent
