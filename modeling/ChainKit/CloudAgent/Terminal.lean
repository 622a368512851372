import ChainKit.CloudAgent.Agent

/-! A rejected API key. The answer, the counter, the batch in flight and the error are dealt with
in separate steps, with pushes and stops in between. -/
namespace ChainKit.CloudAgent
open Lib

namespace Pc

def rejecting : Pc → Bool
  | .discard _ _ terminal => terminal
  | .setTerminal _ _ => true
  | _ => false

/-- Where the loop can stand once the error is recorded. -/
def silent : Pc → Bool
  | .select | .sleep | .prune | .drain | .exited => true
  | .isTerminal _ | .flushed _ _ _ | .reportTerminal _ _ => true
  | _ => false

def reporting : Pc → Option GoError
  | .reportTerminal _ err => some err
  | _ => none

end Pc

/-- What `setTerminal` reports. -/
def announcement (onError : Bool) (err : GoError) : List Notice :=
  .logged .terminal err :: if onError then [.onError .terminal err] else []

namespace Agent

/-- The error is recorded: nothing is left and the loop makes no POST. -/
structure Terminated (err : GoError) (s : Agent) : Prop where
  terminalErr : s.transport.terminalErr = some err
  buf : s.transport.buf = []
  inflight : s.transport.inflight = []
  silent : s.pc.silent = true

section Terminated
variable {rt : Runtime} {s s' : Agent} {x : Turn} {err : GoError}

theorem Flow.silent {t : Transport} {pc pc' : Pc} (h : Flow t pc pc') (ht : t.isTerminal = true)
    (hpc : pc.silent = true) : pc'.silent = true := by
  cases h with
  | stay _ => exact hpc
  | alive caller h => simp [ht] at h
  | crash err panic h => simp [ht] at h
  | failed err h => simp [ht] at h
  | drainFailed pending err err' h => simp [ht] at h
  | _ => rfl

theorem turned_terminated (h : Turned rt x s s') (hs : s.Terminated err) :
    s'.Terminated err := by
  obtain ⟨herr,hbuf,hinflight,hsilent⟩ := hs
  cases h with
  | control backoff signalCh h =>
    exact ⟨herr,hbuf,hinflight,h.silent (s.transport.isTerminal_of_terminalErr herr) hsilent⟩
  | prune h => exact ⟨herr,by simp [Transport.pruneStale,hbuf],hinflight,rfl⟩
  | reportTerminal h => exact ⟨herr,hbuf,hinflight,rfl⟩
  | _ => simp_all [Pc.silent]

theorem push_terminated (hs : s.Terminated err) (e : Event) : (s.push e).Terminated err := by
  have hterm := s.transport.isTerminal_of_terminalErr hs.terminalErr
  obtain ⟨herr,hbuf,hinflight,hsilent⟩ := hs
  refine ⟨?_,?_,?_,hsilent⟩
  · simpa [push] using herr
  · simpa [push,Transport.push,hterm] using hbuf
  · simpa [push,Transport.push,hterm] using hinflight

theorem step_terminated (rt : Runtime) (l : Label) (hs : s.Terminated err) :
    (s.step rt l).Terminated err := by
  apply step_rule
  case hidle => exact hs
  case hpush => exact fun e _ => push_terminated hs e
  case hsignal => exact ⟨hs.terminalErr,hs.buf,hs.inflight,hs.silent⟩
  case hstop => exact fun _ => ⟨hs.terminalErr,hs.buf,hs.inflight,hs.silent⟩
  case hreturn => exact fun _ => ⟨hs.terminalErr,hs.buf,hs.inflight,hs.silent⟩
  case hturn => exact fun x s' _ h => turned_terminated h hs

theorem turned_terminalErr (h : Turned rt x s s') :
    s'.transport.terminalErr = s.transport.terminalErr ∨ ∃ err, s'.Terminated err := by
  cases h with
  | @setTerminal caller err h ht =>
    refine .inr ⟨err,?_,?_,?_,rfl⟩ <;> simp [Transport.setTerminal,ht]
  | _ => exact .inl (by simp [Transport.pruneStale,Transport.countInflight,
      Transport.discardInflight,answered])

/-- Wherever the error is set, it was recorded by `setTerminal`. -/
theorem run_terminated (rt : Runtime) (opts : Options) (labels : List Label) {err : GoError}
    (herr : ((start opts).run rt labels).transport.terminalErr = some err) :
    ((start opts).run rt labels).Terminated err := by
  revert err
  apply run_invariant (I := fun s : Agent =>
    ∀ {err : GoError}, s.transport.terminalErr = some err → s.Terminated err)
  · intro err h
    simp [start] at h
  · intro s l hs err
    apply step_rule (P := fun s' => s'.transport.terminalErr = some err → s'.Terminated err)
    case hidle => exact hs
    case hpush =>
      intro e _ h
      have herr : s.transport.terminalErr = some err := by simpa [push] using h
      exact push_terminated (hs herr) e
    case hsignal => exact fun h => ⟨h,(hs h).buf,(hs h).inflight,(hs h).silent⟩
    case hstop => exact fun _ h => ⟨h,(hs h).buf,(hs h).inflight,(hs h).silent⟩
    case hreturn => exact fun _ h => ⟨h,(hs h).buf,(hs h).inflight,(hs h).silent⟩
    case hturn =>
      intro x s' _ h herr
      rcases turned_terminalErr h with hsame | ⟨err',hs'⟩
      · exact turned_terminated h (hs (hsame ▸ herr))
      · obtain rfl : err' = err := Option.some_injective _ (hs'.terminalErr.symm.trans herr)
        exact hs'

end Terminated

section Rejected
variable {rt : Runtime} {s s' : Agent} {x : Turn}

def Rejected (s : Agent) : Prop := ∃ a ∈ s.history.answered, a.2.outcome = .rejected

/-- The loop is on its way to record the error, or has done so. -/
def Doomed (s : Agent) : Prop :=
  s.pc.rejecting = true ∨ s.transport.isTerminal = true ∧ s.pc.silent = true

theorem Flow.doomed {t : Transport} {pc pc' : Pc} (h : Flow t pc pc')
    (hpc : pc.rejecting = true ∨ t.isTerminal = true ∧ pc.silent = true) :
    pc'.rejecting = true ∨ t.isTerminal = true ∧ pc'.silent = true := by
  rcases hpc with hpc | ⟨hterm,hpc⟩
  · cases h with
    | stay _ => exact .inl hpc
    | again caller err h => exact .inr ⟨h,rfl⟩
    | stop h _ => rcases h with rfl | rfl <;> simp [Pc.rejecting] at hpc
    | _ => simp [Pc.rejecting] at hpc
  · exact .inr ⟨hterm,h.silent hterm hpc⟩

theorem turned_doomed (h : Turned rt x s s') (hs : s.Doomed) :
    s'.Doomed ∧ s'.history.sent = s.history.sent := by
  unfold Doomed at hs ⊢
  cases h with
  | control backoff signalCh h => exact ⟨h.doomed hs,rfl⟩
  | prune h =>
    rw [h] at hs
    exact ⟨.inr ⟨(hs.resolve_left Bool.false_ne_true).1,rfl⟩,rfl⟩
  | @discard caller err terminal h =>
    rw [h] at hs
    have hterminal : terminal = true := by simpa [Pc.rejecting,Pc.silent] using hs
    subst hterminal
    exact ⟨.inl rfl,rfl⟩
  | @setTerminal caller err h ht =>
    have herr := s.transport.setTerminal_terminalErr err ht
    exact ⟨.inr ⟨Transport.isTerminal_of_terminalErr _ herr,rfl⟩,rfl⟩
  | reportTerminal h =>
    rw [h] at hs
    exact ⟨.inr ⟨(hs.resolve_left Bool.false_ne_true).1,rfl⟩,rfl⟩
  | _ => simp_all [Pc.rejecting,Pc.silent]

theorem step_doomed (rt : Runtime) (l : Label) (hs : s.Doomed) :
    (s.step rt l).Doomed ∧ (s.step rt l).history.sent = s.history.sent := by
  apply step_rule (P := fun s' => s'.Doomed ∧ s'.history.sent = s.history.sent)
  case hidle => exact ⟨hs,rfl⟩
  case hpush =>
    intro e _
    refine ⟨?_,rfl⟩
    simpa [Doomed,push,Transport.isTerminal] using hs
  case hsignal => exact ⟨hs,rfl⟩
  case hstop => exact fun _ => ⟨hs,rfl⟩
  case hreturn => exact fun _ => ⟨hs,rfl⟩
  case hturn => exact fun x s' _ h => turned_doomed h hs

theorem run_doomed (rt : Runtime) (labels : List Label) (hs : s.Doomed) :
    (s.run rt labels).Doomed ∧ (s.run rt labels).history.sent = s.history.sent :=
  run_invariant (I := fun s' => s'.Doomed ∧ s'.history.sent = s.history.sent) ⟨hs,rfl⟩
    (fun _ l h => ⟨(step_doomed rt l h.1).1,(step_doomed rt l h.1).2.trans h.2⟩) labels

theorem answered_rejected (post : Post) (answer : Answer) (ingested : Bool) :
    (s.answered post answer ingested).Rejected ↔ s.Rejected ∨ answer.outcome = .rejected := by
  simp [answered,Rejected,or_and_right,exists_or]

/-- A step that receives a rejection leaves the loop on its way to record it. -/
theorem turned_rejected (h : Turned rt x s s') (hs' : s'.Rejected) :
    s.Rejected ∨ s'.Doomed := by
  cases h with
  | @accept caller post h ha =>
    left
    simpa [ha] using (answered_rejected post x.answer x.ingested).mp hs'
  | @retry caller post err h ha =>
    left
    simpa [ha] using (answered_rejected post x.answer x.ingested).mp hs'
  | @giveUp caller post err terminal h ha =>
    cases terminal with
    | true => exact .inr (.inl rfl)
    | false =>
      left
      simpa [ha] using (answered_rejected post x.answer x.ingested).mp hs'
  | _ => exact .inl hs'

theorem step_rejected (rt : Runtime) (l : Label) (hs : s.Rejected → s.Doomed) :
    (s.step rt l).Rejected → (s.step rt l).Doomed := by
  by_cases hr : s.Rejected
  · exact fun _ => (step_doomed rt l (hs hr)).1
  · apply step_rule (P := fun s' => s'.Rejected → s'.Doomed)
    case hidle => exact hs
    case hpush => exact fun e _ h => absurd h hr
    case hsignal => exact fun h => absurd h hr
    case hstop => exact fun _ h => absurd h hr
    case hreturn => exact fun _ h => absurd h hr
    case hturn => exact fun x s' _ h hs' => (turned_rejected h hs').resolve_left hr

theorem run_rejected (rt : Runtime) (opts : Options) (labels : List Label) :
    ((start opts).run rt labels).Rejected → ((start opts).run rt labels).Doomed := by
  apply run_invariant (I := fun s => s.Rejected → s.Doomed)
  · rintro ⟨a,ha,_⟩
    simp [start] at ha
  · exact fun s l hs => step_rejected rt l hs

end Rejected

section Announced
variable {rt : Runtime} {s s' : Agent} {x : Turn}

def terminalNotices (s : Agent) : List Notice :=
  s.history.notices.filter fun n => decide (n.reporter = .terminal)

/-- What `setTerminal` would report for an error, if there is one. -/
def announcements (s : Agent) (err : Option GoError) : List Notice :=
  err.elim [] (announcement s.transport.settings.opts.onError)

/-- The report of a recorded error is made, or is the next step of the loop. -/
def Announced (s : Agent) : Prop :=
  s.terminalNotices ++ s.announcements s.pc.reporting = s.announcements s.transport.terminalErr

theorem report_terminalNotices (reporter : Reporter) (err : GoError) :
    (s.report reporter err).terminalNotices = s.terminalNotices ++
      if reporter = .terminal then announcement s.transport.settings.opts.onError err else [] := by
  cases reporter <;> cases h : s.transport.settings.opts.onError <;>
    simp [report,terminalNotices,announcement,Notice.reporter,h]

theorem Flow.reporting {t : Transport} {pc pc' : Pc} (h : Flow t pc pc') :
    pc'.reporting = pc.reporting := by
  cases h with
  | stop hpc _ => rcases hpc with rfl | rfl <;> rfl
  | _ => rfl

theorem Announced.congr (hs : s.Announced) (hnotices : s'.terminalNotices = s.terminalNotices)
    (hpc : s'.pc.reporting = s.pc.reporting)
    (hsettings : s'.transport.settings = s.transport.settings)
    (herr : s'.transport.terminalErr = s.transport.terminalErr) : s'.Announced := by
  unfold Announced announcements at hs ⊢
  rw [hnotices,hpc,hsettings,herr,hs]

theorem turned_announced (h : Turned rt x s s') (hs : s.Announced) : s'.Announced := by
  cases h with
  | control backoff signalCh h => exact hs.congr rfl h.reporting rfl rfl
  | prune h => exact hs.congr rfl (by rw [h]; rfl) rfl rfl
  | take h => exact hs.congr rfl (by rw [h]; rfl) (by simp) (by simp)
  | serialise h hne hm => exact hs.congr rfl (by rw [h]; rfl) rfl rfl
  | refuse h hne hm hr => exact hs.congr rfl (by rw [h]; rfl) (by simp) (by simp)
  | post h hne hm hr => exact hs.congr rfl (by rw [h]; rfl) rfl rfl
  | accept h ha => exact hs.congr rfl (by rw [h]; rfl) rfl rfl
  | retry err h ha => exact hs.congr rfl (by rw [h]; rfl) (by simp) (by simp)
  | giveUp err terminal h ha => exact hs.congr rfl (by rw [h]; rfl) rfl rfl
  | @discard caller err terminal h =>
    exact hs.congr rfl (by rw [h]; cases terminal <;> rfl) rfl rfl
  | @setTerminal caller err h ht =>
    -- Nothing is reported before, and now the report is due.
    unfold Announced at hs ⊢
    rw [h,s.transport.terminalErr_of_not_isTerminal ht] at hs
    have hnone : s.terminalNotices = [] := (List.append_eq_nil_iff.mp hs).1
    rw [goto_transport,setTransport_transport,s.transport.setTerminal_terminalErr err ht]
    change s.terminalNotices ++ _ = _
    rw [hnone]
    rfl
  | @reportTerminal caller err h =>
    unfold Announced at hs ⊢
    rw [h] at hs
    change (s.report .terminal err).terminalNotices ++ [] = _
    rw [report_terminalNotices,if_pos rfl,List.append_nil]
    exact hs
  | @reportFlush err h =>
    have hnotices : (s.report .flush err).terminalNotices = s.terminalNotices := by
      simp [report_terminalNotices]
    exact hs.congr hnotices (by rw [h]; rfl) rfl rfl
  | setDrainErr h => exact hs.congr rfl (by rw [h]; rfl) rfl rfl
  | @reportDrain err h =>
    have hnotices : (s.report .drain err).terminalNotices = s.terminalNotices := by
      simp [report_terminalNotices]
    exact hs.congr hnotices (by rw [h]; rfl) rfl rfl

theorem run_announced (rt : Runtime) (opts : Options) (labels : List Label) :
    ((start opts).run rt labels).Announced := by
  apply run_invariant
  · rfl
  · intro s l hs
    apply step_rule
    case hidle => exact hs
    case hpush => exact fun e _ => hs.congr rfl rfl (by simp [push]) (by simp [push])
    case hsignal => exact hs.congr rfl rfl rfl rfl
    case hstop => exact fun _ => hs.congr rfl rfl rfl rfl
    case hreturn => exact fun _ => hs.congr rfl rfl rfl rfl
    case hturn => exact fun x s' _ h => turned_announced h hs

theorem Flow.not_reporting {t : Transport} {pc pc' : Pc} (h : Flow t pc pc') :
    pc'.reporting = none := by
  cases h with
  | stay h => cases pc <;> simp_all [Pc.waits,Pc.reporting]
  | _ => rfl

theorem turned_not_reporting (h : Turned rt x s s') {err : GoError} (hs : s.Terminated err) :
    s'.pc.reporting = none := by
  have hsilent := hs.silent
  cases h with
  | control backoff signalCh h => exact h.not_reporting
  | setTerminal h ht => simp [h,Pc.silent] at hsilent
  | @discard caller err terminal h => cases terminal <;> rfl
  | _ => rfl

theorem step_not_reporting (rt : Runtime) (l : Label) {err : GoError} (hs : s.Terminated err)
    (hpc : s.pc.reporting = none) : (s.step rt l).pc.reporting = none := by
  apply step_rule (P := fun s' => s'.pc.reporting = none)
  case hidle => exact hpc
  case hpush => exact fun e _ => hpc
  case hsignal => exact hpc
  case hstop => exact fun _ => hpc
  case hreturn => exact fun _ => hpc
  case hturn => exact fun x s' _ h => turned_not_reporting h hs

end Announced

section Verdicts
variable {rt : Runtime} {s s' : Agent} {x : Turn}

/-- The calls of `Stop` that have returned have got the errors that are set now. -/
def Unanimous (s : Agent) : Prop :=
  ∀ v ∈ s.history.verdicts, s.pc.done = true ∧ v = s.transport.verdict

theorem turned_done (h : Turned rt x s s') (hdone : s.pc.done = true) :
    s'.pc.done = true ∧ s'.transport.verdict = s.transport.verdict := by
  have hpc := Pc.done_iff.mp hdone
  cases h with
  | @control pc backoff signalCh h =>
    rw [hpc] at h
    cases h with
    | stay _ => exact ⟨rfl,rfl⟩
    | stop h _ => rcases h with h | h <;> cases h
  | _ => simp_all

theorem turned_verdicts (h : Turned rt x s s') : s'.history.verdicts = s.history.verdicts := by
  cases h <;> rfl

theorem run_unanimous (rt : Runtime) (opts : Options) (labels : List Label) :
    ((start opts).run rt labels).Unanimous := by
  apply run_invariant
  · intro v hv
    simp [start] at hv
  · intro s l hs
    apply step_rule
    case hidle => exact hs
    case hpush =>
      intro e _ v hv
      refine ⟨(hs v hv).1,?_⟩
      simpa [push,Transport.verdict] using (hs v hv).2
    case hsignal => exact hs
    case hstop => exact fun _ => hs
    case hreturn =>
      intro hdone v hv
      refine ⟨hdone,?_⟩
      rcases List.mem_append.mp hv with hv | hv
      · exact (hs v hv).2
      · exact List.mem_singleton.mp hv
    case hturn =>
      intro x s' _ h v hv
      rw [turned_verdicts h] at hv
      obtain ⟨hdone,hv⟩ := hs v hv
      obtain ⟨hdone',hverdict⟩ := turned_done h hdone
      exact ⟨hdone',hv.trans hverdict.symm⟩

end Verdicts

theorem Terminated.not_crash {s : Agent} {err : GoError} (hs : s.Terminated err) :
    s.pc.crash = false := by
  have hsilent := hs.silent
  cases hpc : s.pc <;> simp_all [Pc.silent,Pc.crash]

theorem Terminated.step_push {s : Agent} {err : GoError} (hs : s.Terminated err) (rt : Runtime)
    (e : Event) : s.step rt (.push e) = { s with
      transport := { s.transport with dropped := s.transport.dropped+1 }
      history := { s.history with
        pushed := s.history.pushed ++ [⟨s.history.pushed.length,e⟩] } } := by
  have hterm := s.transport.isTerminal_of_terminalErr hs.terminalErr
  simp [step,hs.not_crash,push,Transport.push,hterm]

/-- After the error is recorded, every state of the run is terminated, and the report is made as
soon as the loop has taken a step. -/
theorem run_from_terminated {rt : Runtime} {s : Agent} {err : GoError} (hs : s.Terminated err)
    (after : List Label) : (s.run rt after).Terminated err ∧
      ((∃ x, .loop x ∈ after) → (s.run rt after).pc.reporting = none) := by
  induction after using List.reverseRecOn with
  | nil => exact ⟨hs,by simp⟩
  | append_singleton after l ih =>
    obtain ⟨hterminated,hreported⟩ := ih
    rw [run_concat]
    refine ⟨step_terminated rt l hterminated,?_⟩
    rintro ⟨x,hx⟩
    rcases List.mem_append.mp hx with hx | hx
    · exact step_not_reporting rt l hterminated (hreported ⟨x,hx⟩)
    · obtain rfl := List.mem_singleton.mp hx
      simp only [step,hterminated.not_crash,Bool.false_eq_true,if_false]
      exact turned_not_reporting (turn_turned rt _ x) hterminated

/-- Once a POST is answered 401 or 403, no further POST is made. Once the error is recorded, it
stays, nothing is buffered or in flight, a push only counts as dropped, the error is reported
exactly once, and every `Stop` returns it. -/
theorem rejection_final (rt : Runtime) (opts : Options) (before after : List Label) :
    let s := (start opts).run rt before
    let s' := s.run rt after
    (∀ post code, (post,Answer.status code) ∈ s.history.answered → code = 401 ∨ code = 403 →
      s'.history.sent = s.history.sent) ∧
    ∀ err, s.transport.terminalErr = some err →
      s'.transport.terminalErr = some err ∧ s'.transport.buf = [] ∧ s'.transport.inflight = [] ∧
      (∀ e, s'.step rt (.push e) = { s' with
        transport := { s'.transport with dropped := s'.transport.dropped+1 }
        history := { s'.history with
          pushed := s'.history.pushed ++ [⟨s'.history.pushed.length,e⟩] } }) ∧
      s'.terminalNotices <+: announcement opts.onError err ∧
      ((∃ x, Label.loop x ∈ after) → s'.terminalNotices = announcement opts.onError err) ∧
      ∀ v ∈ s'.history.verdicts, v = some err := by
  intro s s'
  have hrun : s' = (start opts).run rt (before ++ after) := (run_append before after).symm
  refine ⟨?_,?_⟩
  · intro post code hmem hcode
    have hrejected : s.Rejected := by
      refine ⟨_,hmem,?_⟩
      rcases hcode with rfl | rfl <;> rfl
    exact (run_doomed rt after (run_rejected rt opts before hrejected)).2
  · intro err herr
    obtain ⟨hs',hreported⟩ := run_from_terminated (run_terminated rt opts before herr) after
    have hunanimous : s'.Unanimous := hrun ▸ run_unanimous rt opts (before ++ after)
    have hannounced : s'.terminalNotices ++ s'.announcements s'.pc.reporting =
        announcement opts.onError err := by
      have h : s'.Announced := hrun ▸ run_announced rt opts (before ++ after)
      have hsettings : s'.transport.settings = opts.settings := hrun ▸ run_settings rt _
      unfold Announced at h
      rw [h,hs'.terminalErr,announcements,hsettings]
      rfl
    refine ⟨hs'.terminalErr,hs'.buf,hs'.inflight,hs'.step_push rt,⟨_,hannounced⟩,?_,?_⟩
    · intro hloop
      rw [hreported hloop] at hannounced
      simpa [announcements] using hannounced
    · intro v hv
      rw [(hunanimous v hv).2,Transport.verdict,hs'.terminalErr]
      rfl

def rejected : Agent :=
  (start { onError := true }).run .counting
    (.push (requestAt 0) :: flushTurns (.status 401) ++ [.push (requestAt 0),.loop {}])

def afterRejection : List Label :=
  [.loop {},.push (requestAt 0),.stop,.loop {},.loop { wake := .stop },.loop {},.returnStop]

theorem rejection_final_unauthorized :
    rejected.transport.isTerminal = true ∧
      (rejected.run .counting afterRejection).transport.dropped = 3 ∧
      (rejected.run .counting afterRejection).history.verdicts.length = 1 ∧
      (rejected.run .counting afterRejection).history.sent = rejected.history.sent ∧
      ∀ err, rejected.transport.terminalErr = some err →
        (rejected.run .counting afterRejection).terminalNotices = announcement true err ∧
        ∀ v ∈ (rejected.run .counting afterRejection).history.verdicts, v = some err := by
  obtain ⟨hsent,hterminal⟩ := rejection_final .counting { onError := true }
    (.push (requestAt 0) :: flushTurns (.status 401) ++ [.push (requestAt 0),.loop {}])
    afterRejection
  have hanswer : ∃ a ∈ rejected.history.answered, a.2 = .status 401 := by decide
  obtain ⟨⟨post,_⟩,hmem,rfl⟩ := hanswer
  refine ⟨by decide,by decide,by decide,hsent post 401 hmem (.inl rfl),?_⟩
  intro err herr
  obtain ⟨_,_,_,_,_,hnotices,hverdicts⟩ := hterminal err herr
  exact ⟨hnotices ⟨{},List.mem_cons_self⟩,hverdicts⟩

end Agent
end ChainKit.CloudAgent
