import ChainKit.CloudAgent.Wire
import ChainKit.Lib.Outbox

/-! The state of the HTTP transport and what each critical section of the source does to it. Each
of them is a move of an outbox. -/
namespace ChainKit.CloudAgent
open Lib

/-- A pushed event. Its number in the order of pushes is not part of the source; it tells equal
events apart. -/
structure Recorded where
  seq : ℕ
  event : Event
  deriving DecidableEq

/-- `httpTransport`. `signalCh` says that a signal is buffered and `stopCh` that the channel is
closed. -/
structure Transport where
  settings : Settings
  buf : List Recorded := []
  inflight : List Recorded := []
  terminalErr : Option GoError := none
  drainErr : Option GoError := none
  dropped : ℕ := 0
  signalCh : Bool := false
  stopCh : Bool := false

namespace Transport

def isTerminal (t : Transport) : Bool := t.terminalErr.isSome

/-- The critical section of `Push`, and whether the loop is to be signalled. -/
def push (t : Transport) (r : Recorded) : Transport × Bool :=
  if t.isTerminal then ({ t with dropped := t.dropped+1 },false)
  else if t.settings.bufferCap ≤ t.buf.length then
    ({ t with buf := t.buf.tail ++ [r], dropped := t.dropped+1 },
      decide (t.settings.batchCap ≤ (t.buf.tail ++ [r]).length))
  else
    ({ t with buf := t.buf ++ [r] },decide (t.settings.batchCap ≤ (t.buf ++ [r]).length))

def stale (t : Transport) (now : ℤ) : ℕ :=
  (t.buf.takeWhile fun r => decide (r.event.capturedAt < now-t.settings.opts.eventTTL)).length

def pruneStale (t : Transport) (now : ℤ) : Transport :=
  { t with buf := t.buf.drop (t.stale now), dropped := t.dropped+t.stale now }

def takeInflight (t : Transport) : Transport :=
  if t.inflight ≠ [] then t
  else
    let n := min t.buf.length t.settings.batchCap
    { t with inflight := t.buf.take n, buf := t.buf.drop n }

/-- `t.dropped.Add(uint64(len(t.inflight)))`, a step of its own. -/
def countInflight (t : Transport) : Transport :=
  { t with dropped := t.dropped+t.inflight.length }

def discardInflight (t : Transport) : Transport := { t with inflight := [] }

/-- The number of events that `returnInflightToHead` drops. -/
def overflow (t : Transport) : ℕ :=
  if t.inflight = [] then 0 else (t.inflight ++ t.buf).length-t.settings.bufferCap

def returnInflightToHead (t : Transport) : Transport :=
  if t.inflight = [] then t
  else
    { t with
      buf := (t.inflight ++ t.buf).drop t.overflow
      dropped := t.dropped+t.overflow
      inflight := [] }

/-- The critical section of `setTerminal`. -/
def setTerminal (t : Transport) (err : GoError) : Transport :=
  if t.isTerminal then t
  else
    { t with
      terminalErr := some err
      buf := []
      inflight := []
      dropped := t.dropped+(t.buf.length+t.inflight.length) }

/-- What `Stop` returns once the loop has exited. -/
def verdict (t : Transport) : Option GoError := t.terminalErr.or t.drainErr

/-- The transport as an outbox, for events pushed and accepted so far. -/
def outbox (t : Transport) (pushed accepted : List Recorded) (counted : Bool) :
    Outbox Recorded where
  entered := pushed
  delivered := accepted
  held := t.inflight
  waiting := t.buf
  lost := t.dropped
  writtenOff := counted

section Moves
variable (t : Transport) (pushed accepted : List Recorded)

/-- A move of an outbox with the sizes of the transport. -/
abbrev Moves (o o' : Outbox Recorded) : Prop :=
  Outbox.Move t.settings.bufferCap t.settings.batchCap o o'

@[simp] theorem push_settings (r : Recorded) : (t.push r).1.settings = t.settings := by
  unfold push
  split_ifs <;> rfl

@[simp] theorem takeInflight_settings : t.takeInflight.settings = t.settings := by
  unfold takeInflight
  split_ifs <;> rfl

@[simp] theorem returnInflightToHead_settings :
    t.returnInflightToHead.settings = t.settings := by
  unfold returnInflightToHead
  split_ifs <;> rfl

@[simp] theorem setTerminal_settings (err : GoError) :
    (t.setTerminal err).settings = t.settings := by
  unfold setTerminal
  split_ifs <;> rfl

theorem push_moves (r : Recorded) (counted : Bool) :
    t.Moves (t.outbox pushed accepted counted)
      ((t.push r).1.outbox (pushed ++ [r]) accepted counted) := by
  unfold push
  split_ifs with hterm hfull
  · exact .refuse r
  · have hne : t.buf ≠ [] := by
      rintro hnil
      have := t.settings.bufferCap_pos
      rw [hnil,List.length_nil] at hfull
      omega
    exact .displace r hne
  · exact .enter r (not_le.mp hfull)

theorem push_discardInflight (r : Recorded) :
    (t.push r).1.discardInflight = (t.discardInflight.push r).1 := by
  have hterm : t.discardInflight.isTerminal = t.isTerminal := rfl
  have hbuf : t.discardInflight.buf = t.buf := rfl
  have hsettings : t.discardInflight.settings = t.settings := rfl
  unfold push
  rw [hterm,hbuf,hsettings]
  split_ifs <;> rfl

theorem stale_le (now : ℤ) : t.stale now ≤ t.buf.length :=
  (List.takeWhile_sublist _).length_le

theorem pruneStale_moves (now : ℤ) (counted : Bool) :
    t.Moves (t.outbox pushed accepted counted)
      ((t.pruneStale now).outbox pushed accepted counted) :=
  .shed (t.stale now) (t.stale_le now)

theorem takeInflight_moves :
    t.Moves (t.outbox pushed accepted false) (t.takeInflight.outbox pushed accepted false) := by
  unfold takeInflight
  split_ifs with h
  · exact .idle
  · exact .take (min t.buf.length t.settings.batchCap) (min_le_right _ _) (not_not.mp h) rfl

theorem countInflight_moves :
    t.Moves (t.outbox pushed accepted false) (t.countInflight.outbox pushed accepted true) :=
  .writeOff rfl

theorem discardInflight_moves :
    t.Moves (t.outbox pushed accepted true) (t.discardInflight.outbox pushed accepted false) :=
  .release rfl

theorem accept_moves :
    t.Moves (t.outbox pushed accepted false)
      (t.discardInflight.outbox pushed (accepted ++ t.inflight) false) :=
  .commit rfl

theorem returnInflightToHead_moves :
    t.Moves (t.outbox pushed accepted false)
      (t.returnInflightToHead.outbox pushed accepted false) := by
  unfold returnInflightToHead
  split_ifs with h
  · exact .idle
  · simp only [overflow,if_neg h]
    exact .restore rfl

theorem setTerminal_moves (err : GoError) :
    t.Moves (t.outbox pushed accepted false)
      ((t.setTerminal err).outbox pushed accepted false) := by
  unfold setTerminal
  split_ifs with h
  · exact .idle
  · exact .clear rfl

end Moves

section Dropped
variable (t : Transport)

@[simp] theorem takeInflight_dropped : t.takeInflight.dropped = t.dropped := by
  unfold takeInflight
  split_ifs <;> rfl

@[simp] theorem returnInflightToHead_dropped :
    t.returnInflightToHead.dropped = t.dropped+t.overflow := by
  unfold returnInflightToHead
  split_ifs with h
  · simp [overflow,h]
  · rfl

end Dropped

section Stopped
variable (t : Transport)

@[simp] theorem push_stopCh (r : Recorded) : (t.push r).1.stopCh = t.stopCh := by
  unfold push
  split_ifs <;> rfl

@[simp] theorem takeInflight_stopCh : t.takeInflight.stopCh = t.stopCh := by
  unfold takeInflight
  split_ifs <;> rfl

@[simp] theorem returnInflightToHead_stopCh : t.returnInflightToHead.stopCh = t.stopCh := by
  unfold returnInflightToHead
  split_ifs <;> rfl

@[simp] theorem setTerminal_stopCh (err : GoError) : (t.setTerminal err).stopCh = t.stopCh := by
  unfold setTerminal
  split_ifs <;> rfl

end Stopped

section Errors
variable (t : Transport)

@[simp] theorem push_terminalErr (r : Recorded) :
    (t.push r).1.terminalErr = t.terminalErr := by
  unfold push
  split_ifs <;> rfl

@[simp] theorem takeInflight_terminalErr : t.takeInflight.terminalErr = t.terminalErr := by
  unfold takeInflight
  split_ifs <;> rfl

@[simp] theorem returnInflightToHead_terminalErr :
    t.returnInflightToHead.terminalErr = t.terminalErr := by
  unfold returnInflightToHead
  split_ifs <;> rfl

@[simp] theorem push_drainErr (r : Recorded) : (t.push r).1.drainErr = t.drainErr := by
  unfold push
  split_ifs <;> rfl

theorem setTerminal_terminalErr (err : GoError) (h : t.isTerminal = false) :
    (t.setTerminal err).terminalErr = some err := by
  rw [setTerminal,h]
  rfl

theorem isTerminal_of_terminalErr {err : GoError} (h : t.terminalErr = some err) :
    t.isTerminal = true := by
  rw [isTerminal,h]
  rfl

theorem terminalErr_of_not_isTerminal (h : t.isTerminal = false) : t.terminalErr = none := by
  simpa [isTerminal] using h

end Errors
end Transport
end ChainKit.CloudAgent
