import ChainKit.Config

/-! The options of the cloud agent and their defaults. -/
namespace ChainKit.CloudAgent

def DefaultBatchSize : ℤ := 200
def DefaultFlushInterval : ℤ := 5*Duration.second
def DefaultBufferSize : ℤ := 10000
def DefaultPollInterval : ℤ := 30*Duration.second
def DefaultMaxBackoff : ℤ := 5*Duration.minute
def DefaultEventTTL : ℤ := 10*Duration.minute
def DefaultSampleRate : ℚ := 1
def DefaultChain : String := "btc"
def DefaultNetwork : String := "mainnet"

/-- `Options` with Go's zero values. Of the callback only its presence matters. -/
structure Options where
  endpoint : String := ""
  apiKey : String := ""
  batchSize : ℤ := 0
  flushInterval : ℤ := 0
  bufferSize : ℤ := 0
  sampleRate : ℚ := 0
  pollInterval : ℤ := 0
  maxBackoff : ℤ := 0
  eventTTL : ℤ := 0
  chain : String := ""
  network : String := ""
  agentName : String := ""
  onError : Bool := false
  deriving DecidableEq

/-- A number that is not positive is replaced by its default. -/
def orDefault {α : Type} [Zero α] [LE α] [DecidableLE α] (value default : α) : α :=
  if value ≤ 0 then default else value

def orDefaultText (value default : String) : String := if value = "" then default else value

theorem orDefault_pos {α : Type} [Zero α] [LinearOrder α] {value default : α}
    (h : 0 < default) : 0 < orDefault value default := by
  unfold orDefault
  split_ifs with hv
  · exact h
  · exact not_le.mp hv

def Options.withDefaults (o : Options) : Options :=
  { o with
    batchSize := orDefault o.batchSize DefaultBatchSize
    flushInterval := orDefault o.flushInterval DefaultFlushInterval
    bufferSize := orDefault o.bufferSize DefaultBufferSize
    sampleRate := orDefault o.sampleRate DefaultSampleRate
    pollInterval := orDefault o.pollInterval DefaultPollInterval
    maxBackoff := orDefault o.maxBackoff DefaultMaxBackoff
    eventTTL := orDefault o.eventTTL DefaultEventTTL
    chain := orDefaultText o.chain DefaultChain
    network := orDefaultText o.network DefaultNetwork
    agentName := orDefaultText o.agentName "chainkit-go-sdk/dev cloudagent/v1" }

/-- Options as a transport or a poller receives them: every number is positive. -/
structure Settings where
  opts : Options
  batchSize : 0 < opts.batchSize
  flushInterval : 0 < opts.flushInterval
  bufferSize : 0 < opts.bufferSize
  sampleRate : 0 < opts.sampleRate
  pollInterval : 0 < opts.pollInterval
  maxBackoff : 0 < opts.maxBackoff
  eventTTL : 0 < opts.eventTTL

/-- The defaults make any options usable. -/
def Options.settings (o : Options) : Settings where
  opts := o.withDefaults
  batchSize := orDefault_pos (by decide)
  flushInterval := orDefault_pos (by decide)
  bufferSize := orDefault_pos (by decide)
  sampleRate := orDefault_pos one_pos
  pollInterval := orDefault_pos (by decide)
  maxBackoff := orDefault_pos (by decide)
  eventTTL := orDefault_pos (by decide)

namespace Settings
variable (c : Settings)

/-- The sizes as numbers of events. -/
def bufferCap : ℕ := c.opts.bufferSize.toNat

def batchCap : ℕ := c.opts.batchSize.toNat

@[simp] theorem bufferCap_cast : (c.bufferCap : ℤ) = c.opts.bufferSize :=
  Int.toNat_of_nonneg c.bufferSize.le

@[simp] theorem batchCap_cast : (c.batchCap : ℤ) = c.opts.batchSize :=
  Int.toNat_of_nonneg c.batchSize.le

theorem bufferCap_pos : 0 < c.bufferCap := by
  have h := c.bufferSize
  rw [← c.bufferCap_cast] at h
  exact_mod_cast h

theorem batchCap_pos : 0 < c.batchCap := by
  have h := c.batchSize
  rw [← c.batchCap_cast] at h
  exact_mod_cast h

end Settings
end ChainKit.CloudAgent
