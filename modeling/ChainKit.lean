import ChainKit.Circuit.LockOut
import ChainKit.Circuit.OpenPeriod
import ChainKit.Circuit.HalfOpen
import ChainKit.Interleaving.ConfigUpdate
import ChainKit.Selection.Installed
import ChainKit.Selection.Adaptive
import ChainKit.CloudAgent.Idempotence
import ChainKit.Scoring.Store.Coherence
import ChainKit.Scoring.Store.RecentPenalties
import ChainKit.Scoring.Store.Lock
import ChainKit.Scoring.Unregister
import ChainKit.Scoring.Warming
import ChainKit.RateLimit.BurstBound
import ChainKit.RunOp.Backoff
import ChainKit.Selection.Sorted
import ChainKit.Selection.RoundRobin
import ChainKit.Circuit.AuthCounter
import ChainKit.Circuit.Disabled
import ChainKit.RunOp.Cancellation
import ChainKit.RunOp.AuthRetry
import ChainKit.Scoring.SharedTracker
import ChainKit.Scoring.Recovery
import ChainKit.Scoring.Classification
import ChainKit.Scoring.PenaltyQuery
import ChainKit.Scoring.Reported
import ChainKit.Scoring.Windows
import ChainKit.Payment.Header
import ChainKit.Payment.Link
import ChainKit.Bitcoin.Selection
import ChainKit.Bitcoin.SigningKey
import ChainKit.Bitcoin.Confirmations
import ChainKit.Bitcoin.Address
import ChainKit.CloudAgent.PollLifecycle
import ChainKit.CloudAgent.DrainOffers
import ChainKit.CloudAgent.Ids
import ChainKit.RunOp.ProviderExists
import ChainKit.Bitcoin.ReadBack
import ChainKit.CloudAgent.Telemetry
import ChainKit.Facade.Completion
import ChainKit.Facade.Debug
import ChainKit.Scoring.Linearizable
import ChainKit.Bitcoin.TokenRenewal
import ChainKit.CloudAgent.Replication
