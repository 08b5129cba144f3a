import EkaCI.Graph.Eviction
import EkaCI.Graph.RefCounts
import EkaCI.Scheduler.SuccessStability
import EkaCI.Scheduler.Outcome
import EkaCI.Scheduler.RetryBudget
import EkaCI.Scheduler.Sweep
import EkaCI.Scheduler.Recovery
import EkaCI.Scheduler.Cooldown
import EkaCI.Scheduler.BuilderPool
import EkaCI.Scheduler.BuildQueue
import EkaCI.Channels.Accounting
import EkaCI.Channels.LatestWins
import EkaCI.Services.Delivery
import EkaCI.Nix.Closure
import EkaCI.Services.Checks
import EkaCI.Services.OwnQueue
import EkaCI.Scheduler.MutualWait
import EkaCI.Forge.Shown
import EkaCI.Git.Checkout
import EkaCI.Git.Revision
import EkaCI.Forge.Withdrawal
import EkaCI.Jobs.RuntimeRefs
import EkaCI.Jobs.SizeChecks
import EkaCI.Channels.PushRouting
import EkaCI.Graph.EvictionPolicy
import EkaCI.Scheduler.Substitution
import EkaCI.Forge.Identities
import EkaCI.Forge.WebhookAuthenticity
import EkaCI.Forge.Cancellation
import EkaCI.Forge.GateRuns
import EkaCI.Forge.Approvals
import EkaCI.Forge.BranchPatterns
import EkaCI.Channels.Isolation
import EkaCI.Forge.CommentParsers
import EkaCI.Sandbox.Mounts
import EkaCI.Sandbox.LinkedGit
import EkaCI.Jobs.CacheDestinations
import EkaCI.Nix.PassthruMeaning
import EkaCI.Channels.Reading
import EkaCI.Channels.Decisions
import EkaCI.Jobs.EvalOutput
import EkaCI.Services.BuildLogs
import EkaCI.Forge.PassthruFilter
import EkaCI.Nix.DryRun
import EkaCI.Jobs.ImpactCache
import EkaCI.Forge.GraphqlBatch
import EkaCI.Forge.CommandRateLimit
import EkaCI.Scheduler.BuilderArgs
import EkaCI.Nix.DrvIdCopies
import EkaCI.Jobs.HookExpansion
import EkaCI.Ai.Verdict
import EkaCI.Nix.Reconstitution
import EkaCI.Scheduler.BuildLoop
import EkaCI.Jobs.UnknownKeys
import EkaCI.Forge.VariantAgreement
import EkaCI.Jobs.ChangeOrder
import EkaCI.Sandbox.Handshake
import EkaCI.Forge.Sessions
import EkaCI.Sandbox.Seatbelt
import EkaCI.Design.Refinement
import EkaCI.Scheduler.RebuildAll
import EkaCI.Services.WebSocket
