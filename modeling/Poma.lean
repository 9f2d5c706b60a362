import Poma.Interaction.Execution
import Poma.Core.Text
import Poma.Json.Strings
import Poma.Json.Numbers
import Poma.Json.Values
import Poma.Storage.Lines
import Poma.Storage.Keys
import Poma.Storage.KeyedLog
import Poma.Models.LedgerFile
import Poma.Models.Settings
import Poma.Models.Lifecycle
import Poma.Models.OrderStore
import Poma.Broker.Protocol
import Poma.Broker.IbkrQueries
import Poma.Execution.Pricing
import Poma.Manager.Submission
import Poma.Manager.StaleOrders
import Poma.Engine.Rebalance
import Poma.Correctness.Blocking
import Poma.Correctness.Sessions
import Poma.Correctness.Retries
import Poma.Correctness.Judgement
import Poma.Correctness.Ceiling
import Poma.Correctness.Identity
import Poma.Correctness.Durability
import Poma.Correctness.Limits
import Poma.Correctness.Quotes
import Poma.Correctness.Affordability
import Poma.Correctness.Planning
import Poma.Correctness.Overshoot
import Poma.Correctness.Certification
import Poma.Correctness.Audit
import Poma.Correctness.Repricing
import Poma.Correctness.Accounting
import Poma.Correctness.Completion
import Poma.Correctness.Planned
import Poma.Correctness.Restore
import Poma.Correctness.Absence
import Poma.Correctness.FollowUp
import Poma.Broker.Venues
import Poma.Correctness.Venues
import Poma.Correctness.Fills
import Poma.Core.Joined
import Poma.Correctness.References
import Poma.Engine.Portfolio
import Poma.Numeric.Groups
import Poma.Correctness.Capital
import Poma.Correctness.Merging
import Poma.Core.Numerals
import Poma.Broker.Accounts
import Poma.Correctness.Balances
import Poma.Engine.ExecutionCosts
import Poma.Core.Lists
import Poma.Correctness.Costs
import Poma.Host.Outbox
import Poma.Correctness.Messages
import Poma.Numeric.Ordered
import Poma.Engine.Strategy
import Poma.Correctness.Issuers
import Poma.Interaction.Lockstep
import Poma.Core.RateLimits
import Poma.Host.Watchdog
import Poma.Correctness.Restarts
import Poma.Engine.Trend
import Poma.Correctness.Trend
import Poma.Correctness.Independence
import Poma.Host.Resolver
import Poma.Correctness.Resolutions
import Poma.Correctness.Trimming
import Poma.Correctness.Funding
import Poma.Correctness.Naming
import Poma.Correctness.Absorbing
import Poma.Interaction.Loops
import Poma.Correctness.Separation
import Poma.Correctness.Endings
import Poma.Correctness.Lifetimes
import Poma.Correctness.Handovers
import Poma.Correctness.Resubmissions
import Poma.Broker.Exchange
import Poma.Correctness.Exposure
import Poma.Engine.Selection
import Poma.Engine.Strategies
import Poma.Engine.BuildPlan
import Poma.Numeric.Ranking
import Poma.Correctness.Selection
import Poma.Correctness.Sleeves
import Poma.Correctness.Plans
import Poma.Correctness.PlanLimits
import Poma.Correctness.Batches
import Poma.Correctness.Approvals
import Poma.Correctness.Listing
