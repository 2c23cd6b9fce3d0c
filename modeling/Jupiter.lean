import Jupiter.Evidence.Shutdown
import Jupiter.Limits.InFlight
import Jupiter.Limits.Verdict
import Jupiter.Limits.Agreement
import Jupiter.Limits.Isolation
import Jupiter.Limits.Slots
import Jupiter.Engine.FailOpen
import Jupiter.Engine.Soundness
import Jupiter.Engine.Variables
import Jupiter.Processing.Scanned
import Jupiter.Providers.OpenAI
import Jupiter.Providers.Backoff
import Jupiter.Routing.Affinity
import Jupiter.Routing.Stats
import Jupiter.Routing.Fairness
import Jupiter.Routing.Precedence
import Jupiter.Routing.StickyDiscipline
import Jupiter.Mpl.Meaning
import Jupiter.Mpl.VariableCycles
import Jupiter.Mpl.Composition
import Jupiter.Proxy.Timeout
import Jupiter.Proxy.Handler
import Jupiter.Proxy.LimitsMiddleware
import Jupiter.Manager.Confinement
import Jupiter.Manager.Reproducible
import Jupiter.Manager.Includes
import Jupiter.Manager.Versions
import Jupiter.Security.Freshness
import Jupiter.Git.Changes
import Jupiter.Config.Downgrades
import Jupiter.Engine.Formula
import Jupiter.Engine.Membership
import Jupiter.Processing.Specific
import Jupiter.Limits.Eviction
import Jupiter.Limits.WindowAccuracy
import Jupiter.Limits.Polling
import Jupiter.Providers.Retries
import Jupiter.Mpl.References
import Jupiter.Providers.AnthropicRequest
import Jupiter.Evidence.Streaming
import Jupiter.Evidence.Pages
import Jupiter.Evidence.CsvExport
import Jupiter.Providers.AnthropicEvents
import Jupiter.Engine.Redact
import Jupiter.Telemetry.Redactor
import Jupiter.Security.CacheDiscipline
import Jupiter.Evidence.Retention
import Jupiter.Evidence.KeyIdentity
import Jupiter.Security.EnvProvider
import Jupiter.Providers.Lifecycle
import Jupiter.Manager.WatchedFiles
import Jupiter.Manager.Debouncer
import Jupiter.Mpl.Suggestion
import Jupiter.Security.FileLinks
