import Slas.Lib.Crash
import Slas.Lib.Ends
import Slas.Lib.ReadModifyWrite
import Slas.Lib.Sections
import Slas.Lib.Placeholders
import Slas.Lib.Occurrences
import Slas.Lib.Json
import Slas.Lib.JsonText
import Slas.Lib.DateTime
import Slas.Lib.Lines
import Slas.Lib.Text
import Slas.Lib.Base64
import Slas.Lib.Except
import Slas.Lib.Patterns
import Slas.Lib.Codec
import Slas.Lib.ReplayGuard
import Slas.Lib.Trace
import Slas.Lib.Volume
import Slas.Lib.Runs
import Slas.Lib.Dict
import Slas.Lib.Disk
import Slas.Lib.Counter
import Slas.Schemas.Basic
import Slas.Schemas.Ticket
import Slas.Kernel.JournalFile
import Slas.Kernel.JournalRoundTrip
import Slas.Triage.Dedup
import Slas.Kernel.Rca
import Slas.Kernel.World
import Slas.Kernel.Kernel
import Slas.Kernel.Diagnosis
import Slas.Kernel.Moves
import Slas.Kernel.Refine
import Slas.Kernel.RefineCalls
import Slas.Kernel.Approvals
import Slas.Kernel.RcaServices
import Slas.Kernel.StepOrder
import Slas.Kernel.Holding
import Slas.Kernel.HoldingCalls
import Slas.Kernel.BugTickets
import Slas.Kernel.Closing
import Slas.Kernel.Leases
import Slas.Kernel.NextStep
import Slas.Kernel.Lifecycle
import Slas.Validation.Primitives
import Slas.Validation.Cycle
import Slas.Validation.Executor
import Slas.Validation.Frame
import Slas.Validation.PowerOnce
import Slas.Validation.BootGate
import Slas.Validation.StartRun
import Slas.Validation.SuiteText
import Slas.Validation.SuiteItems
import Slas.Validation.SuiteView
import Slas.Validation.RoundTrip
import Slas.Validation.Leased
import Slas.Validation.Compiler
import Slas.Validation.Brackets
import Slas.Validation.Returned
import Slas.Skills.Values
import Slas.Skills.Templates
import Slas.Skills.Schema
import Slas.Skills.Compiler
import Slas.Skills.Runner
import Slas.Skills.Expansion
import Slas.Skills.Turns
import Slas.Skills.Rendering
import Slas.Skills.Risks
import Slas.Skills.Secrets
import Slas.Skills.Conditions
import Slas.Skills.Guards
import Slas.Skills.Variables
import Slas.Skills.Substitution
import Slas.Skills.Answers
import Slas.Skills.Handles
import Slas.Skills.Gate
import Slas.Skills.Enablement
import Slas.Factory.Templates
import Slas.Factory.Protocol
import Slas.Factory.Runner
import Slas.Factory.Plant
import Slas.Factory.Executor
import Slas.Factory.Frame
import Slas.Factory.Evidence
import Slas.Factory.Held
import Slas.Factory.FreshIds
import Slas.Factory.OnLease
import Slas.Factory.Enrolment
import Slas.Factory.SkillBatches
import Slas.Factory.SkillSecrets
import Slas.Factory.Mes
import Slas.Llm.Breaker
import Slas.Llm.Client
import Slas.Llm.Structured
import Slas.Llm.Consensus
import Slas.Llm.Gateway
import Slas.Llm.Dialogue
import Slas.Llm.Redaction
import Slas.Llm.CrossCheck
import Slas.Llm.Budget
import Slas.Llm.Trials
import Slas.Git.Credentials
import Slas.Git.Gate
import Slas.Git.Push
import Slas.Git.History
import Slas.Git.Remotes
import Slas.Git.Audit
import Slas.Coding.Agent
import Slas.Coding.StartTask
import Slas.Coding.Executor
import Slas.Coding.Recovery
import Slas.Coding.RemoveTask
import Slas.Models.Registry
import Slas.Models.RegistryFile
import Slas.Fetch.Hub
import Slas.Fetch.Fetcher
import Slas.Fetch.Confined
import Slas.Fetch.Sums
import Slas.Fetch.Verified
import Slas.Fetch.Agreement
import Slas.Fetch.Commit
import Slas.Lib.Load
import Slas.Models.Placement
import Slas.Models.Runtime
import Slas.Models.Plan
import Slas.Models.Learnt
import Slas.Models.Swap
import Slas.Lib.First
import Slas.Observability.Alerts
import Slas.Observability.Landed
import Slas.Observability.Resolved
import Slas.Screen.Driver
import Slas.Screen.Focus
import Slas.Rag.Retriever
import Slas.Rag.Atomic
import Slas.Lib.PurePath
import Slas.Sandbox.Spec
import Slas.Sandbox.Manager
import Slas.Sandbox.Tracked
import Slas.Sandbox.InUse
import Slas.Lib.Pool
import Slas.Api.People
import Slas.Api.LastAdmin
import Slas.Api.Passwords
import Slas.Api.OldSessions
import Slas.Api.Throttle
import Slas.Sandbox.Workspaces
import Slas.Lib.Regex
import Slas.Sop.Glossary
import Slas.Sop.Protect
import Slas.Sop.Translate
import Slas.Triage.Merging
import Slas.Kernel.Attach
import Slas.Skills.ValueSafe
import Slas.Skills.Scoping
import Slas.Skills.OwnWords
import Slas.Validation.Faithful
import Slas.Validation.Intake
import Slas.Lib.JsonSchema
import Slas.Llm.SchemaCheck
import Slas.Lib.General
import Slas.Diff.Snapshots
import Slas.Diff.Exact
import Slas.Lib.Separators
import Slas.Triage.Fingerprint
import Slas.Triage.LinkFindings
import Slas.Git.Shapes
import Slas.Git.DiffScan
import Slas.Git.Gitleaks
import Slas.Git.QuotedNames
import Slas.Lib.LinkTree
import Slas.Git.Links
import Slas.Models.PlacementResult
import Slas.Models.SameServer
import Slas.Schemas.EnvFile
import Slas.Lib.Url
import Slas.Git.ParseUri
import Slas.Lib.Pages
import Slas.Lib.PyJson
import Slas.Hal.Redfish
import Slas.Hal.SelPages
import Slas.Lib.YamlScalars
import Slas.Lib.YamlNumbers
import Slas.Screen.RateLimiter
import Slas.Lib.RegexLanguage
import Slas.Rag.Chunking
import Slas.Container.Logs
import Slas.Lib.JsonSpaced
import Slas.Lib.JsonLines
import Slas.Git.Redact
import Slas.Git.AuditLog
import Slas.Fetch.Downloads
import Slas.Lib.GitConfig
import Slas.Sandbox.Gitconfig
import Slas.Sop.Lossless
import Slas.Lib.FileTree
import Slas.Coding.ApplyEdits
import Slas.Models.CrashLoops
import Slas.Models.SwapRuns
