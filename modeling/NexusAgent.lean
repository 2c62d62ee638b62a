import NexusAgent.Lib.Text
import NexusAgent.Lib.Json
import NexusAgent.Lib.JsonGlue
import NexusAgent.Lib.Sha256
import NexusAgent.Lib.HashChain
import NexusAgent.Lib.SortedMap
import NexusAgent.Lib.Prog
import NexusAgent.Lib.Within
import NexusAgent.Lib.Contract
import NexusAgent.Lib.Filter
import NexusAgent.Lib.Base64
import NexusAgent.Lib.Utf16
import NexusAgent.Lib.Sql
import NexusAgent.Lib.Overwrite
import NexusAgent.Lib.Mirror
import NexusAgent.Lib.Toml.Strings
import NexusAgent.Lib.Toml.Parser
import NexusAgent.Lib.Toml.Tables
import NexusAgent.Lib.Toml.Document
import NexusAgent.Error
import NexusAgent.Audit
import NexusAgent.Serde
import NexusAgent.AuditChain
import NexusAgent.AuditRuns
import NexusAgent.AuditTamper
import NexusAgent.AuditCrash
import NexusAgent.AuditExact
import NexusAgent.AuditEvidence
import NexusAgent.AuditFailures
import NexusAgent.Wire
import NexusAgent.Crypto
import NexusAgent.Config
import NexusAgent.Effects
import NexusAgent.Server
import NexusAgent.Connector
import NexusAgent.AdMode
import NexusAgent.Runner
import NexusAgent.Frames
import NexusAgent.Binding
import NexusAgent.Batch
import NexusAgent.FindDn
import NexusAgent.Pass
import NexusAgent.Routing
import NexusAgent.ForestRouting
import NexusAgent.Completion
import NexusAgent.Setup
import NexusAgent.Secrets
import NexusAgent.Cycle
import NexusAgent.Ledger
import NexusAgent.Coverage
import NexusAgent.Writes
import NexusAgent.Writeback
import NexusAgent.SetupFile
import NexusAgent.ConfigFile
import NexusAgent.SetupConfig
import NexusAgent.Db
import NexusAgent.DbTable
import NexusAgent.DbMode
import NexusAgent.Accounts
import NexusAgent.FoundAccount
import NexusAgent.Creation
import NexusAgent.ChangeRecord
import NexusAgent.UpdateCount
import NexusAgent.KerberosName
import NexusAgent.SecretFormat
import NexusAgent.SecretDescription
import NexusAgent.SilentNulls
import NexusAgent.Rules
import NexusAgent.Connections
import NexusAgent.Phases
import NexusAgent.BatchOrder
import NexusAgent.Verdicts
import NexusAgent.Access
import NexusAgent.Redacted
import NexusAgent.FeedOrder
import NexusAgent.ServiceLog
import NexusAgent.Redelivery
import NexusAgent.Resent
import NexusAgent.Cli
import NexusAgent.Provision
