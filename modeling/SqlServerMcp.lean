import SqlServerMcp.AddressTexts
import SqlServerMcp.ApiClient
import SqlServerMcp.Arguments
import SqlServerMcp.AssocMap
import SqlServerMcp.AuthManager
import SqlServerMcp.AuthStrategies
import SqlServerMcp.BreakerHistory
import SqlServerMcp.Calendar
import SqlServerMcp.CallTool
import SqlServerMcp.CatalogCalls
import SqlServerMcp.CircuitBreaker
import SqlServerMcp.ColumnTypes
import SqlServerMcp.ConfigManager
import SqlServerMcp.ConfigSchema
import SqlServerMcp.CosineRanking
import SqlServerMcp.CredentialDisk
import SqlServerMcp.CredentialEntries
import SqlServerMcp.CredentialFile
import SqlServerMcp.CredentialStorage
import SqlServerMcp.CriticalSections
import SqlServerMcp.DataStore
import SqlServerMcp.DecimalParams
import SqlServerMcp.Decimals
import SqlServerMcp.DeclaredTypes
import SqlServerMcp.Document
import SqlServerMcp.ExactNumerics
import SqlServerMcp.FixedWidth
import SqlServerMcp.FixedWidthHeaders
import SqlServerMcp.FmtonlyDump
import SqlServerMcp.FunctionCalls
import SqlServerMcp.Generator
import SqlServerMcp.Grouping
import SqlServerMcp.HarnessServer
import SqlServerMcp.HealthChecks
import SqlServerMcp.HostTexts
import SqlServerMcp.HttpServer
import SqlServerMcp.Interruptions
import SqlServerMcp.IsoTexts
import SqlServerMcp.JsonDump
import SqlServerMcp.JsonSchema
import SqlServerMcp.JsonTexts
import SqlServerMcp.JsonValue
import SqlServerMcp.KeyedCache
import SqlServerMcp.LastWrite
import SqlServerMcp.MarkedBlocks
import SqlServerMcp.NearestNeighbours
import SqlServerMcp.Operations
import SqlServerMcp.PopulateEmbeddings
import SqlServerMcp.PopulateRun
import SqlServerMcp.QualifiedNames
import SqlServerMcp.QueryCache
import SqlServerMcp.QuotedWords
import SqlServerMcp.Ranking
import SqlServerMcp.RateLimiter
import SqlServerMcp.ResponseSchemas
import SqlServerMcp.RowObjects
import SqlServerMcp.RowOrder
import SqlServerMcp.Sanitizer
import SqlServerMcp.SearchTool
import SqlServerMcp.ServerAddress
import SqlServerMcp.SetupCredentials
import SqlServerMcp.SetupWizard
import SqlServerMcp.SharedFiles
import SqlServerMcp.ShellWords
import SqlServerMcp.SimpleParams
import SqlServerMcp.SqlPool
import SqlServerMcp.SqlType
import SqlServerMcp.Statement
import SqlServerMcp.StatementForms
import SqlServerMcp.StorePath
import SqlServerMcp.StoreSharing
import SqlServerMcp.StoreViews
import SqlServerMcp.TemporalParams
import SqlServerMcp.TemporalTexts
import SqlServerMcp.TokenLifetime
import SqlServerMcp.ToolCalls
import SqlServerMcp.ToolTexts
import SqlServerMcp.TopPaths
import SqlServerMcp.UnitVectors
import SqlServerMcp.Validator
import SqlServerMcp.ValidatorCache
