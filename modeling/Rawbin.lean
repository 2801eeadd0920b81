import Rawbin.Library.Table
import Rawbin.Library.Expiring
import Rawbin.Library.Program
import Rawbin.Library.Pool
import Rawbin.Library.Batches
import Rawbin.Core.Config
import Rawbin.Core.Python
import Rawbin.Core.Json
import Rawbin.Core.Security
import Rawbin.Db.Models
import Rawbin.Db.Write
import Rawbin.Db.Query
import Rawbin.Db.Redis
import Rawbin.Db.Session
import Rawbin.Api.Schemas
import Rawbin.Api.Deps
import Rawbin.Services.DeviceAccess
import Rawbin.Services.Otp
import Rawbin.Services.AuthService
import Rawbin.Api.Auth
import Rawbin.Workers.Thresholds
import Rawbin.Api.Devices
import Rawbin.Api.Cycles
import Rawbin.Api.Readings
import Rawbin.Api.Router
import Rawbin.Backend
import Rawbin.Core.Mqtt
import Rawbin.Verify.LocalAssertions
import Rawbin.Verify.Pairing
import Rawbin.Verify.Rotation
import Rawbin.Verify.OneTimeCode
import Rawbin.Verify.Membership
import Rawbin.Verify.ThresholdCache
import Rawbin.Verify.Sequential
import Rawbin.Verify.ThresholdFaults
import Rawbin.Verify.Ingestion
import Rawbin.Verify.DeviceRoutes
import Rawbin.Verify.Frame
import Rawbin.Verify.Invisible
import Rawbin.Verify.ActiveCycle
import Rawbin.Verify.Handshake
import Rawbin.Verify.CodeLifetime
import Rawbin.Verify.PlainRoutes
import Rawbin.Verify.Acknowledged
import Rawbin.Verify.Conflicts
import Rawbin.Core.Ingest
import Rawbin.Verify.Coroutine
import Rawbin.Verify.StoredReadings
import Rawbin.Verify.ArrivalOrder
import Rawbin.Verify.PersistedAlerts
import Rawbin.Verify.Redelivery
import Rawbin.Verify.PushTokens
import Rawbin.Verify.TokenPairs
import Rawbin.Verify.Lineages
import Rawbin.Verify.Lifecycle
import Rawbin.Verify.EndTimes
import Rawbin.Verify.Attribution
import Rawbin.Verify.MembershipViews
import Rawbin.Verify.CodeOwners
import Rawbin.Verify.UniformAnswers
import Rawbin.Verify.ConfirmAtomicity
import Rawbin.Verify.Provisioning
import Rawbin.Workers.AlertCheck
import Rawbin.Library.Groups
import Rawbin.Library.Columns
import Rawbin.Verify.HistoryWindow
import Rawbin.Verify.HistoryTiers
import Rawbin.Library.Arrangement
import Rawbin.Verify.Pagination
import Rawbin.Library.SemVer
import Rawbin.Verify.Firmware
import Rawbin.Workers.ThresholdDict
import Rawbin.Verify.ThresholdPaths
import Rawbin.Verify.ThresholdBounds
import Rawbin.Db.Migration
import Rawbin.Verify.Migration
import Rawbin.Verify.InitialSchema
import Rawbin.Verify.ResendCooldown
import Rawbin.Verify.AlertBands
import Rawbin.Verify.Registered
import Rawbin.Api.Emails
import Rawbin.Verify.LowerCase
import Rawbin.Verify.Spellings
import Rawbin.Verify.FailedDelivery
import Rawbin.Verify.DeviceHmac
import Rawbin.Verify.LatestReading
import Rawbin.Workers.Notifications
import Rawbin.Verify.Notified
import Rawbin.Verify.Statements
import Rawbin.Verify.Provenance
import Rawbin.Verify.Authentication
import Rawbin.Verify.HttpMethods
import Rawbin.Library.Serial
import Rawbin.Verify.Serial
import Rawbin.Library.Isolation
import Rawbin.Library.Coupled
import Rawbin.Verify.CheckedReadings
import Rawbin.Verify.Pipeline
import Rawbin.Verify.Delivered
import Rawbin.Verify.Integrity
import Rawbin.Verify.CodeGuessing
import Rawbin.Verify.ServerErrors
