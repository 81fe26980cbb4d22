import AutoDeploy.ActiveDedup
import AutoDeploy.ActiveUnique
import AutoDeploy.AdminAction
import AutoDeploy.AdminConfig
import AutoDeploy.AdminSession
import AutoDeploy.AdminUsers
import AutoDeploy.AdmitDecision
import AutoDeploy.AppCancel
import AutoDeploy.AppOverview
import AutoDeploy.AppRequests
import AutoDeploy.ArgsText
import AutoDeploy.BinaryKept
import AutoDeploy.Bootstrap
import AutoDeploy.CacheCoherence
import AutoDeploy.CallsReturn
import AutoDeploy.ConfigDrift
import AutoDeploy.ConfigMasking
import AutoDeploy.CoordinatorDrain
import AutoDeploy.CoordinatorExclusion
import AutoDeploy.CoordinatorSettings
import AutoDeploy.DeployBinary
import AutoDeploy.DeployCancel
import AutoDeploy.DeployRow
import AutoDeploy.DeploySequence
import AutoDeploy.DeployTracked
import AutoDeploy.DownloadAcceptance
import AutoDeploy.DownloadRetry
import AutoDeploy.EmptySecret
import AutoDeploy.EnvText
import AutoDeploy.EventConnection
import AutoDeploy.GoIO
import AutoDeploy.GracefulRestart
import AutoDeploy.HistoryPaging
import AutoDeploy.InstallerRuns
import AutoDeploy.JsonStrings
import AutoDeploy.LegacyMigration
import AutoDeploy.MarkerProtection
import AutoDeploy.OutcomesRecorded
import AutoDeploy.PasswordGate
import AutoDeploy.ProgressAccounting
import AutoDeploy.ProgressPolling
import AutoDeploy.QueueCapacity
import AutoDeploy.Redirects
import AutoDeploy.ReferentialIntegrity
import AutoDeploy.SecretRevocation
import AutoDeploy.StatusAgreement
import AutoDeploy.TagURL
import AutoDeploy.TelegramManager
import AutoDeploy.UnitEnvironment
import AutoDeploy.UnitInjection
import AutoDeploy.Upgrade
import AutoDeploy.Utf8
import AutoDeploy.Webhook
import AutoDeploy.WebhookSnippet
