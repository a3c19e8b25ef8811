import Swarmy.Kv.Budget
import Swarmy.Kv.NoLostUpdate
import Swarmy.Abac.DecideAlike
import Swarmy.Pg.NeverForks
import Swarmy.Compose.Authorised
import Swarmy.App.Routes
import Swarmy.Storage.Layout
import Swarmy.Gateway.Owned
import Swarmy.Mesh.Exact
import Swarmy.Gateway.Correlated
import Swarmy.Traffic.Counted
import Swarmy.Agent.OneLink
import Swarmy.Disk.Kept
import Swarmy.Gateway.Inventory
import Swarmy.Disk.NoLoss
import Swarmy.Ai.Reached
import Swarmy.Ai.Metered
import Swarmy.Mail.Scoped
import Swarmy.Mail.SentAs
import Swarmy.Alerts.Once
import Swarmy.Errors.Triage
import Swarmy.Errors.Envelope
import Swarmy.Release.Stale
import Swarmy.Webhook.Contract
import Swarmy.Webhook.InboundContract
import Swarmy.Images.Gc
import Swarmy.Ingress.Addressed
import Swarmy.Sleep.Scale
import Swarmy.Backup.Slots
import Swarmy.Terminal.Owned
import Swarmy.Canary.Ended
import Swarmy.Storage.OneVersion
import Swarmy.Upgrade.Moved
import Swarmy.Observe.Own
import Swarmy.App.Safe
import Swarmy.Cert.Settle
import Swarmy.Kv.Unique
import Swarmy.Kv.ReadBack
import Swarmy.Kv.NeverBack
import Swarmy.Net.Private
import Swarmy.Backup.GivesBack
import Swarmy.Backup.Volumes
import Swarmy.Pitr.Wal
import Swarmy.App.Durable
import Swarmy.Compose.Escape
import Swarmy.Schedule.Due
import Swarmy.Decommission.Quorum
import Swarmy.AppSecrets.Prune
import Swarmy.Decommission.Switchover
import Swarmy.Pg.Rebuilt
import Swarmy.Pitr.Intact
import Swarmy.SecretEnv.Faithful
import Swarmy.Dns.Served
import Swarmy.Dns.Store
import Swarmy.Mesh.DexSubject
import Swarmy.Agent.LogDemux
import Swarmy.Ai.Blocks
