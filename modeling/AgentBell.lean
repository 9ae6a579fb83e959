import AgentBell.App.FailedEnrollment
import AgentBell.App.Revocation
import AgentBell.Binding.Code
import AgentBell.Locks.TokenLock
import AgentBell.Policy.QuietHours
import AgentBell.Policy.Template
import AgentBell.Queue.NoLoss
import AgentBell.Relay.Encodings
import AgentBell.Relay.Frame
import AgentBell.Relay.NonceRetention
import AgentBell.Relay.SingleUse
import AgentBell.Relay.Window
import AgentBell.RemoteConfig.Keys
import AgentBell.Service.Attempts
import AgentBell.Service.Lock
import AgentBell.Service.Routing
import AgentBell.Upgrade.ActiveStates
import AgentBell.Upgrade.JournalAgrees
import AgentBell.Upgrade.Lock
import AgentBell.Upgrade.Replacement
