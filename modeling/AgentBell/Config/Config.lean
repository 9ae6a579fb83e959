import AgentBell.Event

/-!
# The configuration

`config.json` as the Core reads and writes it: the channels of the messenger and which of them is
the default, with the checks of `Config.Validate`.

Whether a path is absolute depends on the platform, so it is a parameter.
-/

namespace AgentBell.Configuration

/-- A channel of the messenger. -/
structure Channel where
  id : String
  type : String := ""
  chatID : String
  as : String := ""
  deriving DecidableEq, Repr

/-- Which events are notified about, and how private they are. -/
structure Notifications where
  events : List String := []
  privacyLevel : String := ""
  deriving DecidableEq, Repr

/-- The content of `config.json`. -/
structure Config where
  defaultChannel : String
  larkCLIPath : String := ""
  notifications : Notifications := {}
  channels : List Channel
  deriving DecidableEq, Repr

/-- The check of the channels, given the ids seen before. -/
def validateChannels (seen : List String) : List Channel → Except String Unit
  | [] => .ok ()
  | channel :: rest => do
    failIf (channel.id = "" ∨ channel.chatID = "") "each channel requires id and chatId"
    failIf (channel.id ∈ seen) ("duplicate channel id " ++ quoted channel.id)
    failIf (channel.type ≠ "" ∧ channel.type ≠ "feishu")
      ("unsupported channel type " ++ quoted channel.type)
    failIf (channel.as ≠ "" ∧ channel.as ≠ "bot" ∧ channel.as ≠ "user")
      ("unsupported channel identity " ++ quoted channel.as)
    validateChannels (channel.id :: seen) rest

/-- The check of a configuration. -/
def Config.validate (isAbs : String → Bool) (config : Config) : Except String Unit := do
  failIf (config.defaultChannel = "") "defaultChannel is required"
  failIf (config.larkCLIPath ≠ "" ∧ ¬ isAbs config.larkCLIPath) "larkCliPath must be absolute"
  validateChannels [] config.channels
  failIf (config.defaultChannel ∉ config.channels.map Channel.id)
    ("default channel " ++ quoted config.defaultChannel ++ " does not exist")
  failIf ("" ∈ config.notifications.events) "notification event cannot be empty"
  failIf (config.notifications.privacyLevel ≠ "" ∧
      ¬ Event.allowedPrivacy.contains config.notifications.privacyLevel)
    ("unsupported privacy level " ++ quoted config.notifications.privacyLevel)

section Validate

variable {isAbs : String → Bool} {config : Config}

end Validate

end AgentBell.Configuration
