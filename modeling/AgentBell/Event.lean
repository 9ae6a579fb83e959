import Mathlib.Tactic.Common

/-!
# Notifications

The notification a hook event is normalised to, with the checks of its `Validate` method.
Instants are counted in nanoseconds since the zero time, so that the zero value of a Go
`time.Time` is `0` and `After` and `Before` are the order of the integers.  A Go string is a
`String`; its length is counted in bytes.
-/

namespace AgentBell

/-- An instant, in nanoseconds since the zero time. -/
abbrev Time := Int

/-- A span of time, in nanoseconds. -/
abbrev Duration := Int

/-- The zero value of an instant. -/
def Time.isZero (t : Time) : Bool := t = (0 : Int)

/-- One second. -/
def second : Duration := 1000000000

/-- One minute. -/
def minute : Duration := 60 * second

/-- A text as `%q` prints it, for texts without characters to escape. -/
def quoted (text : String) : String := "\"" ++ text ++ "\""

/-! ## Checks -/

/-- Fail with a message when a condition holds. -/
def failIf (bad : Prop) [Decidable bad] (message : String) : Except String Unit :=
  if bad then .error message else .ok ()

@[simp] lemma failIf_eq_ok {bad : Prop} [Decidable bad] {message : String} {u : Unit} :
    failIf bad message = .ok u ↔ ¬ bad := by
  unfold failIf
  split <;> simp_all

/-- A chain of checks succeeds when its first part and the rest do. -/
lemma bind_eq_ok {ε α β : Type} {x : Except ε α} {f : α → Except ε β} {b : β} :
    (x >>= f) = .ok b ↔ ∃ a, x = .ok a ∧ f a = .ok b := by
  cases x with
  | error err => simp [bind, Except.bind]
  | ok a => simp [bind, Except.bind]

/-- Check that the values of a list are allowed and different. -/
def validateDistinct (label : String) (allowed : String → Bool) (seen : List String) :
    List String → Except String Unit
  | [] => .ok ()
  | value :: rest => do
    failIf (¬ allowed value) (label ++ " contains unsupported value " ++ quoted value)
    failIf (seen.contains value) (label ++ " contains duplicate value " ++ quoted value)
    validateDistinct label allowed (value :: seen) rest

/-- The check of a list of allowed values, which must not be empty. -/
def validateValues (label : String) (values : List String) (allowed : String → Bool) :
    Except String Unit := do
  failIf (values = []) (label ++ " must contain at least one value")
  validateDistinct label allowed [] values

/-! ## Notifications -/

namespace Event

/-- The notification format the Core writes. -/
def version : String := "1"

/-- The canonical events. -/
def knownEvents : List String :=
  ["task.completed", "task.failed", "agent.waiting", "approval.required",
    "session.interrupted", "subagent.completed", "agent.info"]

/-- The agents notifications may come from. -/
def allowedSources : List String :=
  ["codex", "claude", "opencode", "kimi", "qoder", "qoder-work", "zcode", "workbuddy",
    "trae", "kimi-work"]

/-- The surfaces notifications may come from. -/
def allowedSurfaces : List String :=
  ["cli", "tui", "ide", "desktop", "jetbrains", "cloud"]

/-- The runtimes notifications may come from. -/
def allowedRuntimes : List String :=
  ["host", "wsl", "container", "ssh", "vendor-cloud"]

/-- The statuses of a notification. -/
def allowedStatuses : List String := ["completed", "failed", "attention", "info"]

/-- The priorities of a notification. -/
def allowedPriorities : List String := ["normal", "high", "urgent"]

/-- The privacy level that carries no content. -/
def privacyMetadataOnly : String := "metadata-only"

/-- The privacy levels of a notification. -/
def allowedPrivacy : List String := [privacyMetadataOnly, "summary", "full"]

/-- Whether the source is one the Core knows. -/
def isKnownSource (value : String) : Bool := allowedSources.contains value

/-- Whether the runtime is one the Core knows. -/
def isKnownRuntime (value : String) : Bool := allowedRuntimes.contains value

end Event

/-- A normalised notification. -/
structure Notification where
  version : String
  source : String
  surface : String
  runtime : String
  event : String
  status : String
  occurredAt : Time
  sessionID : String := ""
  taskID : String := ""
  turnID : String := ""
  idempotencyKey : String
  priority : String
  privacyLevel : String
  project : String := ""
  cwd : String := ""
  summary : String := ""
  deriving DecidableEq, Repr

open Event in
/-- The checks a notification passes before it is stored or relayed. -/
def Notification.validate (notification : Notification) : Except String Unit := do
  failIf (notification.version ≠ Event.version)
    ("unsupported notification version " ++ quoted notification.version)
  failIf (¬ allowedSources.contains notification.source)
    ("unsupported source " ++ quoted notification.source)
  failIf (¬ allowedSurfaces.contains notification.surface)
    ("unsupported surface " ++ quoted notification.surface)
  failIf (¬ allowedRuntimes.contains notification.runtime)
    ("unsupported runtime " ++ quoted notification.runtime)
  failIf (¬ knownEvents.contains notification.event)
    ("unsupported event " ++ quoted notification.event)
  failIf (¬ allowedStatuses.contains notification.status)
    ("unsupported status " ++ quoted notification.status)
  failIf notification.occurredAt.isZero "occurredAt is required"
  failIf (notification.idempotencyKey = "") "idempotencyKey is required"
  failIf (¬ allowedPriorities.contains notification.priority)
    ("unsupported priority " ++ quoted notification.priority)
  failIf (¬ allowedPrivacy.contains notification.privacyLevel)
    ("unsupported privacy level " ++ quoted notification.privacyLevel)
  failIf (300 < notification.summary.utf8ByteSize) "summary exceeds 300 characters"
  failIf (notification.privacyLevel = privacyMetadataOnly ∧
      (notification.cwd ≠ "" ∨ notification.summary ≠ ""))
    "metadata-only notifications cannot include cwd or summary"

end AgentBell
