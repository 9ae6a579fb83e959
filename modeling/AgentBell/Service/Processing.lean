import AgentBell.Queue.Faulty

/-!
# The notification service

The service that delivers the items of the queue.  `Run` recovers and cleans up the queue once and
then calls `ProcessOne` again and again; `ProcessOne` claims one item and hands it to the channel of
the configuration, or to the targets a policy names for it.

What a call finds outside the queue is an argument of the call: the clock, the configuration, the
settings, what the policy decides, and how each delivery ends.
-/

namespace AgentBell.Service

open Interleaving Interleaving.Routine Queue Queue.Faulty

/-- How long delivered items are kept. -/
def historyRetention : Duration := 30 * 24 * 60 * minute

/-- How long dead items are kept. -/
def deadRetention : Duration := 90 * 24 * 60 * minute

/-- How many dead items are kept. -/
def maximumDeadItems : Int := 1000

/-- The delays between the attempts of a delivery. -/
def defaultBackoff : List Duration :=
  [second, 5 * second, 30 * second, 2 * minute, 10 * minute]

/-- The options of a `Service`.  A duration that is not positive and a list that is empty stand for
the default. -/
structure Options where
  complete : Bool := true
  processor : Bool := false
  lease : Duration := 0
  pollInterval : Duration := 0
  backoff : List Duration := []
  sha256 : String → String

/-- How long a claimed item is reserved. -/
def Options.leaseTime (service : Options) : Duration :=
  if 0 < service.lease then service.lease else 30 * second

/-- How long the service waits when there is nothing to do. -/
def Options.pollTime (service : Options) : Duration :=
  if 0 < service.pollInterval then service.pollInterval else second / 2

/-- The delays between the attempts of a delivery. -/
def Options.delays (service : Options) : List Duration :=
  if service.backoff ≠ [] then service.backoff else defaultBackoff

/-! ## What a call finds -/

/-- The cause of a failed delivery. -/
structure Cause where
  text : String
  permanent : Bool := false
  deriving DecidableEq, Repr

/-- The configuration: the ids of its channels, and the events it lets through. -/
structure Config where
  channels : List String := []
  defaultChannel : String := ""
  events : List String := []
  deriving DecidableEq, Repr

/-- The default channel. -/
def Config.default (config : Config) : Option String :=
  config.channels.find? fun channel => channel = config.defaultChannel

/-- Whether notifications of an event are wanted. -/
def Config.eventEnabled (config : Config) (name : String) : Bool :=
  config.events = [] || config.events.contains name

/-- The settings: the ids of the templates. -/
structure Settings where
  templates : List String := []
  deriving DecidableEq, Repr

/-- Why there are no settings. -/
inductive SettingsError where
  | notFound
  | failed (cause : Cause)
  deriving DecidableEq, Repr

/-- What the policy decides for a notification. -/
structure Decision where
  enabled : Bool
  channelIDs : List String
  templateID : String
  deriving DecidableEq, Repr

/-- What quiet hours do to a notification. -/
inductive QuietAction where
  | deliver
  | drop
  | defer (deferUntil : Time)
  deriving DecidableEq, Repr

/-- What one call of `ProcessOne` finds outside the queue. -/
structure Surroundings where
  now : Time
  config : Except Cause Config
  settings : Except SettingsError Settings
  evaluate : Notification → Except Cause Decision
  quiet : Notification → Except Cause QuietAction
  sender : Bool
  input : Notification → Except Cause Unit
  deliver : Notification → DeliveryTarget → Except Cause String
  send : Notification → Except Cause Unit

/-- The targets of a decision. -/
def resolveDecisionTargets (config : Config) (settings : Settings) (decision : Decision) :
    Except Cause (List DeliveryTarget) :=
  if settings.templates.contains decision.templateID = false then
    .error ⟨"policy template " ++ quoted decision.templateID ++ " is missing", false⟩
  else
    match decision.channelIDs.find? fun channel => config.channels.contains channel = false with
    | some channel => .error ⟨"policy channel " ++ quoted channel ++ " is missing", false⟩
    | none => .ok (decision.channelIDs.map fun channel => ⟨channel, decision.templateID⟩)

/-- The ledger entry of a target. -/
def ledgerEntry (ledger : List DeliveryLedgerEntry) (target : DeliveryTarget) :
    Option DeliveryLedgerEntry :=
  ledger.find? fun entry =>
    entry.channelID = target.channelID ∧ entry.templateID = target.templateID

/-- Whether every target of a ledger is settled. -/
def deliveryTerminal (ledger : List DeliveryLedgerEntry) : Bool :=
  deliveryLedgerTerminal ledger && ledger ≠ []

section Processing

variable (service : Options) (call : Surroundings)

/-! ## Failures -/

/-- The failure of a routine, if it fails. -/
def attempt (p : QueueRoutine Item Unit) : QueueRoutine Item (List String) :=
  catching
    (do
      p
      pure [])
    fun err => pure [err.message]

/-- Fail if there were failures. -/
def joined (failures : List String) : QueueRoutine Item Unit :=
  raiseIf (failures ≠ []) (.other ("\n".intercalate failures))

/-- Fail with a cause, after a last routine. -/
def failing (cause : Cause) (p : QueueRoutine Item Unit) : QueueRoutine Item Unit := do
  let failures ← attempt p
  joined (cause.text :: failures)

/-- The delay before the next attempt of a target. -/
def targetDelay (attempts : Int) : Duration :=
  let delay := service.delays.getD attempts.toNat 0
  if delay ≤ 0 then second / 1000 else delay

/-- Record the failure of a target. -/
def failTarget (target : DeliveryTarget) (cause : Cause) : QueueRoutine Item Unit := do
  let item ← locals
  match ledgerEntry (item.envelope.ledger.getD []) target with
  | none =>
    raise (.other ("delivery target " ++ quoted target.channelID ++ "/" ++
      quoted target.templateID ++ " is absent from ledger"))
  | some entry =>
    if cause.permanent ∨ (service.delays.length : Int) ≤ entry.attempts + 1 then
      deadTarget target (some cause.text) call.now
    else
      nackTarget target (some cause.text) (call.now + targetDelay service entry.attempts) call.now

/-- The next attempt of a pending target; one that is due waits for the next poll. -/
def attemptTime (entry : DeliveryLedgerEntry) : Time :=
  if entry.nextAttemptAt.isZero ∨ ¬ call.now < entry.nextAttemptAt then
    call.now + service.pollTime
  else entry.nextAttemptAt

/-- The earlier one of the next attempt so far, if any, and that of one more target. -/
def earliest (next : Time) (entry : DeliveryLedgerEntry) : Time :=
  if entry.state ≠ .pending then next
  else if next.isZero ∨ attemptTime service call entry < next then attemptTime service call entry
  else next

/-- The earliest next attempt of a pending target; the zero time when there is none. -/
def nextAttempt (ledger : List DeliveryLedgerEntry) : Time :=
  ledger.foldl (earliest service call) (0 : Int)

/-- Move a resolved item on: to `history` when its targets are settled, else back to `pending`. -/
def finishResolvedItem : QueueRoutine Item Unit := do
  let item ← locals
  let ledger := item.envelope.ledger.getD []
  if deliveryTerminal ledger then ack call.now
  else do
    raiseIf ((nextAttempt service call ledger).isZero = true)
      (.other "non-terminal delivery ledger has no pending target")
    defer call.now (nextAttempt service call ledger)

/-- Record the same failure for several targets. -/
def failTargets (cause : Cause) : List DeliveryTarget → QueueRoutine Item (List String)
  | [] => pure []
  | target :: rest => do
    let failures ← attempt (failTarget service call target cause)
    let more ← failTargets cause rest
    pure (failures ++ more)

/-- Record a failure for all ready targets of a resolved item. -/
def failResolvedTargets (cause : Cause) : QueueRoutine Item Unit := do
  let targets ← resolveTargets [] call.now
  let failures ← failTargets service call cause targets
  let last ← attempt (finishResolvedItem service call)
  joined (failures ++ last)

/-- Record that an item could not be processed. -/
def failItem (cause : Cause) : QueueRoutine Item Unit := do
  let item ← locals
  if item.envelope.ledger ≠ none then
    failing cause (failResolvedTargets service call cause)
  else
    failing cause (nack (some cause.text) call.now service.delays)

/-! ## Delivery -/

/-- Deliver an item to the default channel. -/
def processLegacy (config : Config) : QueueRoutine Item Unit := do
  let item ← locals
  if config.eventEnabled item.envelope.event.event = false then ack call.now
  else
    match config.default with
    | none => failItem service call ⟨"default channel is missing", false⟩
    | some _ =>
      if call.sender = false then
        failItem service call ⟨"configured sender is unavailable", false⟩
      else
        match call.send item.envelope.event with
        | .error cause =>
          failing cause
            (nack (some cause.text) call.now (if cause.permanent then [] else service.delays))
        | .ok () => ack call.now

/-- Give up the targets that are pending. -/
def deadTargets (cause : String) : List DeliveryLedgerEntry → QueueRoutine Item Unit
  | [] => pure ()
  | entry :: rest =>
    if entry.state ≠ .pending then deadTargets cause rest
    else do
      deadTarget ⟨entry.channelID, entry.templateID⟩ (some cause) call.now
      deadTargets cause rest

/-- Drop an item. -/
def dropResolvedOrNewItem : QueueRoutine Item Unit := do
  let item ← locals
  match item.envelope.ledger with
  | none => ack call.now
  | some ledger => do
    deadTargets call "delivery suppressed by quiet-hours drop" ledger
    ack call.now

/-- How the delivery to one target ends. -/
def deliveryOutcome (config : Config) (settings : Settings) (notification : Notification)
    (target : DeliveryTarget) : Except Cause String :=
  if config.channels.contains target.channelID = false then
    .error ⟨"delivery channel " ++ quoted target.channelID ++ " is missing", false⟩
  else if settings.templates.contains target.templateID = false then
    .error ⟨"delivery template " ++ quoted target.templateID ++ " is missing", false⟩
  else call.deliver notification target

/-- Record how the delivery to one target ended. -/
def recordOutcome (target : DeliveryTarget) :
    Except Cause String → QueueRoutine Item (List String)
  | .error cause => do
    let failures ← attempt (failTarget service call target cause)
    pure (cause.text :: failures)
  | .ok messageID => attempt (ackTarget target messageID call.now)

/-- Deliver an item to its ready targets, and record how each delivery ends. -/
def deliverTargets (config : Config) (settings : Settings) (notification : Notification) :
    List DeliveryTarget → QueueRoutine Item (List String)
  | [] => pure []
  | target :: rest => do
    let failures ← recordOutcome service call target
      (deliveryOutcome call config settings notification target)
    let more ← deliverTargets config settings notification rest
    pure (failures ++ more)

/-- The targets of a new item; a resolved item keeps its targets, and an item that is not wanted has
none. -/
def plannedTargets (config : Config) (settings : Settings) (envelope : Envelope) :
    Except Cause (Option (List DeliveryTarget)) :=
  if envelope.ledger ≠ none then .ok (some [])
  else
    match call.evaluate envelope.event with
    | .error cause => .error cause
    | .ok decision =>
      if decision.enabled = false then .ok none
      else (resolveDecisionTargets config settings decision).map some

/-- Deliver a resolved item. -/
def deliverResolved (config : Config) (settings : Settings) (ready : List DeliveryTarget) :
    QueueRoutine Item Unit := do
  let item ← locals
  if ready = [] then finishResolvedItem service call
  else if call.sender = false then
    let cause : Cause := ⟨"configured sender is unavailable", false⟩
    failing cause (failResolvedTargets service call cause)
  else
    match call.input item.envelope.event with
    | .error cause => failing cause (failResolvedTargets service call cause)
    | .ok () => do
      let failures ← deliverTargets service call config settings item.envelope.event ready
      let last ← attempt (finishResolvedItem service call)
      joined (failures ++ last)

/-- Put a resolved item off. -/
def deferResolved (deferUntil : Time) : QueueRoutine Item Unit := do
  let item ← locals
  if deliveryTerminal (item.envelope.ledger.getD []) then ack call.now
  else defer call.now deferUntil

/-- Deliver an item to the targets of the policy. -/
def processM2 (config : Config) (settings : Settings) : QueueRoutine Item Unit := do
  let item ← locals
  match plannedTargets call config settings item.envelope with
  | .error cause => failItem service call cause
  | .ok none => ack call.now
  | .ok (some targets) =>
    match call.quiet item.envelope.event with
    | .error cause => failItem service call cause
    | .ok .drop => dropResolvedOrNewItem call
    | .ok (.defer deferUntil) => do
      let _ ← resolveTargets targets call.now
      deferResolved call deferUntil
    | .ok .deliver => do
      let ready ← resolveTargets targets call.now
      deliverResolved service call config settings ready

/-- Process the claimed item. -/
def processItem : QueueRoutine Item Unit := do
  let item ← locals
  match call.config with
  | .error cause => failItem service call cause
  | .ok config =>
    if service.processor = false then
      if item.envelope.ledger ≠ none then
        failItem service call
          ⟨"M2 processor is required for an item with a delivery ledger", false⟩
      else processLegacy service call config
    else
      match call.settings with
      | .error .notFound =>
        if item.envelope.ledger = none then processLegacy service call config
        else failItem service call ⟨"agentbell settings not found", false⟩
      | .error (.failed cause) => failItem service call cause
      | .ok settings => processM2 service call config settings

/-- Claim an item and process it: whether there was one, and the failure, if any. -/
def processOne : QueueRoutine Unit (Bool × Option String) :=
  if service.complete = false then pure (false, some "service dependencies are incomplete")
  else
    catching
      (do
        match ← claim call.now service.leaseTime with
        | none => pure (false, none)
        | some item =>
          catching
            (do
              enclosed (processItem service call) item
              pure (true, none))
            fun err => pure (true, some err.message))
      fun err => pure (false, some err.message)

end Processing

/-- The first part of `Run`: recover the items whose lease has run out, and clean up. -/
def startUp (service : Options) (now later : Time) : QueueRoutine Unit Unit := do
  let _ ← recoverExpired now
  let _ ← cleanupHistory service.sha256 (later - historyRetention)
  let _ ← cleanupDead service.sha256 (later - deadRetention) maximumDeadItems
  pure ()

/-! ## Runs of the service -/

/-- Whether the service runs. -/
inductive Status where
  | stopped
  | running
  deriving DecidableEq, Repr

/-- What a queue directory that the service uses comes to, from any directory it finds: other
processes take steps, the service starts up, processes items, stops, or is killed at any step.
The two machines are those on which it starts up and on which it processes. -/
inductive Served (service : Options)
    (starting processing : Machine Cmd (fun c => Except OsError (Reply c)) Store Turn)
    (mayStart : Time → Store → Prop) (mayProcess : Surroundings → Prop) :
    Store → Status → Prop where
  | found (s : Store) : Served service starting processing mayStart mayProcess s .stopped
  | others {s t : Store} {status : Status} (steps : List (Choice × Cmd)) :
      Served service starting processing mayStart mayProcess s status →
      afterOthers steps s = some t →
      Served service starting processing mayStart mayProcess t status
  | started {s t : Store} (now later : Time) (turns : List Turn) :
      Served service starting processing mayStart mayProcess s .stopped → mayStart now s →
      (startUp service now later ()).run starting turns s = some ((.ok (), ()), t) →
      Served service starting processing mayStart mayProcess t .running
  | refused {s t : Store} (now later : Time) (turns : List Turn) (err : OsError) :
      Served service starting processing mayStart mayProcess s .stopped →
      (startUp service now later ()).run inUse turns s = some ((.error err, ()), t) →
      Served service starting processing mayStart mayProcess t .stopped
  | cutStarting {s t : Store} (now later : Time) (turns : List Turn) :
      Served service starting processing mayStart mayProcess s .stopped →
      (startUp service now later ()).after inUse turns s = some t →
      Served service starting processing mayStart mayProcess t .stopped
  | processed {s t : Store} (call : Surroundings) (turns : List Turn)
      (outcome : Except OsError (Bool × Option String) × Unit) :
      Served service starting processing mayStart mayProcess s .running → mayProcess call →
      (processOne service call ()).run processing turns s = some (outcome, t) →
      Served service starting processing mayStart mayProcess t .running
  | cutProcessing {s t : Store} (call : Surroundings) (turns : List Turn) :
      Served service starting processing mayStart mayProcess s .running →
      (processOne service call ()).after inUse turns s = some t →
      Served service starting processing mayStart mayProcess t .stopped
  | stopped {s : Store} : Served service starting processing mayStart mayProcess s .running →
      Served service starting processing mayStart mayProcess s .stopped

end AgentBell.Service
