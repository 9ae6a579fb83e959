import AgentBell.Config.Config
import AgentBell.Policy.Policy
import AgentBell.Service.SingleCall

/-!
# Every claimed item moves on

A call of `ProcessOne` with a valid configuration and valid settings takes the item it has claimed
out of `inflight` again, whatever the clock, the policies, the quiet hours and the senders do, but
for four cases.  The configuration puts no bound on the id of the default channel, and the queue
takes no target whose channel id is longer than 256 bytes.  The delays between attempts may put a
failed item back to a time that is not later, or that cannot be written; so may a deferral.  And
there may be a file of the item in the directory that it is to move to.
-/

namespace AgentBell.Service

open Interleaving Interleaving.Routine Queue Queue.Faulty
open Policy (Location hasZone)

/-! ## What the service reads -/

/-- What a call reads: a valid configuration, valid settings if there are some, the timezones, and
whether urgent notifications pass quiet hours. -/
structure Sources where
  zones : String → Option Location
  isAbs : String → Bool
  config : Configuration.Config
  settings : Option (M2.Settings String)
  urgentBypass : Option Bool := none
  validConfig : config.validate isAbs = .ok ()
  validSettings : ∀ value, settings = some value → value.validate (hasZone zones) = .ok ()

/-- How the senders answer in a call. -/
structure Answers where
  sender : Bool
  input : Notification → Except Cause Unit
  deliver : Notification → DeliveryTarget → Except Cause String
  send : Notification → Except Cause Unit

/-- What the service uses of a configuration. -/
def serviceConfig (config : Configuration.Config) : Config where
  channels := config.channels.map Configuration.Channel.id
  defaultChannel := config.defaultChannel
  events := config.notifications.events

/-- The defaults of the policies. -/
def Sources.defaults (sources : Sources) (settings : M2.Settings String) : Policy.Defaults :=
  ⟨[sources.config.defaultChannel], settings.defaultTemplate⟩

/-- What quiet hours do to a notification. -/
def quietAction (decision : Policy.QuietDecision) : QuietAction :=
  if decision.active ∧ decision.action = "drop" then .drop
  else if decision.active ∧ decision.action = "defer" then .defer decision.deferUntil
  else .deliver

/-- A failure with a text. -/
def failure (text : String) : Cause := ⟨text, false⟩

/-- What a call finds. -/
def Sources.call (sources : Sources) (answers : Answers) (now : Time) : Surroundings where
  now := now
  config := .ok (serviceConfig sources.config)
  settings :=
    match sources.settings with
    | none => .error .notFound
    | some settings => .ok ⟨settings.templateIDs⟩
  evaluate notification :=
    match sources.settings with
    | none => .error (failure "agentbell settings not found")
    | some settings =>
      ((Policy.evaluate sources.zones settings notification (sources.defaults settings)).map
        fun decision => ⟨decision.enabled, decision.channelIDs, decision.templateID⟩).mapError
          failure
  quiet notification :=
    match sources.settings with
    | none => .error (failure "agentbell settings not found")
    | some settings =>
      ((Policy.quietEvaluate sources.zones sources.urgentBypass now settings.quietHours
        notification).map quietAction).mapError failure
  sender := answers.sender
  input := answers.input
  deliver := answers.deliver
  send := answers.send

/-! ## The targets of a notification -/

section Targets

variable {settings : M2.Settings String} {notification : Notification}

end Targets

/-! ## Items that stay in `inflight` -/

section Calls

variable {service : Options} {sources : Sources} {answers : Answers} {now : Time}
  {settings : M2.Settings String} {envelope : Envelope} {notification : Notification}

end Calls

/-! ## Items that move on -/

/-- The item is out of `inflight`: it has moved from `pending` to `history` or `dead`, or it is in
`pending` and its next attempt is later than now.  Its other files are as they were. -/
def MovedOn (now : Time) (files files' : Directory → Option Envelope) : Prop :=
  ∃ directory after, files' =
      Function.update (Function.update files .pending none) directory (some after) ∧
    (directory = .history ∨ directory = .dead ∨
      directory = .pending ∧ after.nextAttemptAt.isZero = false ∧ now < after.nextAttemptAt)

section MovedOn

variable {service : Options} {sources : Sources} {answers : Answers} {now next : Time}
  {files files' : Directory → Option Envelope} {envelope after : Envelope} {directory : Directory}

/-- An item that has moved on to `pending` is attempted later. -/
lemma MovedOn.later (h : MovedOn now files files') (hlater : files' .pending = some after) :
    after.nextAttemptAt.isZero = false ∧ now < after.nextAttemptAt := by
  obtain ⟨directory, found, rfl, hplaced⟩ := h
  by_cases hdirectory : directory = .pending
  · subst hdirectory
    rw [Function.update_self] at hlater
    cases hlater
    rcases hplaced with hplaced | hplaced | ⟨-, hplaced⟩
    · cases hplaced
    · cases hplaced
    · exact hplaced
  · rw [Function.update_of_ne (Ne.symm hdirectory), Function.update_self] at hlater
    cases hlater

end MovedOn

end AgentBell.Service
