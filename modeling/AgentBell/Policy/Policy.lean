import AgentBell.Settings.Settings

/-!
# Policies and quiet hours

What the settings decide about a notification: `Evaluate` applies the first policy that matches it,
and `QuietEvaluator.Evaluate` finds out whether quiet hours hold it back.

The timezones are a parameter: a location tells the time of day and the weekday of an instant, and
the instant of a time of day.
-/

namespace AgentBell.Policy

open M2 (Settings PolicyMatch QuietHours QuietInterval clockParts)
open RemoteConfig (within)

/-! ## Policies -/

/-- What holds when no policy says otherwise. -/
structure Defaults where
  channelIDs : List String
  templateID : String
  deriving DecidableEq, Repr

/-- What is decided about a notification. -/
structure Decision where
  enabled : Bool
  channelIDs : List String
  templateID : String
  matched : Bool := false
  policyID : String := ""
  deriving DecidableEq, Repr

/-- Whether a value is among the candidates; no candidates stand for all values. -/
def matchesString (candidates : List String) (value : String) : Bool :=
  candidates = [] || candidates.contains value

/-- Whether a policy applies to a notification. -/
def selects (selector : PolicyMatch String) (notification : Notification) : Bool :=
  matchesString selector.events notification.event &&
    matchesString selector.sources notification.source &&
    matchesString selector.surfaces notification.surface &&
    matchesString selector.runtimes notification.runtime &&
    matchesString selector.priorities notification.priority &&
    matchesString selector.projects notification.project

/-- The check of the default channels, given the ones seen before. -/
def validateDefaultChannels (seen : List String) : List String → Except String Unit
  | [] => .ok ()
  | channelID :: rest => do
    failIf (channelID = "") "default channel cannot be empty"
    failIf (channelID ∈ seen) ("duplicate default channel " ++ quoted channelID)
    validateDefaultChannels (channelID :: seen) rest

/-- The check of the defaults. -/
def validateDefaults (settings : Settings String) (defaults : Defaults) : Except String Unit := do
  failIf (defaults.channelIDs = []) "at least one default channel is required"
  validateDefaultChannels [] defaults.channelIDs
  failIf (defaults.templateID = "") "default template is required"
  failIf (defaults.templateID ∉ settings.templateIDs)
    ("default template " ++ quoted defaults.templateID ++ " does not exist")

/-- The switch of an event; a missing one is off. -/
def eventSwitch (settings : Settings String) (event : String) : Bool :=
  (settings.events.entries.lookup event).getD false

/-- The first policy that applies to a notification. -/
def firstPolicy (settings : Settings String) (notification : Notification) :
    Option (M2.Policy String) :=
  (settings.policies.getD []).find? fun policy => selects policy.selector notification

/-- The decision of a policy, or the defaults where it says nothing. -/
def decisionFor (settings : Settings String) (notification : Notification) (defaults : Defaults) :
    Decision :=
  let switched := eventSwitch settings notification.event
  match firstPolicy settings notification with
  | none => ⟨switched, defaults.channelIDs, defaults.templateID, false, ""⟩
  | some policy =>
    { enabled := policy.action.enabled.getD switched
      channelIDs :=
        if policy.action.channels = [] then defaults.channelIDs else policy.action.channels
      templateID :=
        if policy.action.templateID = "" then defaults.templateID else policy.action.templateID
      matched := true
      policyID := policy.id }

/-! ## Locations -/

/-- A timezone. -/
structure Location where
  clock : Time → Nat × Nat
  weekday : Time → Fin 7
  addDays : Time → Int → Time
  date : Time → Nat → Nat → Time

/-- The names of the weekdays, from Sunday on. -/
def weekdayNames : List String := ["sun", "mon", "tue", "wed", "thu", "fri", "sat"]

/-- Whether a weekday is among the days of an interval. -/
def containsWeekday (days : List String) (weekday : Fin 7) : Bool :=
  days.contains (weekdayNames.getD weekday "")

/-- A time of day, some days after an instant. -/
def civilTime (location : Location) (base : Time) (dayOffset : Int) (hour minute : Nat) : Time :=
  location.date (location.addDays base dayOffset) hour minute

/-! ## Quiet hours -/

/-- The hour and the minute of a time of an interval.  The check of the quiet hours has found the
form `HH:MM`, so what other texts are read as does not matter. -/
def parseTime (value : String) : Except String (Nat × Nat) :=
  match clockParts value.toList with
  | some (hour, minute) =>
    if 23 < hour ∨ 59 < minute then .error ("invalid quiet-hours time " ++ quoted value)
    else .ok (hour, minute)
  | none => .error ("invalid quiet-hours time " ++ quoted value)

/-- The window of an interval around an instant, and whether the instant lies in it. -/
def matchingWindow (location : Location) (now : Time) (interval : QuietInterval String) :
    Except String (Time × Time × Bool) := do
  let (startHour, startMinute) ← parseTime interval.start
  let (endHour, endMinute) ← parseTime interval.stop
  let startClock := startHour * 60 + startMinute
  let endClock := endHour * 60 + endMinute
  let nowClock := (location.clock now).1 * 60 + (location.clock now).2
  let window (startOffset endOffset : Int) : Time × Time × Bool :=
    let start := civilTime location now startOffset startHour startMinute
    let stop := civilTime location now endOffset endHour endMinute
    (start, stop, start ≤ now && now < stop)
  if startClock < endClock then
    if containsWeekday interval.days (location.weekday now) then .ok (window 0 0)
    else .ok (0, 0, false)
  else if startClock ≤ nowClock ∧ containsWeekday interval.days (location.weekday now) then
    .ok (window 0 1)
  else if nowClock < endClock ∧
      containsWeekday interval.days (location.weekday (location.addDays now (-1))) then
    .ok (window (-1) 0)
  else .ok (0, 0, false)

/-- The latest end of the windows around an instant; the zero time when there is none. -/
def latestEnd (location : Location) (now latest : Time) :
    List (QuietInterval String) → Except String Time
  | [] => .ok latest
  | interval :: rest => do
    let (start, stop, active) ← matchingWindow location now interval
    if active = false ∨ now < start ∨ ¬ now < stop then latestEnd location now latest rest
    else if latest.isZero ∨ latest < stop then latestEnd location now stop rest
    else latestEnd location now latest rest

/-- What quiet hours decide about a notification. -/
structure QuietDecision where
  active : Bool := false
  action : String := ""
  deferUntil : Time := 0
  reason : String
  deriving DecidableEq, Repr

section Evaluate

variable (zones : String → Option Location)

/-- Whether there is a timezone of a name. -/
def hasZone (name : String) : Bool := (zones name).isSome

/-- Apply the first policy that matches a notification. -/
def evaluate (settings : Settings String) (notification : Notification) (defaults : Defaults) :
    Except String Decision := do
  within "settings" (settings.validate (hasZone zones))
  within "notification" notification.validate
  validateDefaults settings defaults
  .ok (decisionFor settings notification defaults)

/-- The decision for the quiet hours of an instant. -/
def quietWindow (quiet : QuietHours String) (location : Location) (now : Time) :
    Except String QuietDecision := do
  let stop ← latestEnd location now (0 : Int) quiet.intervals
  if stop.isZero then .ok { reason := "not-quiet" }
  else if quiet.action = "defer" then
    .ok { active := true, action := quiet.action, deferUntil := stop, reason := "quiet-hours" }
  else if quiet.action = "drop" then
    .ok { active := true, action := quiet.action, reason := "quiet-hours" }
  else .error "quiet-hours action is not explicit"

/-- Whether quiet hours hold a notification back.  Urgent notifications pass unless the options say
otherwise. -/
def quietEvaluate (urgentBypass : Option Bool) (now : Time) (quiet : QuietHours String)
    (notification : Notification) : Except String QuietDecision := do
  within "quiet hours" (quiet.validate (hasZone zones))
  within "notification" notification.validate
  if quiet.enabled = false then .ok { reason := "disabled" }
  else if urgentBypass.getD true ∧ notification.priority = "urgent" then
    .ok { reason := "urgent-bypass" }
  else if quiet.bypassEvents.contains notification.event then .ok { reason := "event-bypass" }
  else
    match zones quiet.timezone with
    | none => .error ("load quiet-hours timezone: unknown time zone " ++ quiet.timezone)
    | some location => quietWindow quiet location now

end Evaluate

/-! ## When a notification is held back -/

section Quiet

variable {zones : String → Option Location} {location : Location} {now latest stop : Time}
  {intervals : List (QuietInterval String)} {quiet : QuietHours String}
  {notification : Notification} {decision : QuietDecision}

/-- The end of the windows around an instant lies after it. -/
lemma latestEnd_later (hlatest : latest = 0 ∨ now < latest)
    (h : latestEnd location now latest intervals = .ok stop) : stop = 0 ∨ now < stop := by
  induction intervals generalizing latest with
  | nil =>
    cases h
    exact hlatest
  | cons interval rest ih =>
    simp only [latestEnd, bind_eq_ok] at h
    obtain ⟨⟨first, last, active⟩, -, h⟩ := h
    split at h
    · exact ih hlatest h
    · rename_i hactive
      have hlast : now < last := not_not.mp (not_or.mp (not_or.mp hactive).2).2
      split at h
      · exact ih (.inr hlast) h
      · exact ih hlatest h

end Quiet

end AgentBell.Policy
