import AgentBell.Event
import AgentBell.Json.GoString
import AgentBell.RemoteConfig.Relay

/-!
# The notification settings

`settings.json` as the Core reads and writes it: event switches, templates, quiet hours and ordered
policies, with the checks of `Settings.Validate`.  The strings are those of a Go program, so that
the checks are defined for strings that are not valid UTF-8 as well.

Which timezones there are is a parameter.
-/

namespace AgentBell.M2

open Json (GoString)
open Json.GoString (literal text size)
open RemoteConfig (isSemanticVersion isIdentity within within_eq_ok)

/-! ## The settings -/

/-- A template of a notification. -/
structure Template (S : Type) where
  id : S
  body : S
  deriving DecidableEq, Repr

/-- An interval of quiet hours. -/
structure QuietInterval (S : Type) where
  days : List S
  start : S
  stop : S
  deriving DecidableEq, Repr

/-- The quiet hours. -/
structure QuietHours (S : Type) where
  enabled : Bool
  timezone : S
  action : S
  intervals : List (QuietInterval S)
  bypassEvents : List S
  deriving DecidableEq, Repr

/-- The notifications a policy applies to; an empty list stands for all. -/
structure PolicyMatch (S : Type) where
  events : List S
  sources : List S
  surfaces : List S
  runtimes : List S
  priorities : List S
  projects : List S
  deriving DecidableEq, Repr

/-- What a policy does.  The channels may be absent, which is not the same as an empty list. -/
structure PolicyAction (S : Type) where
  enabled : Option Bool
  channelIDs : Option (List S)
  templateID : S
  deriving DecidableEq, Repr

/-- A policy. -/
structure Policy (S : Type) where
  id : S
  selector : PolicyMatch S
  action : PolicyAction S
  deriving DecidableEq, Repr

/-- Which events are on and which are off. -/
structure EventSwitches (S : Type) where
  entries : List (S × Bool)
  distinct : (entries.map Prod.fst).Nodup
  deriving DecidableEq, Repr

/-- The content of `settings.json`.  The policies may be absent. -/
structure Settings (S : Type) where
  version : Int
  minCoreVersion : S
  events : EventSwitches S
  defaultTemplate : S
  templates : List (Template S)
  quietHours : QuietHours S
  policies : Option (List (Policy S))
  deriving DecidableEq, Repr

/-- The version of the settings. -/
def settingsVersion : Int := 1

/-- The bound of the body of a template, in bytes. -/
def maximumTemplateBytes : Nat := 4 * 1024

/-- The bound of a channel id, in characters. -/
def maximumIdentifier : Nat := 64

/-- The bound of the number of policies. -/
def maximumPolicies : Nat := 256

/-- The bound of the number of projects of a policy. -/
def maximumPolicyProjects : Nat := 256

/-- The days of the week. -/
def knownDays : List String := ["mon", "tue", "wed", "thu", "fri", "sat", "sun"]

/-- The placeholders of a template. -/
def knownPlaceholders : List String :=
  ["sourceName", "event", "status", "project", "priority", "occurredAt", "runtime", "surface"]

/-- The pattern of an identifier. -/
def identifierPattern : String := "^[a-z][a-z0-9_-]\x7b0,63\x7d$"

/-! ## Placeholders -/

/-- Whether a character is a blank of a pattern. -/
def isBlank (c : Char) : Bool := c = ' ' || c = '\t' || c = '\n' || c = '\r' || c = '\x0c'

/-- The name of the placeholder a text starts with, and what follows it. -/
def matchPlaceholder : List Char → Option (List Char × List Char)
  | '\x7b' :: '\x7b' :: rest =>
    let inner := rest.dropWhile isBlank
    match inner.head?, (inner.dropWhile Char.isAlphanum).dropWhile isBlank with
    | some first, '\x7d' :: '\x7d' :: rest =>
      if first.isAlpha then some (inner.takeWhile Char.isAlphanum, rest) else none
    | _, _ => none
  | _ => none

/-- The names of the placeholders of a text, and the text without them.  The fuel is the length of
the text. -/
def scanPlaceholders : Nat → List Char → List (List Char) × List Char
  | 0, rest => ([], rest)
  | _ + 1, [] => ([], [])
  | fuel + 1, c :: rest =>
    match matchPlaceholder (c :: rest) with
    | some (name, rest) =>
      let scanned := scanPlaceholders fuel rest
      (name :: scanned.1, scanned.2)
    | none =>
      let scanned := scanPlaceholders fuel rest
      (scanned.1, c :: scanned.2)

/-- The names of the placeholders of a text, and the text without them. -/
def placeholders (body : List Char) : List (List Char) × List Char :=
  scanPlaceholders body.length body

/-- Whether a text has a brace twice in a row. -/
def doubles (brace : Char) : List Char → Bool
  | first :: second :: rest => (first = brace && second = brace) || doubles brace (second :: rest)
  | _ => false

section Checks

variable {S : Type} [DecidableEq S] [GoString S]

/-- The check of the placeholders of a template; the last unknown one is named. -/
def validatePlaceholders (body : List Char) : Except String Unit := do
  let scanned := placeholders body
  match (scanned.1.filter fun name =>
      ¬ knownPlaceholders.contains (String.ofList name)).getLast? with
  | some name => .error ("unknown placeholder " ++ quoted (String.ofList name))
  | none =>
    failIf (doubles '\x7b' scanned.2 ∨ doubles '\x7d' scanned.2) "malformed placeholder"

/-- The check of a template. -/
def Template.validate (template : Template S) : Except String Unit := do
  failIf (¬ isIdentity (text template.id)) ("template id must match " ++ identifierPattern)
  failIf (template.body = literal "") "template body is required"
  failIf (maximumTemplateBytes < size template.body)
    ("template body exceeds " ++ toString maximumTemplateBytes ++ " bytes")
  validatePlaceholders (text template.body).toList

/-! ## Lists of different values -/

/-- Check each value of a list, given the ones seen before, and that they are different. -/
def validateEach (check : S → Except String Unit) (duplicate : S → String) (seen : List S) :
    List S → Except String Unit
  | [] => .ok ()
  | value :: rest => do
    check value
    failIf (value ∈ seen) (duplicate value)
    validateEach check duplicate (value :: seen) rest

/-- Whether a string is one of some literals. -/
def isOneOf (known : List String) (value : S) : Bool := known.any fun name => value = literal name

/-- The check of a list of events. -/
def validateEventList (label : String) (values : List S) : Except String Unit :=
  validateEach
    (fun name => failIf (¬ isOneOf Event.knownEvents name)
      (label ++ " contains unknown event " ++ GoString.quoted name))
    (fun name => label ++ " contains duplicate event " ++ GoString.quoted name) [] values

/-- The check of a selector of a policy. -/
def validateSelector (label : String) (values : List S) (allowed : List String) :
    Except String Unit :=
  validateEach
    (fun value => failIf (¬ isOneOf allowed value)
      ("unknown " ++ label ++ " " ++ GoString.quoted value))
    (fun value => "duplicate " ++ label ++ " " ++ GoString.quoted value) [] values

/-- The check of the projects of a policy. -/
def validateProjects (projects : List S) : Except String Unit := do
  failIf (maximumPolicyProjects < projects.length)
    ("policy projects exceed maximum of " ++ toString maximumPolicyProjects)
  validateEach
    (fun project => do
      failIf (Relay.trimSpace (text project) = "") "policy project cannot be empty"
      failIf (120 < (text project).length) "policy project exceeds 120 characters")
    (fun project => "policy contains duplicate project " ++ GoString.quoted project) [] projects

/-! ## Quiet hours -/

/-- The check of a timezone. -/
def validateTimezone (zones : S → Bool) (name : S) : Except String Unit := do
  failIf (name = literal "") "IANA timezone is required"
  failIf (name ≠ literal "UTC" ∧ ¬ (text name).toList.contains '/')
    ("timezone " ++ GoString.quoted name ++ " must be an IANA timezone")
  failIf (¬ zones name)
    ("load timezone " ++ GoString.quoted name ++ ": unknown time zone " ++ text name)

/-- The hours and minutes of a text of the form `HH:MM`. -/
def clockParts (value : List Char) : Option (Nat × Nat) :=
  match value with
  | [h₁, h₂, ':', m₁, m₂] =>
    if [h₁, h₂, m₁, m₂].all Char.isDigit then
      some (10 * (h₁.toNat - '0'.toNat) + (h₂.toNat - '0'.toNat),
        10 * (m₁.toNat - '0'.toNat) + (m₂.toNat - '0'.toNat))
    else none
  | _ => none

/-- The check of a time of day. -/
def validateClockTime (value : S) : Except String Unit :=
  match clockParts (text value).toList with
  | none => .error (GoString.quoted value ++ " must use HH:MM")
  | some (hour, minute) =>
    failIf (23 < hour ∨ 59 < minute) (GoString.quoted value ++ " is outside 00:00-23:59")

/-- The check of an interval. -/
def QuietInterval.validate (interval : QuietInterval S) : Except String Unit := do
  failIf (interval.days = []) "at least one day is required"
  validateEach
    (fun day => failIf (¬ isOneOf knownDays day) ("unsupported day " ++ GoString.quoted day))
    (fun day => "duplicate day " ++ GoString.quoted day) [] interval.days
  within "start time" (validateClockTime interval.start)
  within "end time" (validateClockTime interval.stop)
  failIf (interval.start = interval.stop) "start and end must differ"

/-- The check of the intervals from an index on. -/
def validateIntervals (index : Nat) : List (QuietInterval S) → Except String Unit
  | [] => .ok ()
  | interval :: rest => do
    within ("intervals[" ++ toString index ++ "]") interval.validate
    validateIntervals (index + 1) rest

/-- The check of the quiet hours. -/
def QuietHours.validate (zones : S → Bool) (quiet : QuietHours S) : Except String Unit :=
  if quiet.enabled = false then do
    if quiet.timezone = literal "" then pure () else validateTimezone zones quiet.timezone
    failIf (¬ isOneOf ["", "defer", "drop"] quiet.action)
      ("unsupported action " ++ GoString.quoted quiet.action)
    validateEventList "bypass" quiet.bypassEvents
    validateIntervals 0 quiet.intervals
  else do
    validateTimezone zones quiet.timezone
    failIf (¬ isOneOf ["defer", "drop"] quiet.action)
      ("unsupported action " ++ GoString.quoted quiet.action)
    failIf (quiet.intervals = []) "at least one interval is required when enabled"
    validateIntervals 0 quiet.intervals
    validateEventList "bypass" quiet.bypassEvents

/-! ## Policies -/

/-- The channels of an action, none when they are absent. -/
def PolicyAction.channels (action : PolicyAction S) : List S := action.channelIDs.getD []

/-- The check of the channels of a policy. -/
def validateChannels (channelIDs : List S) : Except String Unit :=
  validateEach
    (fun channelID => do
      failIf (channelID = literal "") "policy channelId cannot be empty"
      failIf (maximumIdentifier < (text channelID).length)
        ("policy channelId exceeds " ++ toString maximumIdentifier ++ " characters"))
    (fun channelID => "policy contains duplicate channelId " ++ GoString.quoted channelID) []
    channelIDs

/-- The check of a policy. -/
def Policy.validate (templateIDs : List S) (policy : Policy S) : Except String Unit := do
  failIf (¬ isIdentity (text policy.id)) ("policy id must match " ++ identifierPattern)
  validateEventList "policy" policy.selector.events
  validateSelector "source" policy.selector.sources Event.allowedSources
  validateSelector "surface" policy.selector.surfaces Event.allowedSurfaces
  validateSelector "runtime" policy.selector.runtimes Event.allowedRuntimes
  validateSelector "priority" policy.selector.priorities Event.allowedPriorities
  validateProjects policy.selector.projects
  failIf (policy.action.enabled = none ∧ policy.action.channels = [] ∧
    policy.action.templateID = literal "")
    "policy action must set enabled, channelIds, or templateId"
  failIf (policy.action.channelIDs = some []) "policy channelIds cannot be an empty array"
  validateChannels policy.action.channels
  failIf (policy.action.templateID ≠ literal "" ∧ policy.action.templateID ∉ templateIDs)
    ("policy template " ++ GoString.quoted policy.action.templateID ++ " does not exist")

/-! ## The whole document -/

/-- The check of the event switches. -/
def EventSwitches.validate (events : EventSwitches S) : Except String Unit := do
  match (events.entries.map Prod.fst).find? fun name => ¬ isOneOf Event.knownEvents name with
  | some name => .error ("unknown event " ++ GoString.quoted name)
  | none =>
    match Event.knownEvents.find? fun name => literal name ∉ events.entries.map Prod.fst with
    | some name => .error ("missing event switch " ++ quoted name)
    | none => .ok ()

/-- The check of the templates from an index on, given the ids seen before. -/
def validateTemplates (index : Nat) (seen : List S) : List (Template S) → Except String Unit
  | [] => .ok ()
  | template :: rest => do
    within ("templates[" ++ toString index ++ "]") template.validate
    failIf (template.id ∈ seen) ("duplicate template id " ++ GoString.quoted template.id)
    validateTemplates (index + 1) (template.id :: seen) rest

/-- The check of the policies from an index on, given the ids seen before. -/
def validatePolicies (templateIDs : List S) (index : Nat) (seen : List S) :
    List (Policy S) → Except String Unit
  | [] => .ok ()
  | policy :: rest => do
    within ("policies[" ++ toString index ++ "]") (policy.validate templateIDs)
    failIf (policy.id ∈ seen) ("duplicate policy id " ++ GoString.quoted policy.id)
    validatePolicies templateIDs (index + 1) (policy.id :: seen) rest

/-- The ids of the templates. -/
def Settings.templateIDs (settings : Settings S) : List S := settings.templates.map Template.id

/-- The check of the settings. -/
def Settings.validate (zones : S → Bool) (settings : Settings S) : Except String Unit := do
  failIf (settings.version ≠ settingsVersion)
    ("unsupported settings version " ++ toString settings.version ++ "; expected version " ++
      toString settingsVersion)
  failIf (¬ isSemanticVersion (text settings.minCoreVersion))
    "minCoreVersion must be a semantic version"
  settings.events.validate
  failIf (settings.templates = []) "at least one template is required"
  validateTemplates 0 [] settings.templates
  failIf (settings.defaultTemplate ∉ settings.templateIDs)
    ("default template " ++ GoString.quoted settings.defaultTemplate ++ " does not exist")
  within "quietHours" (settings.quietHours.validate zones)
  match settings.policies with
  | none => .error "policies must be an array"
  | some policies => do
    failIf (maximumPolicies < policies.length)
      ("policies exceed maximum of " ++ toString maximumPolicies)
    validatePolicies settings.templateIDs 0 [] policies

/-! ## Valid settings -/

section Valid

variable {zones : S → Bool} {settings : Settings S} {check : S → Except String Unit}
  {duplicate : S → String} {seen values : List S} {templateIDs : List S} {policy : Policy S}

lemma validateTemplates_inv {index : Nat} {templates : List (Template S)}
    (h : validateTemplates index seen templates = .ok ()) :
    ∀ template ∈ templates, template.validate = .ok () := by
  induction templates generalizing index seen with
  | nil => exact nofun
  | cons template rest ih =>
    simp only [validateTemplates, bind_eq_ok, failIf_eq_ok, within_eq_ok] at h
    obtain ⟨_, htemplate, _, -, hrest⟩ := h
    intro other hother
    rcases List.mem_cons.mp hother with rfl | hother
    · exact htemplate
    · exact ih hrest other hother

lemma validatePolicies_inv {index : Nat} {policies : List (Policy S)}
    (h : validatePolicies templateIDs index seen policies = .ok ()) :
    ∀ policy ∈ policies, policy.validate templateIDs = .ok () := by
  induction policies generalizing index seen with
  | nil => exact nofun
  | cons policy rest ih =>
    simp only [validatePolicies, bind_eq_ok, failIf_eq_ok, within_eq_ok] at h
    obtain ⟨_, hpolicy, _, -, hrest⟩ := h
    intro other hother
    rcases List.mem_cons.mp hother with rfl | hother
    · exact hpolicy
    · exact ih hrest other hother

/-- What the check of the settings says about their templates and policies. -/
structure Settings.Valid (settings : Settings S) : Prop where
  templates : ∀ id ∈ settings.templateIDs, isIdentity (text id) = true
  default : settings.defaultTemplate ∈ settings.templateIDs
  policies : ∀ policy ∈ settings.policies.getD [], policy.validate settings.templateIDs = .ok ()

lemma Settings.valid (h : settings.validate zones = .ok ()) : settings.Valid := by
  simp only [Settings.validate, bind_eq_ok, failIf_eq_ok, within_eq_ok] at h
  obtain ⟨_, -, _, -, _, -, _, -, _, htemplates, _, hdefault, _, -, hpolicies⟩ := h
  refine ⟨fun id hid => ?_, not_not.mp hdefault, ?_⟩
  · obtain ⟨template, htemplate, rfl⟩ := List.mem_map.mp hid
    have hvalid := validateTemplates_inv htemplates template htemplate
    simp only [Template.validate, bind_eq_ok, failIf_eq_ok] at hvalid
    obtain ⟨_, hidentity, -⟩ := hvalid
    exact not_not.mp hidentity
  · split at hpolicies
    · cases hpolicies
    · rename_i policies hsome
      simp only [bind_eq_ok, failIf_eq_ok] at hpolicies
      obtain ⟨_, -, hpolicies⟩ := hpolicies
      rw [hsome, Option.getD_some]
      exact validatePolicies_inv hpolicies

end Valid

end Checks

end AgentBell.M2
