import AgentBell.Event

/-!
# Envelopes and delivery ledgers

The data of the local queue and the pure part of its delivery ledger: the envelope stored for
each item, the checks of `validateDeliveryEnvelope`, the disposition a ledger amounts to, the
targets that are ready, and the changes `AckTarget`, `NackTarget` and `DeadTarget` make to one
ledger entry.

A nil ledger is `none`.  An envelope is written without its ledger when the ledger is empty,
so reading it back gives `none` (`Envelope.encoded`).
-/

namespace AgentBell.Queue

/-- The version of the stored envelope format. -/
def queueVersion : Int := 1

/-- The longest channel or template identifier a ledger entry may have, in bytes. -/
def maximumDeliveryIdentifierLength : Nat := 256

/-- The state of a queue item. -/
inductive State where
  | pending
  | inflight
  | succeeded
  | dead
  deriving DecidableEq, Repr

/-- The state of one delivery target. -/
inductive DeliveryState where
  | pending
  | succeeded
  | dead
  deriving DecidableEq, Repr

/-- The state a whole ledger amounts to. -/
inductive Disposition where
  | pending
  | partial_
  | succeeded
  | dead
  deriving DecidableEq, Repr

/-- A channel and the template to render for it. -/
structure DeliveryTarget where
  channelID : String
  templateID : String
  deriving DecidableEq, Repr

/-- What happened so far to one delivery target. -/
structure DeliveryLedgerEntry where
  channelID : String
  templateID : String
  state : DeliveryState
  attempts : Int := 0
  nextAttemptAt : Time := 0
  lastError : String := ""
  messageID : String := ""
  deriving DecidableEq, Repr

/-- The envelope stored for a queue item. -/
structure Envelope where
  queueVersion : Int
  id : String
  state : State
  event : Notification
  attempts : Int := 0
  createdAt : Time
  updatedAt : Time
  nextAttemptAt : Time := 0
  leaseUntil : Time := 0
  lastError : String := ""
  manualRetries : Int := 0
  lastRetriedAt : Time := 0
  ledger : Option (List DeliveryLedgerEntry) := none
  disposition : Option Disposition := none
  deriving DecidableEq, Repr

/-- The name of an item's file: its creation time in nanoseconds and its id. -/
structure FileName where
  nanos : Int
  id : String
  deriving DecidableEq, Repr

/-- An envelope together with the name of its file. -/
structure Item where
  envelope : Envelope
  fileName : FileName
  deriving DecidableEq, Repr

/-- The key of a target, as the ledger checks compare it. -/
def deliveryTargetKey (channelID templateID : String) : String :=
  channelID ++ "\x00" ++ templateID

/-- The checks on the identifiers of a target. -/
def validateDeliveryTarget (target : DeliveryTarget) : Except String Unit :=
  if target.channelID = "" ∨ target.templateID = "" then
    .error "delivery channelId and templateId are required"
  else if maximumDeliveryIdentifierLength < target.channelID.utf8ByteSize ∨
      maximumDeliveryIdentifierLength < target.templateID.utf8ByteSize then
    .error "delivery channelId or templateId is too long"
  else
    .ok ()

/-- The disposition a ledger amounts to. -/
def dispositionFor (ledger : List DeliveryLedgerEntry) : Disposition :=
  let succeeded := ledger.countP fun entry => entry.state = .succeeded
  let dead := ledger.countP fun entry => entry.state = .dead
  if succeeded = ledger.length then .succeeded
  else if dead = ledger.length then .dead
  else if 0 < succeeded then .partial_
  else .pending

/-- The checks on the entry at position `index` that do not look at other entries. -/
def validateLedgerEntry (index : Nat) (entry : DeliveryLedgerEntry) : Except String Unit :=
  if entry.attempts < 0 then
    .error s!"ledger entry {index} has negative attempts"
  else match entry.state with
    | .pending =>
      if entry.messageID ≠ "" then
        .error s!"pending ledger entry {index} has a message id"
      else if entry.attempts = 0 ∧ entry.lastError ≠ "" then
        .error s!"unattempted ledger entry {index} has an error"
      else .ok ()
    | .succeeded =>
      if entry.attempts < 1 then
        .error s!"succeeded ledger entry {index} has no attempt"
      else if ¬ entry.nextAttemptAt.isZero ∨ entry.lastError ≠ "" then
        .error s!"succeeded ledger entry {index} has retry state"
      else .ok ()
    | .dead =>
      if entry.attempts < 1 ∨ entry.lastError = "" then
        .error s!"dead ledger entry {index} lacks failure detail"
      else if ¬ entry.nextAttemptAt.isZero ∨ entry.messageID ≠ "" then
        .error s!"dead ledger entry {index} has non-terminal state"
      else .ok ()

/-- The loop of `validateDeliveryEnvelope` over the entries, with the keys seen so far. -/
def validateLedgerEntries (index : Nat) (seen : List String) :
    List DeliveryLedgerEntry → Except String Unit
  | [] => .ok ()
  | entry :: rest =>
    match validateDeliveryTarget ⟨entry.channelID, entry.templateID⟩ with
    | .error message => .error s!"ledger entry {index}: {message}"
    | .ok () =>
      let key := deliveryTargetKey entry.channelID entry.templateID
      if seen.contains key then
        .error ("duplicate delivery target " ++ quoted entry.channelID ++ "/" ++
          quoted entry.templateID)
      else match validateLedgerEntry index entry with
        | .error message => .error message
        | .ok () => validateLedgerEntries (index + 1) (key :: seen) rest

/-- The name of a disposition in the stored envelope. -/
def dispositionName : Option Disposition → String
  | none => ""
  | some .pending => "pending"
  | some .partial_ => "partial"
  | some .succeeded => "succeeded"
  | some .dead => "dead"

/-- The checks on the ledger and the disposition of an envelope. -/
def validateDeliveryEnvelope (envelope : Envelope) : Except String Unit :=
  match envelope.ledger with
  | none =>
    if envelope.disposition ≠ none then
      .error "legacy item cannot have a disposition without a ledger"
    else .ok ()
  | some [] => .error "delivery ledger cannot be empty"
  | some (entry :: rest) =>
    match validateLedgerEntries 0 [] (entry :: rest) with
    | .error message => .error message
    | .ok () =>
      let expected := dispositionFor (entry :: rest)
      if envelope.disposition ≠ some expected then
        .error ("delivery disposition " ++ quoted (dispositionName envelope.disposition) ++
          " does not match ledger " ++ quoted (dispositionName (some expected)))
      else .ok ()

/-- Whether no entry of the ledger is still pending. -/
def deliveryLedgerTerminal (ledger : List DeliveryLedgerEntry) : Bool :=
  ledger.all fun entry => entry.state ≠ .pending

/-- The pending targets whose next attempt is due. -/
def readyTargets (ledger : List DeliveryLedgerEntry) (now : Time) : List DeliveryTarget :=
  ledger.filterMap fun entry =>
    if entry.state ≠ .pending then none
    else if ¬ entry.nextAttemptAt.isZero ∧ now < entry.nextAttemptAt then none
    else some ⟨entry.channelID, entry.templateID⟩

/-- The loop of `newDeliveryLedger`, with the keys seen so far. -/
def newLedgerEntries (seen : List String) :
    List DeliveryTarget → Except String (List DeliveryLedgerEntry)
  | [] => .ok []
  | target :: rest =>
    match validateDeliveryTarget target with
    | .error message => .error message
    | .ok () =>
      let key := deliveryTargetKey target.channelID target.templateID
      if seen.contains key then
        .error ("duplicate delivery target " ++ quoted target.channelID ++ "/" ++
          quoted target.templateID)
      else match newLedgerEntries (key :: seen) rest with
        | .error message => .error message
        | .ok entries =>
          .ok ({ channelID := target.channelID, templateID := target.templateID,
                 state := .pending } :: entries)

/-- The ledger of an item whose targets are resolved for the first time. -/
def newDeliveryLedger (targets : List DeliveryTarget) : Except String (List DeliveryLedgerEntry) :=
  if targets = [] then .error "at least one delivery target is required"
  else newLedgerEntries [] targets

/-- The position of a target in the ledger. -/
def deliveryTargetIndex (ledger : List DeliveryLedgerEntry) (target : DeliveryTarget) :
    Option Nat :=
  ledger.findIdx? fun entry =>
    entry.channelID = target.channelID ∧ entry.templateID = target.templateID

/-- An error text cut to the 512 bytes the envelope keeps.  A character that the cut
splits is read back as one replacement character for each byte left of it. -/
def truncateText (value : String) : String :=
  if value.utf8ByteSize ≤ 512 then value
  else
    let kept := value.toList.foldl
      (fun (acc : List Char × Nat) c =>
        if acc.2 + c.utf8Size ≤ 512 then (c :: acc.1, acc.2 + c.utf8Size)
        else (List.replicate (512 - acc.2) '�' ++ acc.1, 512))
      ([], 0)
    String.ofList kept.1.reverse

/-- The text stored for the cause of a failure. -/
def truncateError : Option String → String
  | none => ""
  | some value => truncateText value

/-- What `AckTarget` does to the entry of its target. -/
def ackEntry (messageID : String) (entry : DeliveryLedgerEntry) :
    Except String DeliveryLedgerEntry :=
  match entry.state with
  | .succeeded => .ok entry
  | .pending =>
    .ok { entry with
      state := .succeeded
      attempts := entry.attempts + 1
      nextAttemptAt := 0
      lastError := ""
      messageID := messageID }
  | .dead => .error ("cannot acknowledge target in " ++ quoted "dead" ++ " state")

/-- What `NackTarget` does to the entry of its target. -/
def nackEntry (cause : String) (nextAttemptAt : Time) (entry : DeliveryLedgerEntry) :
    Except String DeliveryLedgerEntry :=
  match entry.state with
  | .pending =>
    .ok { entry with
      attempts := entry.attempts + 1
      nextAttemptAt := nextAttemptAt
      lastError := truncateText cause
      messageID := "" }
  | .succeeded => .error ("cannot nack target in " ++ quoted "succeeded" ++ " state")
  | .dead => .error ("cannot nack target in " ++ quoted "dead" ++ " state")

/-- What `DeadTarget` does to the entry of its target. -/
def deadEntry (cause : String) (entry : DeliveryLedgerEntry) : Except String DeliveryLedgerEntry :=
  match entry.state with
  | .dead => .ok entry
  | .pending =>
    .ok { entry with
      state := .dead
      attempts := entry.attempts + 1
      nextAttemptAt := 0
      lastError := truncateText cause
      messageID := "" }
  | .succeeded =>
    .error ("cannot dead-letter target in " ++ quoted "succeeded" ++ " state")

/-! ## Ledgers that pass the checks -/

section Checks

variable {ledger done rest : List DeliveryLedgerEntry} {entry changed : DeliveryLedgerEntry}
  {index : Nat} {seen : List String} {targets : List DeliveryTarget} {target : DeliveryTarget}

/-- What the checks of a first entry say. -/
lemma validate_cons (h : validateLedgerEntries index seen (entry :: rest) = .ok ()) :
    validateDeliveryTarget ⟨entry.channelID, entry.templateID⟩ = .ok () ∧
      deliveryTargetKey entry.channelID entry.templateID ∉ seen ∧
      validateLedgerEntry index entry = .ok () ∧
      validateLedgerEntries (index + 1)
        (deliveryTargetKey entry.channelID entry.templateID :: seen) rest = .ok () := by
  unfold validateLedgerEntries at h
  split at h
  · cases h
  rename_i htarget
  dsimp only at h
  split at h
  · cases h
  rename_i hkey
  split at h
  · cases h
  rename_i hentry
  exact ⟨htarget, by simpa using hkey, hentry, h⟩

lemma validate_cons_of
    (htarget : validateDeliveryTarget ⟨entry.channelID, entry.templateID⟩ = .ok ())
    (hkey : deliveryTargetKey entry.channelID entry.templateID ∉ seen)
    (hentry : validateLedgerEntry index entry = .ok ()) (hrest : validateLedgerEntries (index + 1)
      (deliveryTargetKey entry.channelID entry.templateID :: seen) rest = .ok ()) :
    validateLedgerEntries index seen (entry :: rest) = .ok () := by
  unfold validateLedgerEntries
  simp only [htarget, hentry]
  rw [if_neg (by simpa using hkey), hrest]

/-- A new ledger passes the checks, and its entries are fresh. -/
lemma validate_newLedgerEntries (h : newLedgerEntries seen targets = .ok ledger) :
    validateLedgerEntries index seen ledger = .ok () ∧
      ∀ entry ∈ ledger, entry.state = .pending ∧ entry.attempts = 0 ∧ entry.nextAttemptAt = 0 := by
  induction targets generalizing seen ledger index with
  | nil =>
    cases h
    exact ⟨rfl, nofun⟩
  | cons target targets ih =>
    unfold newLedgerEntries at h
    split at h
    · cases h
    rename_i htarget
    dsimp only at h
    split at h
    · cases h
    rename_i hkey
    split at h
    · cases h
    rename_i entries hentries
    cases h
    have hrest : validateLedgerEntries (index + 1) _ entries = .ok () ∧
        ∀ entry ∈ entries, entry.state = .pending ∧ entry.attempts = 0 ∧
          entry.nextAttemptAt = 0 := ih hentries
    refine ⟨validate_cons_of htarget (by simpa using hkey) rfl hrest.1, ?_⟩
    intro entry hentry
    rcases List.mem_cons.mp hentry with rfl | hentry
    · exact ⟨rfl, rfl, rfl⟩
    · exact hrest.2 entry hentry

/-- There is a ledger for no fewer than one target. -/
lemma newDeliveryLedger_inv (h : newDeliveryLedger targets = .ok ledger) :
    newLedgerEntries [] targets = .ok ledger ∧ ledger ≠ [] := by
  unfold newDeliveryLedger at h
  split at h
  · cases h
  · refine ⟨h, ?_⟩
    rintro rfl
    cases targets with
    | nil => contradiction
    | cons target targets =>
      unfold newLedgerEntries at h
      split at h
      · cases h
      dsimp only at h
      split at h
      · cases h
      split at h <;> cases h

/-- No entry before another one has its target. -/
lemma validate_distinct (h : validateLedgerEntries index seen (done ++ entry :: rest) = .ok ()) :
    (deliveryTargetKey entry.channelID entry.templateID ∉ seen) ∧
      ∀ earlier ∈ done, ¬ (earlier.channelID = entry.channelID ∧
        earlier.templateID = entry.templateID) := by
  induction done generalizing index seen with
  | nil => exact ⟨(validate_cons h).2.1, nofun⟩
  | cons first done ih =>
    obtain ⟨-, hkey, -, hrest⟩ := validate_cons h
    obtain ⟨hfresh, hdone⟩ := ih hrest
    refine ⟨fun hseen => hfresh (List.mem_cons_of_mem _ hseen), ?_⟩
    intro earlier hearlier
    rcases List.mem_cons.mp hearlier with rfl | hearlier
    · rintro ⟨hchannel, htemplate⟩
      rw [hchannel, htemplate] at hfresh
      exact hfresh List.mem_cons_self
    · exact hdone earlier hearlier

/-- No later entry has the target of the first one. -/
lemma validate_later {later : DeliveryLedgerEntry}
    (h : validateLedgerEntries index seen (entry :: rest) = .ok ()) (hlater : later ∈ rest) :
    ¬ (entry.channelID = later.channelID ∧ entry.templateID = later.templateID) := by
  obtain ⟨before, after, rfl⟩ := List.append_of_mem hlater
  have happended : validateLedgerEntries index seen ((entry :: before) ++ later :: after) =
      .ok () := h
  have hdistinct := validate_distinct happended
  exact hdistinct.2 entry List.mem_cons_self

/-- No two entries have the same target. -/
lemma validate_unique {a b : DeliveryLedgerEntry}
    (h : validateLedgerEntries index seen ledger = .ok ()) (ha : a ∈ ledger) (hb : b ∈ ledger)
    (hchannel : a.channelID = b.channelID) (htemplate : a.templateID = b.templateID) : a = b := by
  induction ledger generalizing index seen with
  | nil => cases ha
  | cons first rest ih =>
    rcases List.mem_cons.mp ha with hafirst | harest
    · rcases List.mem_cons.mp hb with hbfirst | hbrest
      · rw [hafirst, hbfirst]
      · subst hafirst
        exact absurd ⟨hchannel, htemplate⟩ (validate_later h hbrest)
    · rcases List.mem_cons.mp hb with hbfirst | hbrest
      · subst hbfirst
        exact absurd ⟨hchannel.symm, htemplate.symm⟩ (validate_later h harest)
      · exact ih (validate_cons h).2.2.2 harest hbrest

variable {now : Time}

/-- A ready target is pending. -/
lemma mem_readyTargets (h : target ∈ readyTargets ledger now) :
    ∃ entry ∈ ledger, entry.state = .pending ∧ target = ⟨entry.channelID, entry.templateID⟩ := by
  obtain ⟨entry, hentry, hready⟩ := List.mem_filterMap.mp h
  refine ⟨entry, hentry, ?_⟩
  by_cases hpending : entry.state = .pending
  · rw [if_neg (not_not_intro hpending)] at hready
    split at hready
    · cases hready
    · exact ⟨hpending, (Option.some.inj hready).symm⟩
  · rw [if_pos hpending] at hready
    cases hready

/-- No target is ready twice. -/
lemma nodup_readyTargets (h : validateLedgerEntries index seen ledger = .ok ()) :
    (readyTargets ledger now).Nodup := by
  induction ledger generalizing index seen with
  | nil => exact List.nodup_nil
  | cons entry rest ih =>
    have hrest := ih (validate_cons h).2.2.2
    have hfresh : (⟨entry.channelID, entry.templateID⟩ : DeliveryTarget) ∉
        readyTargets rest now := by
      intro hmem
      obtain ⟨later, hlater, -, heq⟩ := mem_readyTargets hmem
      exact validate_later h hlater (DeliveryTarget.mk.inj heq)
    simp only [readyTargets, List.filterMap_cons] at hrest hfresh ⊢
    split
    · exact hrest
    · rename_i target htarget
      split at htarget
      · cases htarget
      split at htarget
      · cases htarget
      obtain rfl := Option.some.inj htarget
      exact List.nodup_cons.mpr ⟨hfresh, hrest⟩

end Checks

/-! ## The stored form of an envelope -/

/-- The envelope as it is read back after it was written: an empty ledger is omitted. -/
def Envelope.encoded (envelope : Envelope) : Envelope :=
  match envelope.ledger with
  | some [] => { envelope with ledger := none }
  | _ => envelope

/-- Whether an instant has a year from 0 to 9999, as its JSON form requires. -/
def Time.encodable (t : Time) : Bool :=
  -31622400 * second ≤ t ∧ t < 315537897600 * second

/-- Whether every instant of the envelope can be written. -/
def Envelope.encodable (envelope : Envelope) : Bool :=
  Time.encodable envelope.event.occurredAt && Time.encodable envelope.createdAt &&
    Time.encodable envelope.updatedAt && Time.encodable envelope.nextAttemptAt &&
    Time.encodable envelope.leaseUntil && Time.encodable envelope.lastRetriedAt &&
    (envelope.ledger.getD []).all fun entry => Time.encodable entry.nextAttemptAt

/-- The checks `listUnlocked` makes on a stored envelope: one that fails them is moved
aside as corrupt. -/
def Envelope.listable (envelope : Envelope) : Bool :=
  envelope.queueVersion = Queue.queueVersion && envelope.id ≠ "" &&
    (validateDeliveryEnvelope envelope).isOk

variable {envelope : Envelope}

/-- A valid envelope is read back as it was written. -/
lemma Envelope.encoded_of_valid (h : validateDeliveryEnvelope envelope = .ok ()) :
    envelope.encoded = envelope := by
  unfold Envelope.encoded
  split
  · rename_i hempty
    simp only [validateDeliveryEnvelope, hempty] at h
    cases h
  · rfl

/-- A listable envelope is stored as it is. -/
theorem Envelope.encoded_of_listable (h : envelope.listable = true) :
    envelope.encoded = envelope := by
  unfold Envelope.encoded
  split
  · rename_i hempty
    simp [Envelope.listable, validateDeliveryEnvelope, hempty, Except.isOk, Except.toBool] at h
  · rfl

/-- Whether an envelope is listable depends on its version, id, ledger and disposition. -/
theorem Envelope.listable_congr {a b : Envelope} (hversion : a.queueVersion = b.queueVersion)
    (hid : a.id = b.id) (hledger : a.ledger = b.ledger)
    (hdisposition : a.disposition = b.disposition) : a.listable = b.listable := by
  have hvalid : validateDeliveryEnvelope a = validateDeliveryEnvelope b := by
    simp only [validateDeliveryEnvelope, hledger, hdisposition]
  simp only [Envelope.listable, hversion, hid, hvalid]

/-- A validated envelope of the current version with an id is listable. -/
theorem Envelope.listable_of_valid (hversion : envelope.queueVersion = Queue.queueVersion)
    (hid : envelope.id ≠ "") (hvalid : validateDeliveryEnvelope envelope = .ok ()) :
    envelope.listable = true := by
  simp [Envelope.listable, hversion, hid, hvalid, Except.isOk, Except.toBool]

/-- The parts of the listing check. -/
theorem Envelope.listable_iff :
    envelope.listable = true ↔ envelope.queueVersion = Queue.queueVersion ∧
      envelope.id ≠ "" ∧ validateDeliveryEnvelope envelope = .ok () := by
  constructor
  · intro h
    simp only [Envelope.listable, Bool.and_eq_true, decide_eq_true_eq] at h
    obtain ⟨⟨hversion, hid⟩, hok⟩ := h
    refine ⟨hversion, hid, ?_⟩
    cases hvalid : validateDeliveryEnvelope envelope with
    | error message => simp [hvalid, Except.isOk, Except.toBool] at hok
    | ok u => rfl
  · rintro ⟨hversion, hid, hvalid⟩
    exact listable_of_valid hversion hid hvalid

end AgentBell.Queue
