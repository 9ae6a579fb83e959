import AgentBell.Service.Verdict

/-!
# The outcomes of a call

What the verdicts of calls say about the item.  A call whose clock lets it write the instants it
writes moves its item, unless there is no ledger for the targets the policy names.  Whether it moves
the item or not, the ledger it leaves behind is the one it found or began with, in which each entry
is as before or has one more attempt; a target the sender is handed has one more attempt, unless its
failure cannot be recorded; and only a delivery that worked is recorded as a success.  An item that
fails before its targets are resolved has one more attempt itself.
-/

namespace AgentBell.Service

open Interleaving Interleaving.Routine Queue Queue.Faulty

/-! ## What a call sends -/

/-- The targets a call hands to the sender: those of the ready ones for which it asks it. -/
def sentTargets (service : Options) (call : Surroundings) (envelope : Envelope) :
    List DeliveryTarget :=
  match plan service call envelope with
  | .deliver targets sends _ => (resolved call targets envelope).elim [] fun begun =>
    (readyTargets (entries begun) call.now).filter sends
  | _ => []

/-- Whether a call fails before the item has targets, such that the failure is one of the item. -/
def nacks (service : Options) (call : Surroundings) (envelope : Envelope) : Bool :=
  match plan service call envelope with
  | .nack _ _ => true
  | _ => false

/-- The failures of all deliveries of a call can be recorded. -/
structure Loud (service : Options) (call : Surroundings) : Prop where
  text : ∀ event target cause, call.deliver event target = .error cause → cause.text ≠ ""
  present : Time.encodable call.now = true
  retry : ∀ attempts, Time.encodable (call.now + targetDelay service attempts) = true

/-- Whether some delivery of a call to a target works. -/
def Delivers (call : Surroundings) (target : DeliveryTarget) : Prop :=
  ∃ event messageID, call.deliver event target = .ok messageID

/-! ## Plans -/

/-- The policy names targets for an item, or its targets were resolved before. -/
structure Planned (service : Options) (call : Surroundings) (envelope : Envelope) (config : Config)
    (settings : Settings) (targets : List DeliveryTarget) : Prop where
  processor : service.processor = true
  read : call.config = .ok config ∧ call.settings = .ok settings
  named : plannedTargets call config settings envelope = .ok (some targets)

/-- What a plan may be, and when. -/
inductive PlanOf (service : Options) (call : Surroundings) (envelope : Envelope) : Plan → Prop where
  | ack : PlanOf service call envelope .ack
  | nack (cause : String) (backoff : List Duration) (unresolved : envelope.ledger = none)
      (delays : backoff = [] ∨ backoff = service.delays) :
      PlanOf service call envelope (.nack cause backoff)
  | failed (cause : Cause) (resolved : envelope.ledger ≠ none) :
      PlanOf service call envelope (.deliver [] (fun _ => false) fun _ => .error cause)
  | drop : PlanOf service call envelope .drop
  | defer (config : Config) (settings : Settings) (targets : List DeliveryTarget)
      (deferUntil : Time) (planned : Planned service call envelope config settings targets)
      (quiet : call.quiet envelope.event = .ok (.defer deferUntil)) :
      PlanOf service call envelope (.defer targets deferUntil)
  | deliver (config : Config) (settings : Settings) (targets : List DeliveryTarget)
      (planned : Planned service call envelope config settings targets)
      (quiet : call.quiet envelope.event = .ok .deliver) :
      PlanOf service call envelope (.deliver targets (handed call config settings envelope.event)
        (targetOutcome call config settings envelope.event))

/-- The targets a plan needs a ledger for. -/
def Plan.targets : Plan → Option (List DeliveryTarget)
  | .defer targets _ => some targets
  | .deliver targets _ _ => some targets
  | _ => none

/-- There is no ledger for the targets of a new item. -/
def Stranded (service : Options) (call : Surroundings) (envelope : Envelope) : Prop :=
  ∃ targets, (plan service call envelope).targets = some targets ∧
    resolved call targets envelope = none

section Plans

variable {service : Options} {call : Surroundings} {envelope begun : Envelope} {cause : Cause}
  {config : Config} {settings : Settings} {target : DeliveryTarget} {targets : List DeliveryTarget}

lemma planOf_failPlan : PlanOf service call envelope (failPlan service cause envelope) := by
  unfold failPlan
  split
  · exact .failed cause ‹_›
  · exact .nack _ _ (not_not.mp ‹_›) (.inr rfl)

lemma planOf_legacyPlan (hledger : envelope.ledger = none) :
    PlanOf service call envelope (legacyPlan service call config envelope) := by
  unfold legacyPlan
  split
  · exact .ack
  split
  · exact planOf_failPlan
  split
  · exact planOf_failPlan
  split
  · refine .nack _ _ hledger ?_
    split
    · exact .inl rfl
    · exact .inr rfl
  · exact .ack

lemma planOf_policyPlan (hprocessor : service.processor = true) (hconfig : call.config = .ok config)
    (hsettings : call.settings = .ok settings) :
    PlanOf service call envelope (policyPlan service call config settings envelope) := by
  unfold policyPlan
  split
  · exact planOf_failPlan
  · exact .ack
  rename_i targets htargets
  split
  · exact planOf_failPlan
  · exact .drop
  · exact .defer _ _ _ _ ⟨hprocessor, ⟨hconfig, hsettings⟩, htargets⟩ ‹_›
  · exact .deliver _ _ _ ⟨hprocessor, ⟨hconfig, hsettings⟩, htargets⟩ ‹_›

lemma planOf_plan : PlanOf service call envelope (plan service call envelope) := by
  unfold plan
  split
  · exact planOf_failPlan
  rename_i config hconfig
  split
  · split
    · exact planOf_failPlan
    · exact planOf_legacyPlan (not_not.mp ‹_›)
  rename_i hprocessor
  split
  · split
    · exact planOf_legacyPlan ‹_›
    · exact planOf_failPlan
  · exact planOf_failPlan
  · exact planOf_policyPlan (Bool.not_eq_false _ ▸ hprocessor) hconfig ‹_›

lemma resolved_eq_none : resolved call targets envelope = none ↔
    envelope.ledger = none ∧ ∃ message, newDeliveryLedger targets = .error message := by
  unfold resolved
  split
  · simp_all
  · split
    · simp_all
    · simp_all

/-- There is no ledger for an item whose policy names targets that make up none, unless quiet hours
drop it. -/
lemma stranded_iff_planned : Stranded service call envelope ↔
    envelope.ledger = none ∧ ∃ config settings targets message action,
      Planned service call envelope config settings targets ∧
      newDeliveryLedger targets = .error message ∧
      call.quiet envelope.event = .ok action ∧ action ≠ .drop := by
  constructor
  · rintro ⟨targets, htargets, hnone⟩
    obtain ⟨hledger, message, hmessage⟩ := resolved_eq_none.mp hnone
    have hof : PlanOf service call envelope (plan service call envelope) := planOf_plan
    refine ⟨hledger, ?_⟩
    generalize plan service call envelope = p at hof htargets
    cases hof with
    | failed cause resolved => exact absurd hledger resolved
    | defer config settings _ deferUntil hplanned hquiet =>
      cases htargets
      exact ⟨config, settings, targets, message, _, hplanned, hmessage, hquiet, by rintro ⟨⟩⟩
    | deliver config settings _ hplanned hquiet =>
      cases htargets
      exact ⟨config, settings, targets, message, _, hplanned, hmessage, hquiet, by rintro ⟨⟩⟩
    | ack => cases htargets
    | nack => cases htargets
    | drop => cases htargets
  · rintro ⟨hledger, config, settings, targets, message, action, h, hmessage, hquiet, hkept⟩
    refine ⟨targets, ?_, resolved_eq_none.mpr ⟨hledger, message, hmessage⟩⟩
    simp only [plan, h.read.1, h.processor, Bool.true_eq_false, if_false, h.read.2, policyPlan,
      h.named, hquiet]
    cases action with
    | deliver => rfl
    | drop => exact absurd rfl hkept
    | defer deferUntil => rfl

/-- The outcome for a target that is handed to the sender is what the sender answers. -/
lemma targetOutcome_of_handed {notification : Notification}
    (h : handed call config settings notification target = true) :
    targetOutcome call config settings notification target = call.deliver notification target := by
  simp only [handed, Bool.and_eq_true] at h
  obtain ⟨⟨⟨hsender, hinput⟩, hchannel⟩, htemplate⟩ := h
  unfold targetOutcome deliveryOutcome
  rw [hsender, hchannel, htemplate]
  cases hread : call.input notification with
  | error cause =>
    rw [hread] at hinput
    cases hinput
  | ok _ => rfl

/-- A target that is handed to the sender is ready, and the outcome of its delivery is recorded. -/
lemma sent_inv (h : target ∈ sentTargets service call envelope) :
    ∃ targets sends outcome begun, plan service call envelope = .deliver targets sends outcome ∧
      resolved call targets envelope = some begun ∧
      target ∈ readyTargets (entries begun) call.now ∧
      outcome target = call.deliver envelope.event target := by
  have hof : PlanOf service call envelope (plan service call envelope) := planOf_plan
  unfold sentTargets at h
  split at h
  · rename_i targets sends outcome hplan
    cases hbegun : resolved call targets envelope with
    | none =>
      rw [hbegun] at h
      cases h
    | some begun =>
      rw [hbegun] at h
      obtain ⟨hready, hsends⟩ := List.mem_filter.mp h
      refine ⟨targets, sends, outcome, begun, hplan, hbegun, hready, ?_⟩
      rw [hplan] at hof
      cases hof with
      | failed => cases hsends
      | deliver => exact targetOutcome_of_handed hsends
  · cases h

lemma nacks_iff : nacks service call envelope = true ↔
    ∃ cause backoff, plan service call envelope = .nack cause backoff := by
  unfold nacks
  split
  · exact ⟨fun _ => ⟨_, _, ‹_›⟩, fun _ => rfl⟩
  · rename_i hplan
    exact ⟨fun h => Bool.noConfusion h, fun ⟨cause, backoff, h⟩ => absurd h (hplan cause backoff)⟩

end Plans

/-! ## Timely calls -/

/-- What a call finds lets it write the instants it writes and put items off: they have a year up to
9999, and an item is put off to a later time. -/
structure Timely (service : Options) (call : Surroundings) : Prop where
  clock : 0 < call.now
  present : Time.encodable call.now = true
  later : ∀ delay ∈ service.delays, Time.encodable (call.now + delay) = true
  poll : Time.encodable (call.now + service.pollTime) = true
  deferral : ∀ event deferUntil, call.quiet event = .ok (.defer deferUntil) →
    call.now < deferUntil ∧ Time.encodable deferUntil = true

/-! ## The times of next attempts -/

section Times

variable {service : Options} {call : Surroundings} {ledger : List DeliveryLedgerEntry}
  {entry : DeliveryLedgerEntry}

lemma later_attemptTime : call.now < attemptTime service call entry := by
  have hpoll : 0 < service.pollTime := by
    unfold Options.pollTime
    split
    · assumption
    · decide
  unfold attemptTime
  split
  · exact Int.lt_add_of_pos_right _ hpoll
  · rename_i hlater
    exact not_not.mp (not_or.mp hlater).2

lemma encodable_attemptTime (hpoll : Time.encodable (call.now + service.pollTime) = true)
    (hentry : Time.encodable entry.nextAttemptAt = true) :
    Time.encodable (attemptTime service call entry) = true := by
  unfold attemptTime
  split
  · exact hpoll
  · exact hentry

/-- The next attempt so far is the zero time until a pending target was seen; from then on it is the
time of one of them. -/
lemma foldl_earliest {P : Time → Prop} {next : Time}
    (hledger : ∀ entry ∈ ledger, P (attemptTime service call entry))
    (hnext : next.isZero = true ∨ P next)
    (hsome : P next ∨ ∃ entry ∈ ledger, entry.state = .pending) :
    P (ledger.foldl (earliest service call) next) := by
  induction ledger generalizing next with
  | nil =>
    rcases hsome with hnext | ⟨entry, hentry, -⟩
    · exact hnext
    · cases hentry
  | cons entry ledger ih =>
    obtain ⟨hentry, hrest⟩ := List.forall_mem_cons.mp hledger
    rw [List.foldl_cons]
    by_cases hstate : entry.state = .pending
    · have hearliest : P (earliest service call next entry) := by
        unfold earliest
        rw [if_neg (not_not.mpr hstate)]
        split
        · exact hentry
        · rename_i hkeep
          exact hnext.resolve_left fun hzero => hkeep (.inl hzero)
      exact ih hrest (.inr hearliest) (.inl hearliest)
    · have hskip : earliest service call next entry = next := if_pos hstate
      rw [hskip]
      refine ih hrest hnext (hsome.imp_right ?_)
      rintro ⟨other, hother, hpending⟩
      rcases List.mem_cons.mp hother with rfl | hother
      · exact absurd hpending hstate
      · exact ⟨other, hother, hpending⟩

/-- The next attempt of a ledger with a pending target is that of one of its targets. -/
lemma nextAttempt_spec {P : Time → Prop}
    (hledger : ∀ entry ∈ ledger, P (attemptTime service call entry))
    (hopen : deliveryLedgerTerminal ledger = false) : P (nextAttempt service call ledger) := by
  obtain ⟨entry, hentry, hstate⟩ := List.all_eq_false.mp hopen
  have hpending : entry.state = .pending := by simpa using hstate
  exact foldl_earliest hledger (.inl rfl) (.inr ⟨entry, hentry, hpending⟩)

end Times

/-! ## Moved envelopes -/

/-- What a move leaves of an envelope: its ledger and what it was created with.  It has no lease any
more and was last changed now. -/
structure Moved (now : Time) (held : Envelope) (directory : Directory) (after : Envelope) :
    Prop where
  outside : directory ≠ .inflight
  event : after.event = held.event
  created : after.createdAt = held.createdAt
  retried : after.lastRetriedAt = held.lastRetriedAt
  ledger : after.ledger = held.ledger
  disposition : after.disposition = held.disposition
  lease : after.leaseUntil = 0
  updated : after.updatedAt = now

section Moved

variable {now next : Time} {held after : Envelope} {directory : Directory} {cause : String}
  {backoff : List Duration}

lemma Moved.valid (h : Moved now held directory after) (hfit : Fit now held) :
    validateDeliveryEnvelope after = .ok () := by
  rw [← hfit.valid]
  simp only [validateDeliveryEnvelope, h.ledger, h.disposition]

/-- A moved envelope can be written when its next attempt can. -/
lemma Moved.encodable_iff (h : Moved now held directory after) (hfit : Fit now held) :
    after.encodable = true ↔ Time.encodable after.nextAttemptAt = true := by
  obtain ⟨h1, h2, -, -, -, h6, h7⟩ := Service.encodable_iff.mp hfit.encodable
  rw [Service.encodable_iff, h.event, h.created, h.updated, h.lease, h.retried, h.ledger]
  exact ⟨fun hall => hall.2.2.2.1,
    fun hnext => ⟨h1, h2, hfit.present, hnext, zero_encodable, h6, h7⟩⟩

lemma moved_acked (h : (acked now held).move = some (directory, after)) :
    Moved now held directory after ∧ directory = .history ∧ after.attempts = held.attempts ∧
      after.nextAttemptAt = 0 := by
  cases h
  exact ⟨⟨by decide, rfl, rfl, rfl, rfl, rfl, rfl, rfl⟩, rfl, rfl, rfl⟩

lemma moved_nacked (h : (nacked cause now backoff held).move = some (directory, after)) :
    Moved now held directory after ∧ after.attempts = held.attempts + 1 ∧
      (directory = .dead ∧ after.nextAttemptAt = 0 ∨
        directory = .pending ∧ after.attempts < backoff.length ∧
          after.nextAttemptAt = now + backoff.getD held.attempts.toNat 0) := by
  have hsome := Option.some.inj h
  split at hsome
  · cases hsome
    exact ⟨⟨by decide, rfl, rfl, rfl, rfl, rfl, rfl, rfl⟩, rfl, .inl ⟨rfl, rfl⟩⟩
  · rename_i hbelow
    cases hsome
    refine ⟨⟨by decide, rfl, rfl, rfl, rfl, rfl, rfl, rfl⟩, rfl, .inr ⟨rfl, not_le.mp hbelow, ?_⟩⟩
    have hindex : (nackedEnvelope (some cause) now held).attempts - 1 = held.attempts :=
      Int.add_sub_cancel _ _
    rw [hindex]

lemma moved_deferred (h : (deferred now next held).move = some (directory, after)) :
    Moved now held directory after ∧ directory = .pending ∧ after.attempts = held.attempts ∧
      after.nextAttemptAt = next ∧ next.isZero = false ∧ now < next := by
  obtain ⟨hlater, hsome⟩ := Option.ite_none_left_eq_some.mp h
  obtain ⟨hnonzero, hlater⟩ := not_or.mp hlater
  cases hsome
  exact ⟨⟨by decide, rfl, rfl, rfl, rfl, rfl, rfl, rfl⟩, rfl, rfl, rfl,
    Bool.eq_false_iff.mpr hnonzero, not_not.mp hlater⟩

end Moved

/-! ## Attempts -/

/-- An attempt of a pending target was recorded: it may be attempted again only below the limit, and
it has succeeded only if it was delivered to. -/
structure Attempt (limit : Int) (won : Prop) (entry later : DeliveryLedgerEntry) : Prop where
  pending : entry.state = .pending
  attempts : later.attempts = entry.attempts + 1
  again : later.state = .pending → later.attempts < limit
  succeeded : later.state = .succeeded → won

/-- The text of a failure that is kept is empty only if the text is. -/
lemma truncateText_ne {text : String} (h : text ≠ "") : truncateText text ≠ "" := by
  have hgrows : ∀ (cs : List Char) (acc : List Char × Nat), acc.1 ≠ [] →
      (cs.foldl (fun (acc : List Char × Nat) c =>
        if acc.2 + c.utf8Size ≤ 512 then (c :: acc.1, acc.2 + c.utf8Size)
        else (List.replicate (512 - acc.2) '�' ++ acc.1, 512)) acc).1 ≠ [] := by
    intro cs
    induction cs with
    | nil => exact fun acc hacc => hacc
    | cons c cs ih =>
      intro acc hacc
      refine ih _ ?_
      dsimp only
      split
      · exact List.cons_ne_nil _ _
      · exact List.append_ne_nil_of_right_ne_nil _ hacc
  unfold truncateText
  split
  · exact h
  · intro hempty
    have hnil := congrArg String.toList hempty
    rw [String.toList_ofList] at hnil
    cases hlist : text.toList with
    | nil => exact h (String.toList_eq_nil_iff.mp hlist)
    | cons first rest =>
      rw [hlist, List.foldl_cons] at hnil
      have hfirst : 0 + first.utf8Size ≤ 512 := by
        have := Char.utf8Size_le_four first
        omega
      rw [if_pos hfirst] at hnil
      exact hgrows rest _ (List.cons_ne_nil _ _) (List.reverse_eq_nil_iff.mp hnil)

section Attempts

variable {service : Options} {call : Surroundings} {outcome : Except Cause String}
  {entry changed : DeliveryLedgerEntry} {cause : String}

lemma attempt_deadEntry {limit : Int} {won : Prop} (hpending : entry.state = .pending)
    (h : deadEntry cause entry = .ok changed) : Attempt limit won entry changed := by
  simp only [deadEntry, hpending] at h
  obtain rfl := Except.ok.inj h
  exact ⟨hpending, rfl, DeliveryState.noConfusion, DeliveryState.noConfusion⟩

/-- What is recorded for a pending target is an attempt, and a success only after a delivery that
worked. -/
lemma attempt_outcomeUpdate (hpending : entry.state = .pending)
    (h : outcomeUpdate service call outcome entry = .ok changed) :
    Attempt service.limit (∃ messageID, outcome = .ok messageID) entry changed := by
  cases outcome with
  | ok messageID =>
    simp only [outcomeUpdate, ackEntry, hpending] at h
    obtain rfl := Except.ok.inj h
    exact ⟨hpending, rfl, DeliveryState.noConfusion, fun _ => ⟨messageID, rfl⟩⟩
  | error cause =>
    simp only [outcomeUpdate] at h
    split at h
    · exact attempt_deadEntry hpending h
    · rename_i hagain
      simp only [nackEntry, hpending] at h
      obtain rfl := Except.ok.inj h
      exact ⟨hpending, rfl, fun _ => not_le.mp (not_or.mp hagain).2, DeliveryState.noConfusion⟩

/-- The outcome of a delivery to a pending target can be recorded, if a failure has a text and the
time of the next attempt can be written. -/
lemma recordable_outcomeUpdate (hpending : entry.state = .pending)
    (hvalid : validateLedgerEntry 0 entry = .ok ())
    (herror : ∀ cause, outcome = .error cause → cause.text ≠ "" ∧
      Time.encodable (call.now + targetDelay service entry.attempts) = true) :
    (recordable (outcomeUpdate service call outcome) entry).isSome = true := by
  have hattempts := attempts_nonneg hvalid
  have hnonnegative : ¬ entry.attempts + 1 < 0 := by omega
  have hpositive : ¬ entry.attempts + 1 < 1 := by omega
  have hnonzero : ¬ entry.attempts + 1 = 0 := by omega
  cases outcome with
  | ok messageID =>
    have hsucceeded := ackEntry.eq_1 messageID entry
    simp only [hpending] at hsucceeded
    refine Option.isSome_iff_exists.mpr
      ⟨_, recordable_eq_some.mpr ⟨hsucceeded, ?_, zero_encodable⟩⟩
    simp [validateLedgerEntry, hnonnegative, hpositive, Time.isZero]
  | error cause =>
    obtain ⟨htext, hnext⟩ := herror cause rfl
    by_cases hlast : cause.permanent ∨ (service.delays.length : Int) ≤ entry.attempts + 1
    · have hupdate : outcomeUpdate service call (.error cause) entry =
          deadEntry cause.text entry := if_pos hlast
      have hdead := recordable_deadEntry (truncateText_ne htext) hvalid hpending
      unfold recordable at hdead ⊢
      rwa [hupdate]
    · have hupdate : outcomeUpdate service call (.error cause) entry =
          nackEntry cause.text (call.now + targetDelay service entry.attempts) entry :=
        if_neg hlast
      have hretried := nackEntry.eq_1 cause.text (call.now + targetDelay service entry.attempts)
        entry
      simp only [hpending] at hretried
      refine Option.isSome_iff_exists.mpr
        ⟨_, recordable_eq_some.mpr ⟨hupdate.trans hretried, ?_, hnext⟩⟩
      simp [validateLedgerEntry, hnonnegative, hnonzero]

end Attempts

/-! ## What a call leaves of an item with targets -/

/-- The targets of an item are resolved, or were resolved before. -/
def Begun (call : Surroundings) (before begun : Envelope) : Prop :=
  begun = before ∨ before.ledger = none ∧ ∃ ledger, begun = ledgered ledger call.now before ∧
    ∀ entry ∈ ledger, entry.state = .pending ∧ entry.attempts = 0

/-- What becomes of the entries of an item that is settled or put off: each is as it was when the
targets were resolved, or an attempt of its target was recorded. -/
structure Settling (service : Options) (call : Surroundings) (before begun : Envelope)
    (f : DeliveryLedgerEntry → DeliveryLedgerEntry) : Prop where
  start : Begun call before begun
  fit : Fit call.now begun
  proper : Proper f
  course : ∀ target entry, entryAt begun target = some entry →
    f entry = entry ∨ Attempt service.limit (Delivers call target) entry (f entry)
  tried : Loud service call → ∀ target ∈ sentTargets service call before,
    ∃ entry, entryAt begun target = some entry ∧
      Attempt service.limit (Delivers call target) entry (f entry)
  worked : ¬ nacks service call before = true

/-- The time to which a call puts an item off. -/
def DefersTo (service : Options) (call : Surroundings) (envelope : Envelope) (next : Time) : Prop :=
  call.quiet envelope.event = .ok (.defer next) ∨
    call.now < next ∧
      (Time.encodable (call.now + service.pollTime) = true → Time.encodable next = true)

section Verdicts

variable {service : Options} {call : Surroundings} {before begun after : Envelope}
  {target : DeliveryTarget} {targets : List DeliveryTarget} {directory : Directory}
  {sends : DeliveryTarget → Bool} {outcome : DeliveryTarget → Except Cause String}

lemma begun_resolved (h : resolved call targets before = some begun) :
    Begun call before begun := by
  rcases resolved_cases h with ⟨rfl, -⟩ | ⟨hnone, ledger, rfl, -, -, hfresh⟩
  · exact .inl rfl
  · exact .inr ⟨hnone, ledger, rfl,
      fun entry hentry => ⟨(hfresh entry hentry).1, (hfresh entry hentry).2.1⟩⟩

lemma Begun.attempts (h : Begun call before begun) : begun.attempts = before.attempts := by
  rcases h with rfl | ⟨-, ledger, rfl, -⟩
  · rfl
  · rfl

/-- A delivery whose outcome is recorded as a success has worked. -/
lemma delivers_of_plan (hplan : plan service call before = .deliver targets sends outcome)
    {messageID : String} (h : outcome target = .ok messageID) : Delivers call target := by
  have hdeliver : PlanOf service call before (.deliver targets sends outcome) :=
    hplan ▸ planOf_plan
  cases hdeliver with
  | failed cause _ => cases h
  | deliver config settings _ _ _ =>
    unfold targetOutcome at h
    split at h
    · cases h
    split at h
    · cases h
    unfold deliveryOutcome at h
    split at h
    · cases h
    split at h
    · cases h
    exact ⟨_, messageID, h⟩

/-- Nothing is sent unless the plan is to deliver. -/
lemma unsent
    (h : ∀ targets sends outcome, plan service call before ≠ .deliver targets sends outcome) :
    sentTargets service call before = [] := by
  refine List.eq_nil_iff_forall_not_mem.mpr fun target htarget => ?_
  obtain ⟨targets, sends, outcome, -, hplan, -⟩ := sent_inv htarget
  exact h targets sends outcome hplan

lemma not_nacks (h : ∀ cause backoff, plan service call before ≠ .nack cause backoff) :
    ¬ nacks service call before = true := by
  intro hnacks
  obtain ⟨cause, backoff, hplan⟩ := nacks_iff.mp hnacks
  exact h cause backoff hplan

/-- Nothing is recorded by a call that does not deliver. -/
lemma settling_id (hstart : Begun call before begun) (hfit : Fit call.now begun)
    (hplan : ∀ targets sends outcome, plan service call before ≠ .deliver targets sends outcome)
    (hworked : ∀ cause backoff, plan service call before ≠ .nack cause backoff) :
    Settling service call before begun id where
  start := hstart
  fit := hfit
  proper := ⟨fun _ => rfl, fun _ => id, fun _ => id⟩
  course _ _ _ := .inl rfl
  tried _ target htarget := by
    rw [unsent hplan] at htarget
    cases htarget
  worked := not_nacks hworked

lemma settling_dropped (h : Fit call.now before) (hplan : plan service call before = .drop) :
    Settling service call before before
      (changedEntry (deadEntry "delivery suppressed by quiet-hours drop")) where
  start := .inl rfl
  fit := h
  proper := proper_changedEntry fun _ _ => targetOf_deadEntry
  course target entry hentry := by
    by_cases hpending : entry.state = .pending
    · unfold changedEntry
      cases hchanged : recordable (deadEntry "delivery suppressed by quiet-hours drop") entry with
      | none => exact .inl rfl
      | some changed => exact .inr (attempt_deadEntry hpending (recordable_eq_some.mp hchanged).1)
    · exact .inl (changedEntry_deadEntry hpending)
  tried _ target htarget := by
    have hnothing : sentTargets service call before = [] := unsent (by simp [hplan])
    rw [hnothing] at htarget
    cases htarget
  worked := not_nacks (by simp [hplan])

/-- What a call records that delivers. -/
lemma settling_recorded (h : Fit call.now before)
    (hplan : plan service call before = .deliver targets sends outcome)
    (hbegun : resolved call targets before = some begun) :
    Settling service call before begun (among (readyTargets (entries begun) call.now)
      (outcomeEntry service call outcome)) := by
  obtain ⟨hfit, -⟩ := fit_resolved h hbegun
  -- the entry of a ready target, and what is recorded of it
  have hready : ∀ target ∈ readyTargets (entries begun) call.now, ∀ entry,
      entryAt begun target = some entry → entry.state = .pending ∧
        among (readyTargets (entries begun) call.now) (outcomeEntry service call outcome) entry =
          changedEntry (outcomeUpdate service call (outcome target)) entry := by
    intro target htarget entry hentry
    obtain ⟨found, hfound, hpending⟩ := exists_entryAt hfit.valid htarget
    obtain rfl := Option.mem_unique hentry hfound
    obtain ⟨-, rfl⟩ := (entryAt_iff hfit.valid).mp hentry
    exact ⟨hpending, (if_pos htarget).trans (changedEntry_congr rfl)⟩
  refine ⟨begun_resolved hbegun, hfit, proper_outcomeEntry.among, fun target entry hentry => ?_,
    fun hloud target htarget => ?_, not_nacks (by simp [hplan])⟩
  · by_cases htarget : target ∈ readyTargets (entries begun) call.now
    · obtain ⟨hpending, hchange⟩ := hready target htarget entry hentry
      rw [hchange, changedEntry]
      cases hchanged : recordable (outcomeUpdate service call (outcome target)) entry with
      | none => exact .inl rfl
      | some changed =>
        have hattempt := attempt_outcomeUpdate hpending (recordable_eq_some.mp hchanged).1
        exact .inr ⟨hattempt.pending, hattempt.attempts, hattempt.again, fun hstate =>
          (hattempt.succeeded hstate).elim fun _ => delivers_of_plan hplan⟩
    · obtain ⟨-, rfl⟩ := (entryAt_iff hfit.valid).mp hentry
      exact .inl (if_neg htarget)
  · obtain ⟨targets', sends', outcome', begun', hplan', hbegun', htarget, hdeliver⟩ :=
      sent_inv htarget
    obtain ⟨rfl, rfl, rfl⟩ := Plan.deliver.inj (hplan.symm.trans hplan')
    obtain rfl := Option.some.inj (hbegun.symm.trans hbegun')
    obtain ⟨entry, hentry, -⟩ := exists_entryAt hfit.valid htarget
    obtain ⟨hpending, hchange⟩ := hready target htarget entry hentry
    have hvalid := validate_entry (validate_entries hfit.valid)
      ((entryAt_iff hfit.valid).mp hentry).1
    obtain ⟨changed, hchanged⟩ := Option.isSome_iff_exists.mp
      (recordable_outcomeUpdate hpending hvalid fun cause hcause =>
        ⟨hloud.text _ _ cause (hdeliver.symm.trans hcause), hloud.retry _⟩)
    refine ⟨entry, hentry, ?_⟩
    rw [hchange, changedEntry, hchanged, Option.getD_some]
    have hattempt := attempt_outcomeUpdate hpending (recordable_eq_some.mp hchanged).1
    exact ⟨hattempt.pending, hattempt.attempts, hattempt.again, fun hstate =>
      (hattempt.succeeded hstate).elim fun _ => delivers_of_plan hplan⟩

/-- What a verdict may be: there is no ledger for the item, it is put back or given up, or it is
settled or put off. -/
theorem verdict_cases (service : Options) (h : Fit call.now before) :
    Stranded service call before ∧ verdict service call before = ⟨before, none⟩ ∨
    (∃ cause backoff, PlanOf service call before (.nack cause backoff) ∧
      plan service call before = .nack cause backoff ∧
      verdict service call before = nacked cause call.now backoff before) ∨
    ∃ begun f, Settling service call before begun f ∧
      (verdict service call before = acked call.now (rewritten call.now f begun) ∨
        ∃ next, DefersTo service call before next ∧
          verdict service call before = deferred call.now next (rewritten call.now f begun)) := by
  have hof : PlanOf service call before (plan service call before) := planOf_plan
  have hid : ∀ {begun : Envelope}, Fit call.now begun → rewritten call.now id begun = begun :=
    fun hfit => rewritten_eq_self hfit fun _ _ => rfl
  have hverdict : ∀ {p : Plan}, plan service call before = p →
      verdict service call before = p.verdict service call before := by
    rintro _ rfl
    rfl
  cases hplan : plan service call before with
  | ack =>
    refine .inr (.inr ⟨before, id, settling_id (.inl rfl) h (by simp [hplan])
      (by simp [hplan]), .inl ?_⟩)
    rw [hid h, hverdict hplan]
    rfl
  | nack cause backoff =>
    rw [hplan] at hof
    exact .inr (.inl ⟨cause, backoff, hof, rfl, hverdict hplan⟩)
  | drop => exact .inr (.inr ⟨before, _, settling_dropped h hplan, .inl (hverdict hplan)⟩)
  | defer targets deferUntil =>
    cases hbegun : resolved call targets before with
    | none =>
      refine .inl ⟨⟨targets, by rw [hplan]; rfl, hbegun⟩, ?_⟩
      rw [hverdict hplan, Plan.verdict, hbegun, Option.elim_none]
    | some begun =>
      obtain ⟨hfit, -⟩ := fit_resolved h hbegun
      refine .inr (.inr ⟨begun, id, settling_id (begun_resolved hbegun) hfit (by simp [hplan])
        (by simp [hplan]), ?_⟩)
      rw [hid hfit, hverdict hplan, Plan.verdict, hbegun, Option.elim_some]
      split
      · exact .inl rfl
      · rw [hplan] at hof
        cases hof with
        | defer _ _ _ _ _ quiet => exact .inr ⟨deferUntil, .inl quiet, rfl⟩
  | deliver targets sends outcome =>
    cases hbegun : resolved call targets before with
    | none =>
      refine .inl ⟨⟨targets, by rw [hplan]; rfl, hbegun⟩, ?_⟩
      rw [hverdict hplan, Plan.verdict, hbegun, Option.elim_none]
    | some begun =>
      refine .inr (.inr ⟨begun, _, settling_recorded h hplan hbegun, ?_⟩)
      have hfit : Fit call.now (recorded service call outcome begun) :=
        fit_recorded (fit_resolved h hbegun).1
      obtain ⟨ledger, hledger⟩ := (fit_resolved h hbegun).2
      obtain ⟨later, hlater⟩ : ∃ later, (recorded service call outcome begun).ledger =
          some later := ledger_recorded hledger
      rw [hverdict hplan, Plan.verdict, hbegun, Option.elim_some, finished]
      split
      · exact .inl rfl
      · rename_i hopen
        have hopen : deliveryLedgerTerminal later = false := by
          have hne := (validate_inv hfit.valid hlater).1
          rw [entries_of_ledger hlater] at hopen
          simpa [deliveryTerminal, hne] using hopen
        have hentries := hfit.written
        rw [entries_of_ledger hlater] at hentries ⊢
        refine .inr ⟨_, .inr ⟨nextAttempt_spec (fun _ _ => later_attemptTime) hopen,
          fun hpoll => ?_⟩, rfl⟩
        exact nextAttempt_spec (P := fun time => Time.encodable time = true)
          (fun entry hentry => encodable_attemptTime hpoll (hentries entry hentry)) hopen

end Verdicts

/-! ## What a call leaves behind -/

/-- An item that failed before its targets were resolved: it has one more attempt and is given up,
or put back while there are delays left. -/
structure Nacked (service : Options) (before : Envelope) (directory : Directory)
    (after : Envelope) : Prop where
  unresolved : before.ledger = none
  ledger : after.ledger = none
  attempts : after.attempts = before.attempts + 1
  placed : directory = .dead ∨ directory = .pending ∧ after.attempts < service.limit

/-- What becomes of an item: it is settled or put off, its failure is recorded before its targets
are resolved, or it is left as it was.  `sent` are the targets handed to the sender, and `broken`
says that there was such a failure. -/
inductive Outcome (service : Options) (call : Surroundings) (sent : List DeliveryTarget)
    (broken : Prop) (before : Envelope) (directory : Directory) (after : Envelope) : Prop where
  | settled (begun : Envelope) (f : DeliveryLedgerEntry → DeliveryLedgerEntry)
      (start : Begun call before begun) (attempts : after.attempts = before.attempts)
      (later : ∀ target, entryAt after target = (entryAt begun target).map f)
      (course : ∀ target entry, entryAt begun target = some entry →
        f entry = entry ∨ Attempt service.limit (Delivers call target) entry (f entry))
      (tried : Loud service call → ∀ target ∈ sent, ∃ entry, entryAt begun target = some entry ∧
        Attempt service.limit (Delivers call target) entry (f entry))
      (worked : ¬ broken)
  | nacked (failed : Nacked service before directory after) (unsent : sent = []) (due : broken)
  | kept (same : after = before) (idle : Timely service call → sent = [] ∧ ¬ broken)

section Left

variable {service : Options} {call : Surroundings} {before begun after : Envelope}
  {directory : Directory} {f : DeliveryLedgerEntry → DeliveryLedgerEntry}

lemma attempts_rewritten {now : Time} : (rewritten now f begun).attempts = begun.attempts := by
  unfold rewritten
  split
  · rfl
  · rfl

lemma limit_pos (service : Options) : 0 < service.limit := by
  unfold Options.limit Options.delays
  split
  · rename_i hsome
    exact Int.natCast_pos.mpr (List.length_pos_iff.mpr hsome)
  · decide

lemma entryAt_congr {target : DeliveryTarget} (hledger : after.ledger = before.ledger) :
    entryAt after target = entryAt before target := by
  simp only [entryAt, entries, hledger]

/-- A call that finds no ledger for the targets of an item sends nothing and puts nothing back. -/
lemma Stranded.unsent (h : Stranded service call before) :
    sentTargets service call before = [] ∧ ¬ nacks service call before = true := by
  obtain ⟨targets, htargets, hnone⟩ := h
  refine ⟨List.eq_nil_iff_forall_not_mem.mpr fun target htarget => ?_, fun hnacks => ?_⟩
  · obtain ⟨planned, sends, outcome, begun, hplan, hbegun, -⟩ := sent_inv htarget
    rw [hplan] at htargets
    cases htargets
    rw [hnone] at hbegun
    cases hbegun
  · obtain ⟨cause, backoff, hplan⟩ := nacks_iff.mp hnacks
    rw [hplan] at htargets
    cases htargets

/-- The time at which a failed item is attempted again can be written. -/
lemma Timely.encodable_backoff (h : Timely service call) {backoff : List Duration}
    (hdelays : backoff = [] ∨ backoff = service.delays) (index : Nat) :
    Time.encodable (call.now + backoff.getD index 0) = true := by
  rw [List.getD_eq_getElem?_getD]
  cases hdelay : backoff[index]? with
  | none =>
    rw [Option.getD_none, Int.add_zero]
    exact h.present
  | some delay =>
    have hmem := List.mem_of_getElem? hdelay
    rcases hdelays with rfl | rfl
    · cases hmem
    · exact h.later delay hmem

/-- A timely call moves its item, unless there is no ledger for it. -/
theorem verdict_lands (htimely : Timely service call) (h : Fit call.now before)
    (hledger : ¬ Stranded service call before) :
    ∃ directory after, (verdict service call before).move = some (directory, after) ∧
      after.encodable = true := by
  rcases verdict_cases service h with
    ⟨hstranded, -⟩ | ⟨cause, backoff, hplan, -, hverdict⟩ | ⟨begun, f, hsettling, hverdict⟩
  · exact absurd hstranded hledger
  · obtain ⟨⟨directory, after⟩, hmove⟩ :
        ∃ moved, (verdict service call before).move = some moved := by
      rw [hverdict]
      exact ⟨_, rfl⟩
    refine ⟨directory, after, hmove, ?_⟩
    rw [hverdict] at hmove
    obtain ⟨hmoved, -, hnext⟩ := moved_nacked hmove
    cases hplan with
    | nack _ _ _ delays =>
      rw [hmoved.encodable_iff h]
      rcases hnext with ⟨-, hnext⟩ | ⟨-, -, hnext⟩
      · rw [hnext]
        exact zero_encodable
      · rw [hnext]
        exact htimely.encodable_backoff delays _
  · have hfit := fit_rewritten hsettling.fit hsettling.proper
    rcases hverdict with hverdict | ⟨next, hnext, hverdict⟩
    · refine ⟨_, _, by rw [hverdict]; rfl, ?_⟩
      have hmove : (acked call.now (rewritten call.now f begun)).move = some (.history, _) := rfl
      obtain ⟨hmoved, -, -, hzero⟩ := moved_acked hmove
      rw [hmoved.encodable_iff hfit, hzero]
      exact zero_encodable
    · obtain ⟨hlater, hencodable⟩ : call.now < next ∧ Time.encodable next = true := by
        rcases hnext with hquiet | ⟨hlater, hencodable⟩
        · exact htimely.deferral _ _ hquiet
        · exact ⟨hlater, hencodable htimely.poll⟩
      have hzero : ¬ next.isZero = true := by
        have hne : next ≠ 0 := ne_of_gt (lt_trans htimely.clock hlater)
        simpa [Time.isZero] using hne
      obtain ⟨⟨directory, after⟩, hmove⟩ :
          ∃ moved, (deferred call.now next (rewritten call.now f begun)).move = some moved :=
        ⟨_, if_neg (not_or.mpr ⟨hzero, not_not.mpr hlater⟩)⟩
      refine ⟨directory, after, by rw [hverdict, hmove], ?_⟩
      obtain ⟨hmoved, -, -, hnext, -⟩ := moved_deferred hmove
      rw [hmoved.encodable_iff hfit, hnext]
      exact hencodable

/-- What a call leaves of an item that it settles or puts off. -/
lemma Settling.outcome (h : Settling service call before begun f)
    (hledger : after.ledger = (rewritten call.now f begun).ledger)
    (hattempts : after.attempts = (rewritten call.now f begun).attempts) :
    Outcome service call (sentTargets service call before) (nacks service call before = true)
      before directory after := by
  refine .settled begun f h.start ((hattempts.trans attempts_rewritten).trans h.start.attempts)
    (fun target => ?_) h.course h.tried h.worked
  rw [entryAt_congr hledger, entryAt_rewritten h.proper]

/-- What is moved by a call is an outcome. -/
theorem outcome_moved (h : Fit call.now before)
    (hmove : (verdict service call before).move = some (directory, after)) :
    validateDeliveryEnvelope after = .ok () ∧
      Outcome service call (sentTargets service call before) (nacks service call before = true)
        before directory after := by
  rcases verdict_cases service h with
    ⟨-, hverdict⟩ | ⟨cause, backoff, hof, hplan, hverdict⟩ | ⟨begun, f, hsettling, hverdict⟩
  · rw [hverdict] at hmove
    cases hmove
  · rw [hverdict] at hmove
    obtain ⟨hmoved, hattempts, hplaced⟩ := moved_nacked hmove
    cases hof with
    | nack _ _ unresolved delays =>
      refine ⟨hmoved.valid h, .nacked ⟨unresolved, hmoved.ledger.trans unresolved, hattempts, ?_⟩
        (unsent (by simp [hplan])) (nacks_iff.mpr ⟨cause, backoff, hplan⟩)⟩
      refine hplaced.imp And.left fun hpending => ⟨hpending.1, ?_⟩
      rcases delays with rfl | rfl
      · exact lt_trans hpending.2.1 (limit_pos service)
      · exact hpending.2.1
  · have hfit := fit_rewritten hsettling.fit hsettling.proper
    rcases hverdict with hverdict | ⟨next, -, hverdict⟩
    · rw [hverdict] at hmove
      obtain ⟨hmoved, -, hattempts, -⟩ := moved_acked hmove
      exact ⟨hmoved.valid hfit, hsettling.outcome hmoved.ledger hattempts⟩
    · rw [hverdict] at hmove
      obtain ⟨hmoved, -, hattempts, -⟩ := moved_deferred hmove
      exact ⟨hmoved.valid hfit, hsettling.outcome hmoved.ledger hattempts⟩

/-- What is left held by a call that finds no move which can be written is an outcome as well. -/
theorem outcome_held (h : Fit call.now before)
    (hmove : ∀ directory after, (verdict service call before).move = some (directory, after) →
      ¬ after.encodable = true) :
    Outcome service call (sentTargets service call before) (nacks service call before = true)
      before .inflight (verdict service call before).held := by
  have hkept : (verdict service call before).held = before →
      Outcome service call (sentTargets service call before) (nacks service call before = true)
        before .inflight (verdict service call before).held := by
    refine fun hsame => .kept hsame fun htimely => Stranded.unsent ?_
    by_contra hledger
    obtain ⟨directory, after, hlands, hencodable⟩ := verdict_lands htimely h hledger
    exact hmove directory after hlands hencodable
  rcases verdict_cases service h with
    ⟨-, hverdict⟩ | ⟨cause, backoff, -, -, hverdict⟩ | ⟨begun, f, hsettling, hverdict⟩
  · exact hkept (by rw [hverdict])
  · exact hkept (by rw [hverdict]; rfl)
  · have hheld : (verdict service call before).held = rewritten call.now f begun := by
      rcases hverdict with hverdict | ⟨next, -, hverdict⟩
      · rw [hverdict]
        rfl
      · rw [hverdict]
        rfl
    rw [hheld]
    exact hsettling.outcome rfl rfl

end Left

end AgentBell.Service
