import AgentBell.Service.Custody

/-!
# The verdict of a call

What a call of `ProcessOne` makes of the item it holds, as a function of what it finds.  The call
first decides what to do with the item: to settle it, to put it back, to drop it, to put it off, or
to deliver it.  The plan and the ledger then give the verdict: which outcomes of deliveries are
recorded, and where the item moves.  Over any custody of a machine without failing steps, the call
ends as its verdict says; this is the one place where the code of a call is followed, and what is
said about calls elsewhere is said about the verdict.
-/

namespace AgentBell.Service

open Interleaving Interleaving.Routine Queue Queue.Faulty

/-! ## Plans -/

/-- What a call decides to do with its item.  An item is delivered to the targets that are ready:
`sends` says which of them are handed to the sender, and `outcome` how the deliveries end. -/
inductive Plan where
  | ack
  | nack (cause : String) (backoff : List Duration)
  | drop
  | defer (targets : List DeliveryTarget) (deferUntil : Time)
  | deliver (targets : List DeliveryTarget) (sends : DeliveryTarget → Bool)
      (outcome : DeliveryTarget → Except Cause String)

section Plans

variable (service : Options) (call : Surroundings)

/-- The plan for an item that cannot be processed: all its ready targets have failed, or the item
has when it has no targets. -/
def failPlan (cause : Cause) (envelope : Envelope) : Plan :=
  if envelope.ledger ≠ none then .deliver [] (fun _ => false) fun _ => .error cause
  else .nack cause.text service.delays

/-- The plan for an item that goes to the default channel. -/
def legacyPlan (config : Config) (envelope : Envelope) : Plan :=
  if config.eventEnabled envelope.event.event = false then .ack
  else
    match config.default with
    | none => failPlan service ⟨"default channel is missing", false⟩ envelope
    | some _ =>
      if call.sender = false then
        failPlan service ⟨"configured sender is unavailable", false⟩ envelope
      else
        match call.send envelope.event with
        | .error cause => .nack cause.text (if cause.permanent then [] else service.delays)
        | .ok () => .ack

/-- Whether the sender is handed a notification for a target: there is a sender, the notification
can be rendered, and the channel and the template of the target are known. -/
def handed (config : Config) (settings : Settings) (notification : Notification)
    (target : DeliveryTarget) : Bool :=
  call.sender && (call.input notification).isOk && config.channels.contains target.channelID &&
    settings.templates.contains target.templateID

/-- How the deliveries of an item to its targets end, when there is a sender and when not. -/
def targetOutcome (config : Config) (settings : Settings) (notification : Notification)
    (target : DeliveryTarget) : Except Cause String :=
  if call.sender = false then .error ⟨"configured sender is unavailable", false⟩
  else
    match call.input notification with
    | .error cause => .error cause
    | .ok () => deliveryOutcome call config settings notification target

/-- The plan for an item that goes to the targets of the policy. -/
def policyPlan (config : Config) (settings : Settings) (envelope : Envelope) : Plan :=
  match plannedTargets call config settings envelope with
  | .error cause => failPlan service cause envelope
  | .ok none => .ack
  | .ok (some targets) =>
    match call.quiet envelope.event with
    | .error cause => failPlan service cause envelope
    | .ok .drop => .drop
    | .ok (.defer deferUntil) => .defer targets deferUntil
    | .ok .deliver =>
      .deliver targets (handed call config settings envelope.event)
        (targetOutcome call config settings envelope.event)

/-- What a call decides to do with its item. -/
def plan (envelope : Envelope) : Plan :=
  match call.config with
  | .error cause => failPlan service cause envelope
  | .ok config =>
    if service.processor = false then
      if envelope.ledger ≠ none then
        failPlan service ⟨"M2 processor is required for an item with a delivery ledger", false⟩
          envelope
      else legacyPlan service call config envelope
    else
      match call.settings with
      | .error .notFound =>
        if envelope.ledger = none then legacyPlan service call config envelope
        else failPlan service ⟨"agentbell settings not found", false⟩ envelope
      | .error (.failed cause) => failPlan service cause envelope
      | .ok settings => policyPlan service call config settings envelope

/-! ## Verdicts -/

/-- The change that records how the delivery to a target ended. -/
def outcomeUpdate : Except Cause String → DeliveryLedgerEntry → Except String DeliveryLedgerEntry
  | .ok messageID, entry => ackEntry messageID entry
  | .error cause, entry =>
    if cause.permanent ∨ (service.delays.length : Int) ≤ entry.attempts + 1 then
      deadEntry cause.text entry
    else nackEntry cause.text (call.now + targetDelay service entry.attempts) entry

/-- The entry of a target after the outcome of the delivery to it. -/
def outcomeEntry (outcome : DeliveryTarget → Except Cause String) :
    DeliveryLedgerEntry → DeliveryLedgerEntry :=
  changedEntry fun entry => outcomeUpdate service call (outcome (targetOf entry)) entry

/-- The envelope in which the outcomes of the ready targets are recorded. -/
def recorded (outcome : DeliveryTarget → Except Cause String) (envelope : Envelope) : Envelope :=
  rewritten call.now
    (among (readyTargets (entries envelope) call.now) (outcomeEntry service call outcome)) envelope

/-- The envelope with targets: it has them already, or there is a ledger for them. -/
def resolved (targets : List DeliveryTarget) (envelope : Envelope) : Option Envelope :=
  match envelope.ledger with
  | some _ => some envelope
  | none =>
    match newDeliveryLedger targets with
    | .error _ => none
    | .ok ledger => some (ledgered ledger call.now envelope)

/-- A resolved item is settled, or it is put off until the next attempt. -/
def finished (envelope : Envelope) : Verdict :=
  if deliveryTerminal (entries envelope) then acked call.now envelope
  else deferred call.now (nextAttempt service call (entries envelope)) envelope

/-- The envelope of an item that is dropped: the pending targets are given up. -/
def dropped (envelope : Envelope) : Envelope :=
  rewritten call.now (changedEntry (deadEntry "delivery suppressed by quiet-hours drop")) envelope

/-- What a plan comes to. -/
def Plan.verdict (envelope : Envelope) : Plan → Verdict
  | .ack => acked call.now envelope
  | .nack cause backoff => nacked cause call.now backoff envelope
  | .drop => acked call.now (dropped call envelope)
  | .defer targets deferUntil =>
    (resolved call targets envelope).elim ⟨envelope, none⟩ fun begun =>
      if deliveryTerminal (entries begun) then acked call.now begun
      else deferred call.now deferUntil begun
  | .deliver targets _ outcome =>
    (resolved call targets envelope).elim ⟨envelope, none⟩ fun begun =>
      finished service call (recorded service call outcome begun)

/-- What a call makes of its item. -/
def verdict (envelope : Envelope) : Verdict :=
  (plan service call envelope).verdict service call envelope

end Plans

section Changes

variable {service : Options} {call : Surroundings} {outcome : Except Cause String}
  {outcomes : DeliveryTarget → Except Cause String} {cause messageID : String}
  {entry changed : DeliveryLedgerEntry} {next : Time} {envelope begun : Envelope}
  {targets : List DeliveryTarget}
  {update update' : DeliveryLedgerEntry → Except String DeliveryLedgerEntry}

lemma targetOf_ackEntry (h : ackEntry messageID entry = .ok changed) :
    targetOf changed = targetOf entry := by
  unfold ackEntry at h
  split at h <;> cases h <;> rfl

lemma targetOf_nackEntry (h : nackEntry cause next entry = .ok changed) :
    targetOf changed = targetOf entry := by
  unfold nackEntry at h
  split at h <;> cases h
  rfl

lemma targetOf_deadEntry (h : deadEntry cause entry = .ok changed) :
    targetOf changed = targetOf entry := by
  unfold deadEntry at h
  split at h <;> cases h <;> rfl

lemma targetOf_outcomeUpdate (h : outcomeUpdate service call outcome entry = .ok changed) :
    targetOf changed = targetOf entry := by
  cases outcome with
  | ok messageID => exact targetOf_ackEntry h
  | error cause =>
    simp only [outcomeUpdate] at h
    split at h
    · exact targetOf_deadEntry h
    · exact targetOf_nackEntry h

lemma proper_outcomeEntry : Proper (outcomeEntry service call outcomes) :=
  proper_changedEntry fun _ _ => targetOf_outcomeUpdate

lemma changedEntry_congr (h : update entry = update' entry) :
    changedEntry update entry = changedEntry update' entry := by
  unfold changedEntry recordable
  rw [h]

/-- An envelope with targets has had them before, or it has a new ledger. -/
lemma resolved_cases (h : resolved call targets envelope = some begun) :
    begun = envelope ∧ (∃ ledger, envelope.ledger = some ledger) ∨
      envelope.ledger = none ∧ ∃ ledger, begun = ledgered ledger call.now envelope ∧ ledger ≠ [] ∧
        validateLedgerEntries 0 [] ledger = .ok () ∧ ∀ entry ∈ ledger,
          entry.state = .pending ∧ entry.attempts = 0 ∧ entry.nextAttemptAt = 0 := by
  unfold resolved at h
  split at h
  · rename_i ledger hledger
    cases h
    exact .inl ⟨rfl, ledger, hledger⟩
  rename_i hnone
  split at h
  · cases h
  rename_i ledger hnew
  cases h
  obtain ⟨hentries, hne⟩ := newDeliveryLedger_inv hnew
  exact .inr ⟨hnone, ledger, rfl, hne, validate_newLedgerEntries hentries⟩

/-- Once there are targets, the envelope may still be held. -/
lemma fit_resolved (h : Fit call.now envelope)
    (hbegun : resolved call targets envelope = some begun) :
    Fit call.now begun ∧ ∃ ledger, begun.ledger = some ledger := by
  rcases resolved_cases hbegun with ⟨rfl, hledger⟩ | ⟨-, ledger, rfl, hne, hvalid, hfresh⟩
  · exact ⟨h, hledger⟩
  · refine ⟨fit_ledgered h hne hvalid fun entry hentry => ?_, ledger, rfl⟩
    rw [(hfresh entry hentry).2.2]
    exact zero_encodable

lemma validate_resolved (h : validateDeliveryEnvelope envelope = .ok ())
    (hbegun : resolved call targets envelope = some begun) :
    validateLedgerEntries 0 [] (entries begun) = .ok () := by
  rcases resolved_cases hbegun with ⟨rfl, -⟩ | ⟨-, ledger, rfl, -, hvalid, -⟩
  · exact validate_entries h
  · exact hvalid

lemma fit_recorded (h : Fit call.now envelope) :
    Fit call.now (recorded service call outcomes envelope) :=
  fit_rewritten h proper_outcomeEntry.among

end Changes

section Calls

variable {M : Machine Cmd (fun c => Except OsError (Reply c)) Store Turn} {c : Custody M}
  {service : Options} {call : Surroundings} {item : Item} {s t : Store} {p : QueueRoutine Item Unit}
  {A : Item → Store → Prop} {cause : Cause} {target : DeliveryTarget} {begun : Envelope}
  {targets : List DeliveryTarget} {config : Config} {settings : Settings} {now : Time}
  {ledger : List DeliveryLedgerEntry} {entry : DeliveryLedgerEntry}
  {f : DeliveryLedgerEntry → DeliveryLedgerEntry}

/-! ## Routines that may fail -/

/-- The failure of a routine is no failure of what attempts it. -/
lemma meets_attempt (hp : Meets M (fun _ item' t => A item' t) p item s) :
    Meets M (fun r item' t => (∃ failures, r = .ok failures) ∧ A item' t) (attempt p) item s :=
  meets_catching_map hp (fun _ _ _ h => ⟨⟨_, rfl⟩, h⟩) fun _ _ _ h => meets_pure ⟨⟨_, rfl⟩, h⟩

lemma meets_joined {failures : List String} (h : A item s) :
    Meets M (fun _ item' t => A item' t) (joined failures) item s :=
  meets_raiseIf (fun _ => h) fun _ => h

lemma meets_attempt_joined {A : Store → Prop} {f : List String → List String}
    (hp : Meets M (fun _ _ t => A t) p item s) :
    Meets M (fun _ _ t => A t) (attempt p >>= fun more => joined (f more)) item s := by
  refine meets_bind (meets_attempt hp) ?_ fun _ _ _ h => h.2
  exact fun _ _ _ h => meets_joined h.2

lemma meets_failing {A : Store → Prop} (hp : Meets M (fun _ _ t => A t) p item s) :
    Meets M (fun _ _ t => A t) (failing cause p) item s := meets_attempt_joined hp

/-! ## Recording outcomes -/

lemma meets_failTarget (h : Held c call.now item s)
    (hentry : entryAt item.envelope target = some entry) :
    Meets M (fun _ item' t => Held c call.now item' t ∧
        item' = ⟨rewritten call.now (among [target] fun _ =>
          changedEntry (outcomeUpdate service call (.error cause)) entry) item.envelope,
          item.fileName⟩)
      (failTarget service call target cause) item s := by
  refine meets_locals_bind ?_
  have hfound : ledgerEntry (item.envelope.ledger.getD []) target = some entry := hentry
  simp only [hfound]
  split
  · rename_i hlast
    have hupdate : outcomeUpdate service call (.error cause) entry = deadEntry cause.text entry :=
      if_pos hlast
    rw [changedEntry_congr hupdate]
    exact (meets_updateTarget h hentry fun _ => targetOf_deadEntry).weaken
      fun _ _ _ h' => ⟨h'.1, h'.2.1⟩
  · rename_i hagain
    have hupdate : outcomeUpdate service call (.error cause) entry =
        nackEntry cause.text (call.now + targetDelay service entry.attempts) entry := if_neg hagain
    rw [changedEntry_congr hupdate]
    exact (meets_updateTarget h hentry fun _ => targetOf_nackEntry).weaken
      fun _ _ _ h' => ⟨h'.1, h'.2.1⟩

/-- The outcomes of several targets are recorded one after the other. -/
def recordAll (record : DeliveryTarget → QueueRoutine Item (List String)) :
    List DeliveryTarget → QueueRoutine Item (List String)
  | [] => pure []
  | target :: rest => do
    let failures ← record target
    let more ← recordAll record rest
    pure (failures ++ more)

lemma failTargets_eq (cause : Cause) (targets : List DeliveryTarget) :
    failTargets service call cause targets =
      recordAll (fun target => attempt (failTarget service call target cause)) targets := by
  induction targets with
  | nil => rfl
  | cons target targets ih =>
    unfold failTargets recordAll
    rw [ih]

lemma deliverTargets_eq (config : Config) (settings : Settings) (event : Notification)
    (targets : List DeliveryTarget) : deliverTargets service call config settings event targets =
      recordAll (fun target => recordOutcome service call target
        (deliveryOutcome call config settings event target)) targets := by
  induction targets with
  | nil => rfl
  | cons target targets ih =>
    unfold deliverTargets recordAll
    rw [ih]

/-- The change of the entry of one target, said of that entry or of all. -/
lemma rewritten_among_self (h : validateDeliveryEnvelope item.envelope = .ok ())
    (hentry : entryAt item.envelope target = some entry) :
    rewritten now (among [target] fun _ => f entry) item.envelope =
      rewritten now (among [target] f) item.envelope := by
  obtain ⟨hmem, rfl⟩ := (entryAt_iff h).mp hentry
  refine rewritten_congr fun other hother => ?_
  unfold among
  split
  · rename_i htarget
    rw [eq_of_targetOf (validate_entries h) hmem hother (List.mem_singleton.mp htarget)]
  · rfl

/-- The targets still have entries after one of them has changed. -/
lemma exists_entryAt_rewritten (hf : Proper f) {envelope : Envelope}
    (h : ∃ entry, entryAt envelope target = some entry) :
    ∃ entry, entryAt (rewritten now f envelope) target = some entry := by
  obtain ⟨entry, hentry⟩ := h
  exact ⟨f entry, by rw [entryAt_rewritten hf, hentry, Option.map_some]⟩

lemma meets_recordAll {record : DeliveryTarget → QueueRoutine Item (List String)} (hf : Proper f)
    (hrecord : ∀ target ∈ targets, ∀ (item : Item) (s : Store) (entry : DeliveryLedgerEntry),
      Held c now item s → entryAt item.envelope target = some entry →
      Meets M (fun r item' t => (∃ failures, r = .ok failures) ∧ Held c now item' t ∧
          item' = ⟨rewritten now (among [target] fun _ => f entry) item.envelope, item.fileName⟩)
        (record target) item s)
    (hdistinct : targets.Nodup)
    (hentries : ∀ target ∈ targets, ∃ entry, entryAt item.envelope target = some entry)
    (h : Held c now item s) :
    Meets M (fun r item' t => (∃ failures, r = .ok failures) ∧ Held c now item' t ∧
        item' = ⟨rewritten now (among targets f) item.envelope, item.fileName⟩)
      (recordAll record targets) item s := by
  induction targets generalizing item s with
  | nil =>
    have hsame : rewritten now (among [] f) item.envelope = item.envelope :=
      rewritten_eq_self h.fit fun _ _ => if_neg List.not_mem_nil
    exact meets_pure ⟨⟨_, rfl⟩, h, by rw [hsame]⟩
  | cons target targets ih =>
    obtain ⟨hnew, hdistinct⟩ := List.nodup_cons.mp hdistinct
    obtain ⟨⟨entry, hentry⟩, hentries⟩ := List.forall_mem_cons.mp hentries
    refine meets_bind (hrecord target List.mem_cons_self item s entry h hentry) ?_
      (by rintro e _ _ ⟨⟨_, ⟨⟩⟩, -⟩)
    rintro failures item' t ⟨-, hheld, rfl⟩
    rw [rewritten_among_self h.fit.valid hentry] at hheld ⊢
    refine meets_bind (ih (fun target htarget => hrecord target (List.mem_cons_of_mem _ htarget))
      hdistinct (fun other hother => exists_entryAt_rewritten hf.among (hentries other hother))
      hheld) ?_ (by rintro e _ _ ⟨⟨_, ⟨⟩⟩, -⟩)
    rintro more item'' u ⟨-, hheld', rfl⟩
    refine meets_pure ⟨⟨_, rfl⟩, hheld', ?_⟩
    rw [rewritten_rewritten, among_cons hf hnew]

/-- A ready target has an entry. -/
lemma exists_entryAt {envelope : Envelope} (h : validateDeliveryEnvelope envelope = .ok ())
    (htarget : target ∈ readyTargets (entries envelope) now) :
    ∃ entry, entryAt envelope target = some entry ∧ entry.state = .pending := by
  obtain ⟨entry, hentry, hpending, heq⟩ := mem_readyTargets htarget
  exact ⟨entry, (entryAt_iff h).mpr ⟨hentry, heq.symm⟩, hpending⟩

/-- The outcomes of the ready targets are recorded, and then the item moves on. -/
lemma meets_recorded {record : DeliveryTarget → QueueRoutine Item (List String)}
    {outcome : DeliveryTarget → Except Cause String} (h : Held c call.now item s)
    (hrecord : ∀ target (item : Item) (s : Store) (entry : DeliveryLedgerEntry),
      Held c call.now item s → entryAt item.envelope target = some entry →
      Meets M (fun r item' t => (∃ failures, r = .ok failures) ∧ Held c call.now item' t ∧
          item' = ⟨rewritten call.now (among [target] fun _ =>
            changedEntry (outcomeUpdate service call (outcome target)) entry) item.envelope,
            item.fileName⟩)
        (record target) item s) :
    Meets M (fun r item' t => (∃ failures, r = .ok failures) ∧ Held c call.now item' t ∧
        item' = ⟨recorded service call outcome item.envelope, item.fileName⟩)
      (recordAll record (readyTargets (entries item.envelope) call.now)) item s := by
  refine meets_recordAll proper_outcomeEntry (fun target _ item s entry h hentry => ?_)
    (nodup_readyTargets (validate_entries h.fit.valid))
    (fun target htarget => (exists_entryAt h.fit.valid htarget).imp fun _ => And.left) h
  have htarget := ((entryAt_iff h.fit.valid).mp hentry).2
  have hsame : outcomeEntry service call outcome entry =
      changedEntry (outcomeUpdate service call (outcome target)) entry := by
    rw [← htarget]
    exact changedEntry_congr rfl
  rw [hsame]
  exact hrecord target item s entry h hentry

lemma meets_failTargets (h : Held c call.now item s) :
    Meets M (fun r item' t => (∃ failures, r = .ok failures) ∧ Held c call.now item' t ∧
        item' = ⟨recorded service call (fun _ => .error cause) item.envelope, item.fileName⟩)
      (failTargets service call cause (readyTargets (entries item.envelope) call.now)) item s := by
  rw [failTargets_eq]
  exact meets_recorded h fun _ _ _ _ h hentry => meets_attempt (meets_failTarget h hentry)

lemma meets_deliverTargets {event : Notification} (h : Held c call.now item s) :
    Meets M (fun r item' t => (∃ failures, r = .ok failures) ∧ Held c call.now item' t ∧
        item' = ⟨recorded service call (deliveryOutcome call config settings event) item.envelope,
          item.fileName⟩)
      (deliverTargets service call config settings event
        (readyTargets (entries item.envelope) call.now)) item s := by
  rw [deliverTargets_eq]
  refine meets_recorded h fun target item s entry h hentry => ?_
  cases deliveryOutcome call config settings event target with
  | ok messageID =>
    exact meets_attempt ((meets_updateTarget h hentry fun _ => targetOf_ackEntry).weaken
      fun _ _ _ h' => ⟨h'.1, h'.2.1⟩)
  | error cause =>
    refine meets_bind (meets_attempt (meets_failTarget h hentry)) ?_
      (by rintro e _ _ ⟨⟨_, ⟨⟩⟩, -⟩)
    exact fun _ _ _ h' => meets_pure ⟨⟨_, rfl⟩, h'.2⟩

/-! ## Moving a resolved item on -/

lemma deliveryTerminal_eq (h : Fit now item.envelope)
    (hledger : item.envelope.ledger = some ledger) :
    deliveryTerminal (item.envelope.ledger.getD []) = deliveryLedgerTerminal ledger := by
  have hne := (validate_inv h.valid hledger).1
  simp [hledger, deliveryTerminal, hne]

lemma meets_ack_terminal (h : Held c now item s)
    (hterminal : deliveryTerminal (item.envelope.ledger.getD []) = true) :
    Meets M (fun _ _ t => Ends c now item.fileName (acked now item.envelope) t) (ack now)
      item s := by
  refine meets_ack h fun ledger hledger => ?_
  rwa [deliveryTerminal_eq h.fit hledger] at hterminal

lemma meets_finishResolvedItem (h : Held c call.now item s)
    (hledger : item.envelope.ledger = some ledger) :
    Meets M (fun _ _ t => Ends c call.now item.fileName (finished service call item.envelope) t)
      (finishResolvedItem service call) item s := by
  refine meets_locals_bind ?_
  unfold finished entries
  dsimp only
  split
  · exact meets_ack_terminal h ‹_›
  rename_i hopen
  rw [Bool.not_eq_true, deliveryTerminal_eq h.fit hledger] at hopen
  refine meets_raiseIf_bind (fun hzero => ?_) fun _ => meets_defer h hledger hopen
  refine .inr ⟨fun directory after hmove => ?_, h⟩
  rw [deferred, if_pos (.inl hzero)] at hmove
  cases hmove

/-! ## Resolving targets -/

/-- The targets of an item are fixed, unless there is no ledger for them. -/
lemma meets_resolve_bind {k : List DeliveryTarget → QueueRoutine Item Unit}
    {post : Except OsError Unit → Item → Store → Prop} (h : Held c call.now item s)
    (hsome : ∀ begun t, resolved call targets item.envelope = some begun →
      Held c call.now ⟨begun, item.fileName⟩ t →
      Meets M post (k (readyTargets (entries begun) call.now)) ⟨begun, item.fileName⟩ t)
    (hnone : resolved call targets item.envelope = none → ∀ e, post (.error e) item s) :
    Meets M post (resolveTargets targets call.now >>= k) item s := by
  have hresolve : Meets M (fun r item' t =>
      resolved call targets item.envelope = some item'.envelope ∧ Held c call.now item' t ∧
          item'.fileName = item.fileName ∧
          r = .ok (readyTargets (entries item'.envelope) call.now) ∨
        resolved call targets item.envelope = none ∧ (∃ e, r = .error e) ∧ item' = item ∧ t = s)
      (resolveTargets targets call.now) item s := by
    refine meets_validated_bind h ?_
    cases hledger : item.envelope.ledger with
    | some ledger =>
      refine meets_checked_bind (mapError_eq_ok.mpr h.fit.valid)
        (meets_pure (.inl ⟨?_, h, rfl, ?_⟩))
      · simp only [resolved, hledger]
      · rw [entries_of_ledger hledger]
    | none =>
      cases hnew : newDeliveryLedger targets with
      | error message =>
        refine meets_raise (.inr ⟨?_, ⟨_, rfl⟩, rfl, rfl⟩)
        simp only [resolved, hledger, hnew]
      | ok ledger =>
        have hbegun : resolved call targets item.envelope =
            some (ledgered ledger call.now item.envelope) := by
          simp only [resolved, hledger, hnew]
        obtain ⟨hfit, -⟩ := fit_resolved h.fit hbegun
        refine meets_checked_bind rfl (meets_checked_bind hfit.valid ?_)
        refine meets_bind (c.rewrite h.has hfit.valid) ?_ ?_
        · rintro _ item' t ⟨hhas, hwritten, -⟩
          obtain ⟨-, rfl⟩ := hwritten hfit.encodable
          exact meets_pure (.inl ⟨hbegun, ⟨hfit, hhas⟩, rfl, rfl⟩)
        · rintro e item' t ⟨-, hwritten, -⟩
          cases (hwritten hfit.encodable).1
  refine meets_bind hresolve ?_ ?_
  · rintro ready ⟨envelope, name⟩ t (⟨hbegun, hheld, rfl, hready⟩ | ⟨-, ⟨e, ⟨⟩⟩, -⟩)
    obtain rfl := Except.ok.inj hready
    exact hsome envelope t hbegun hheld
  · rintro e item' t (⟨-, -, -, ⟨⟩⟩ | ⟨hmissing, -, rfl, rfl⟩)
    exact hnone hmissing e

/-- An item for which there is no ledger is still held. -/
lemma ends_unresolved {f : Envelope → Verdict} (h : Held c now item s)
    (hnone : resolved call targets item.envelope = none) : Ends c now item.fileName
      ((resolved call targets item.envelope).elim ⟨item.envelope, none⟩ f) s := by
  rw [hnone]
  exact .inr ⟨by rintro _ _ ⟨⟩, h⟩

lemma resolved_of_ledger {envelope : Envelope} (h : envelope.ledger = some ledger) :
    resolved call targets envelope = some envelope := by
  simp only [resolved, h]

/-! ## Failures of a whole item -/

lemma ledger_recorded {outcome : DeliveryTarget → Except Cause String} {envelope : Envelope}
    (h : envelope.ledger = some ledger) :
    ∃ later, (recorded service call outcome envelope).ledger = some later := by
  unfold recorded
  rw [rewritten_of_ledger h]
  exact ⟨_, rfl⟩

lemma meets_failResolvedTargets (h : Held c call.now item s)
    (hledger : item.envelope.ledger = some ledger) :
    Meets M (fun _ _ t => Ends c call.now item.fileName
        (finished service call (recorded service call (fun _ => .error cause) item.envelope)) t)
      (failResolvedTargets service call cause) item s := by
  refine meets_resolve_bind h (fun begun t hbegun hheld => ?_) fun hnone => ?_
  · rw [resolved_of_ledger hledger] at hbegun
    obtain rfl := Option.some.inj hbegun
    refine meets_bind (meets_failTargets hheld) ?_ (by rintro e _ _ ⟨⟨_, ⟨⟩⟩, -⟩)
    rintro failures item' u ⟨-, hheld', rfl⟩
    have hresolved : ∃ later, (recorded service call (fun _ => .error cause)
        item.envelope).ledger = some later := ledger_recorded hledger
    obtain ⟨later, hlater⟩ := hresolved
    exact meets_attempt_joined (meets_finishResolvedItem hheld' hlater)
  · rw [resolved_of_ledger hledger] at hnone
    cases hnone

/-- What becomes of an item that cannot be processed. -/
lemma meets_failItem (h : Held c call.now item s) :
    Meets M (fun _ _ t => Ends c call.now item.fileName
        ((failPlan service cause item.envelope).verdict service call item.envelope) t)
      (failItem service call cause) item s := by
  refine meets_locals_bind ?_
  unfold failPlan
  cases hledger : item.envelope.ledger with
  | none => exact meets_failing (meets_nack h hledger)
  | some ledger =>
    simp only [ne_eq, reduceCtorEq, not_false_eq_true, if_true, Plan.verdict,
      resolved_of_ledger hledger, Option.elim_some]
    exact meets_failing (meets_failResolvedTargets h hledger)

/-! ## Delivery without targets -/

lemma meets_processLegacy (h : Held c call.now item s) (hledger : item.envelope.ledger = none) :
    Meets M (fun _ _ t => Ends c call.now item.fileName
        ((legacyPlan service call config item.envelope).verdict service call item.envelope) t)
      (processLegacy service call config) item s := by
  have hack : Meets M (fun _ _ t => Ends c call.now item.fileName (acked call.now item.envelope) t)
      (ack call.now) item s := by
    refine meets_ack h fun ledger hsome => ?_
    rw [hledger] at hsome
    cases hsome
  refine meets_locals_bind ?_
  unfold legacyPlan
  split
  · exact hack
  cases config.default with
  | none => exact meets_failItem h
  | some channel =>
    dsimp only
    split
    · exact meets_failItem h
    cases call.send item.envelope.event with
    | error cause => exact meets_failing (meets_nack h hledger)
    | ok _ => exact hack

/-! ## Dropping an item -/

/-- A pending entry can be given up. -/
lemma recordable_deadEntry {cause : String} (hcause : truncateText cause ≠ "")
    (hvalid : validateLedgerEntry 0 entry = .ok ()) (hpending : entry.state = .pending) :
    (recordable (deadEntry cause) entry).isSome = true := by
  have hattempts := attempts_nonneg hvalid
  have hdead := deadEntry.eq_1 cause entry
  simp only [hpending] at hdead
  refine Option.isSome_iff_exists.mpr ⟨_, recordable_eq_some.mpr ⟨hdead, ?_, zero_encodable⟩⟩
  have hnonnegative : ¬ entry.attempts + 1 < 0 := by omega
  have hpositive : ¬ entry.attempts + 1 < 1 := by omega
  simp [validateLedgerEntry, hnonnegative, hpositive, hcause, Time.isZero]

lemma changedEntry_deadEntry {cause : String} (hsettled : entry.state ≠ .pending) :
    changedEntry (deadEntry cause) entry = entry := by
  unfold changedEntry recordable deadEntry
  cases hstate : entry.state with
  | pending => exact absurd hstate hsettled
  | succeeded => rfl
  | dead =>
    dsimp only
    split <;> rfl

/-- Every pending target of a ledger is given up. -/
lemma meets_deadTargets {cause : String} (hcause : truncateText cause ≠ "")
    {rest : List DeliveryLedgerEntry} (h : Held c call.now item s)
    (hrest : ∀ entry ∈ rest, entryAt item.envelope (targetOf entry) = some entry)
    (hdistinct : (rest.map targetOf).Nodup) :
    Meets M (fun r item' t => r = .ok () ∧ Held c call.now item' t ∧
        item' = ⟨rewritten call.now (among (rest.map targetOf) (changedEntry (deadEntry cause)))
          item.envelope, item.fileName⟩)
      (deadTargets call cause rest) item s := by
  have hproper : Proper (changedEntry (deadEntry cause)) :=
    proper_changedEntry fun _ _ => targetOf_deadEntry
  induction rest generalizing item s with
  | nil =>
    have hsame : rewritten call.now (among [] (changedEntry (deadEntry cause))) item.envelope =
        item.envelope := rewritten_eq_self h.fit fun _ _ => if_neg List.not_mem_nil
    exact meets_pure ⟨rfl, h, by rw [List.map_nil, hsame]⟩
  | cons entry rest ih =>
    obtain ⟨hnew, hdistinct⟩ := List.nodup_cons.mp hdistinct
    obtain ⟨hentry, hrest⟩ := List.forall_mem_cons.mp hrest
    -- what the entries after this one are once it was given up
    have hothers : ∀ other ∈ rest, entryAt (rewritten call.now
        (among [targetOf entry] (changedEntry (deadEntry cause))) item.envelope)
        (targetOf other) = some other := by
      intro other hother
      have hne : targetOf other ∉ [targetOf entry] := by
        intro hsame
        rw [List.mem_singleton] at hsame
        exact hnew (hsame ▸ List.mem_map_of_mem hother)
      rw [entryAt_rewritten hproper.among, hrest other hother, Option.map_some, among, if_neg hne]
    have hjoined : rewritten call.now (among (rest.map targetOf) (changedEntry (deadEntry cause)))
        (rewritten call.now (among [targetOf entry] (changedEntry (deadEntry cause)))
          item.envelope) = rewritten call.now (among ((entry :: rest).map targetOf)
            (changedEntry (deadEntry cause))) item.envelope := by
      rw [rewritten_rewritten, among_cons hproper hnew, List.map_cons]
    unfold deadTargets
    by_cases hpending : entry.state = .pending
    · rw [if_neg (not_not.mpr hpending)]
      have hmem := ((entryAt_iff h.fit.valid).mp hentry).1
      have hrecords := recordable_deadEntry hcause
        (validate_entry (validate_entries h.fit.valid) hmem) hpending
      have hdead : Meets M (fun r item' t => Held c call.now item' t ∧
          item' = ⟨rewritten call.now
            (among [targetOf entry] fun _ => changedEntry (deadEntry cause) entry) item.envelope,
            item.fileName⟩ ∧ ((recordable (deadEntry cause) entry).isSome = true → r = .ok ()))
          (deadTarget (targetOf entry) (some cause) call.now) item s :=
        meets_updateTarget h hentry fun _ => targetOf_deadEntry
      refine meets_bind hdead ?_ ?_
      · rintro _ item' t ⟨hheld, rfl, -⟩
        rw [rewritten_among_self h.fit.valid hentry] at hheld ⊢
        refine (ih hheld hothers hdistinct).weaken ?_
        rintro r item'' u ⟨hr, hheld', rfl⟩
        exact ⟨hr, hheld', by rw [hjoined]⟩
      · rintro e item' t ⟨-, -, hok⟩
        cases hok hrecords
    · rw [if_pos hpending]
      -- a settled entry stays as it is
      have hsame : rewritten call.now (among [targetOf entry] (changedEntry (deadEntry cause)))
          item.envelope = item.envelope := by
        rw [← rewritten_among_self h.fit.valid hentry]
        refine rewritten_eq_self h.fit fun other hother => ?_
        unfold among
        split
        · rename_i htarget
          have hmem := ((entryAt_iff h.fit.valid).mp hentry).1
          rw [eq_of_targetOf (validate_entries h.fit.valid) hmem hother
            (List.mem_singleton.mp htarget)]
          exact changedEntry_deadEntry hpending
        · rfl
      rw [hsame] at hothers hjoined
      refine (ih h hothers hdistinct).weaken ?_
      rintro r item'' u ⟨hr, hheld', rfl⟩
      exact ⟨hr, hheld', by rw [hjoined]⟩

/-- When every pending target is given up, all are settled. -/
lemma terminal_dropped {envelope : Envelope} (h : validateDeliveryEnvelope envelope = .ok ())
    (hledger : (dropped call envelope).ledger = some ledger) :
    deliveryLedgerTerminal ledger = true := by
  refine List.all_eq_true.mpr fun entry hentry => decide_eq_true ?_
  rw [← entries_of_ledger hledger, dropped, entries_rewritten] at hentry
  obtain ⟨before, hbefore, rfl⟩ := List.mem_map.mp hentry
  by_cases hpending : before.state = .pending
  · have hvalid := validate_entry (validate_entries h) hbefore
    have hcause : truncateText "delivery suppressed by quiet-hours drop" ≠ "" := by decide
    obtain ⟨changed, hchanged⟩ := Option.isSome_iff_exists.mp
      (recordable_deadEntry hcause hvalid hpending)
    rw [changedEntry, hchanged, Option.getD_some]
    have hdead := (recordable_eq_some.mp hchanged).1
    simp only [deadEntry, hpending] at hdead
    obtain rfl := Except.ok.inj hdead
    exact DeliveryState.noConfusion
  · rwa [changedEntry_deadEntry hpending]

lemma meets_dropResolvedOrNewItem (h : Held c call.now item s) :
    Meets M (fun _ _ t => Ends c call.now item.fileName
        (acked call.now (dropped call item.envelope)) t)
      (dropResolvedOrNewItem call) item s := by
  refine meets_locals_bind ?_
  cases hledger : item.envelope.ledger with
  | none =>
    have hsame : dropped call item.envelope = item.envelope := by
      simp only [dropped, rewritten, hledger]
    rw [hsame]
    refine meets_ack h fun ledger hsome => ?_
    rw [hledger] at hsome
    cases hsome
  | some ledger =>
    have hentries := entries_of_ledger hledger
    have hchecked := validate_entries h.fit.valid
    rw [hentries] at hchecked
    have hstart : ∀ entry ∈ ledger, entryAt item.envelope (targetOf entry) = some entry :=
      fun entry hentry => (entryAt_iff h.fit.valid).mpr ⟨hentries ▸ hentry, rfl⟩
    refine meets_bind (meets_deadTargets (by decide) h hstart (nodup_targets hchecked)) ?_
      (by rintro e _ _ ⟨⟨⟩, -⟩)
    rintro _ item' t ⟨-, hheld, rfl⟩
    have hall : rewritten call.now (among (ledger.map targetOf)
        (changedEntry (deadEntry "delivery suppressed by quiet-hours drop"))) item.envelope =
        dropped call item.envelope := by
      refine rewritten_congr fun entry hentry => if_pos ?_
      exact List.mem_map_of_mem (hentries ▸ hentry)
    rw [hall] at hheld ⊢
    exact meets_ack hheld fun later hlater => terminal_dropped h.fit.valid hlater

/-! ## Delivery to targets -/

lemma meets_deliverResolved (h : Held c call.now item s)
    (hledger : item.envelope.ledger = some ledger) :
    Meets M (fun _ _ t => Ends c call.now item.fileName (finished service call
        (recorded service call (targetOutcome call config settings item.envelope.event)
          item.envelope)) t)
      (deliverResolved service call config settings
        (readyTargets (entries item.envelope) call.now)) item s := by
  refine meets_locals_bind ?_
  split
  · rename_i hnone
    have hsame : recorded service call (targetOutcome call config settings item.envelope.event)
        item.envelope = item.envelope := by
      rw [recorded, hnone]
      exact rewritten_eq_self h.fit fun _ _ => if_neg List.not_mem_nil
    rw [hsame]
    exact meets_finishResolvedItem h hledger
  split
  · rename_i hsender
    have houtcome : targetOutcome call config settings item.envelope.event =
        fun _ => .error ⟨"configured sender is unavailable", false⟩ := by
      funext target
      exact if_pos hsender
    rw [houtcome]
    exact meets_failing (meets_failResolvedTargets h hledger)
  rename_i hsender
  cases hinput : call.input item.envelope.event with
  | error cause =>
    have houtcome : targetOutcome call config settings item.envelope.event =
        fun _ => .error cause := by
      funext target
      simp only [targetOutcome, if_neg hsender, hinput]
    rw [houtcome]
    exact meets_failing (meets_failResolvedTargets h hledger)
  | ok _ =>
    have houtcome : targetOutcome call config settings item.envelope.event =
        deliveryOutcome call config settings item.envelope.event := by
      funext target
      simp only [targetOutcome, if_neg hsender, hinput]
    rw [houtcome]
    refine meets_bind (meets_deliverTargets h) ?_ (by rintro e _ _ ⟨⟨_, ⟨⟩⟩, -⟩)
    rintro failures item' t ⟨-, hheld, rfl⟩
    have hresolved : ∃ later, (recorded service call
        (deliveryOutcome call config settings item.envelope.event) item.envelope).ledger =
          some later := ledger_recorded hledger
    obtain ⟨later, hlater⟩ := hresolved
    exact meets_attempt_joined (meets_finishResolvedItem hheld hlater)

lemma meets_deferResolved {deferUntil : Time} (h : Held c call.now item s)
    (hledger : item.envelope.ledger = some ledger) :
    Meets M (fun _ _ t => Ends c call.now item.fileName
        (if deliveryTerminal (entries item.envelope) then acked call.now item.envelope
          else deferred call.now deferUntil item.envelope) t)
      (deferResolved call deferUntil) item s := by
  refine meets_locals_bind ?_
  unfold entries
  split
  · exact meets_ack_terminal h ‹_›
  · rename_i hopen
    rw [Bool.not_eq_true, deliveryTerminal_eq h.fit hledger] at hopen
    exact meets_defer h hledger hopen

lemma event_resolved {envelope : Envelope} (h : resolved call targets envelope = some begun) :
    begun.event = envelope.event := by
  unfold resolved at h
  split at h
  · cases h
    rfl
  split at h <;> cases h
  rfl

/-- What becomes of an item when the processor is used. -/
lemma meets_processM2 (h : Held c call.now item s) :
    Meets M (fun _ _ t => Ends c call.now item.fileName
        ((policyPlan service call config settings item.envelope).verdict service call
          item.envelope) t)
      (processM2 service call config settings) item s := by
  refine meets_locals_bind ?_
  unfold policyPlan
  cases hplanned : plannedTargets call config settings item.envelope with
  | error cause => exact meets_failItem h
  | ok planned =>
    cases planned with
    | none =>
      refine meets_ack h fun ledger hledger => ?_
      simp [plannedTargets, hledger] at hplanned
    | some targets =>
      cases call.quiet item.envelope.event with
      | error cause => exact meets_failItem h
      | ok action =>
        cases action with
        | drop => exact meets_dropResolvedOrNewItem h
        | defer deferUntil =>
          refine meets_resolve_bind h (fun begun t hbegun hheld => ?_)
            fun hnone _ => ends_unresolved h hnone
          obtain ⟨-, ledger, hledger⟩ := fit_resolved h.fit hbegun
          simp only [Plan.verdict, hbegun, Option.elim_some]
          exact meets_deferResolved hheld hledger
        | deliver =>
          refine meets_resolve_bind h (fun begun t hbegun hheld => ?_)
            fun hnone _ => ends_unresolved h hnone
          obtain ⟨-, ledger, hledger⟩ := fit_resolved h.fit hbegun
          simp only [Plan.verdict, hbegun, Option.elim_some, ← event_resolved hbegun]
          exact meets_deliverResolved hheld hledger

/-- A call ends as its verdict says. -/
theorem meets_processItem (h : Held c call.now item s) :
    Meets M (fun _ _ t => Ends c call.now item.fileName (verdict service call item.envelope) t)
      (processItem service call) item s := by
  refine meets_locals_bind ?_
  unfold verdict plan
  cases call.config with
  | error cause => exact meets_failItem h
  | ok config =>
    dsimp only
    split
    · split
      · exact meets_failItem h
      · rename_i hledger
        exact meets_processLegacy h (not_not.mp hledger)
    cases call.settings with
    | error err =>
      cases err with
      | notFound =>
        dsimp only
        split
        · rename_i hledger
          exact meets_processLegacy h hledger
        · exact meets_failItem h
      | failed cause => exact meets_failItem h
    | ok settings => exact meets_processM2 h

end Calls

end AgentBell.Service
