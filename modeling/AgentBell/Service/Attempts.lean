import AgentBell.Service.NoResend
import AgentBell.Service.SingleCall

/-!
# Deliveries that always fail

A target whose deliveries always fail is handed to the sender at most as often as there are delays
between attempts, and then it is dead; an item without targets is put back at most as often.  The
count is kept in the queue, so it holds over all calls and restarts.  It is lost when a failure
cannot be recorded: a target cannot be given up because of a failure without a text.
-/

namespace AgentBell.Service

open Interleaving Interleaving.Routine Queue Queue.Faulty

/-! ## What a call hands to the sender -/

section Sent

variable {service : Options} {call : Surroundings} {envelope : Envelope}

/-- The targets a call hands to the sender are distinct. -/
lemma nodup_sentTargets (hvalid : validateDeliveryEnvelope envelope = .ok ()) :
    (sentTargets service call envelope).Nodup := by
  unfold sentTargets
  split
  · rename_i targets sends outcome _
    cases hbegun : resolved call targets envelope with
    | none => exact List.nodup_nil
    | some begun => exact (nodup_readyTargets (validate_resolved hvalid hbegun)).filter _
  · exact List.nodup_nil

end Sent

/-! ## Runs in which deliveries fail -/

/-- How often a call hands the item to the sender for a target. -/
def sendsTo (service : Options) (call : Surroundings) (name : FileName) (turns : List Turn)
    (s : Store) (target : DeliveryTarget) : Nat :=
  match claimedItem service call (smooth name) turns s with
  | none => 0
  | some item =>
    if item.fileName = name then (sentTargets service call item.envelope).count target else 0

/-- How often a call puts the item back, or gives it up, for want of targets. -/
def nacksOf (service : Options) (call : Surroundings) (name : FileName) (turns : List Turn)
    (s : Store) : Nat :=
  match claimedItem service call (smooth name) turns s with
  | none => 0
  | some item => if item.fileName = name ∧ nacks service call item.envelope then 1 else 0

/-- What becomes of an item that was enqueued, with the number of deliveries to each target and the
number of times it was put back or given up for want of targets: calls are made, leases run out, and
the files of other items come and go. -/
inductive Attempted (service : Options) (name : FileName) (may : Surroundings → Prop) :
    Store → (DeliveryTarget → Nat) → Nat → Prop where
  | enqueued {s : Store} (envelope : Envelope) (stored : copies name s = only .pending envelope)
      (ledger : envelope.ledger = none) (disposition : envelope.disposition = none)
      (attempts : envelope.attempts = 0) : Attempted service name may s (fun _ => 0) 0
  | called {s t : Store} {sent : DeliveryTarget → Nat} {nacked : Nat} (call : Surroundings)
      (turns : List Turn) (outcome : Except OsError (Bool × Option String) × Unit) :
      Attempted service name may s sent nacked → may call →
      (processOne service call ()).run (smooth name) turns s = some (outcome, t) →
      Attempted service name may t
        (fun target => sent target + sendsTo service call name turns s target)
        (nacked + nacksOf service call name turns s)
  | recovered {s t : Store} {sent : DeliveryTarget → Nat} {nacked : Nat} (now : Time)
      (turns : List Turn) (outcome : Except OsError Nat × Unit) :
      Attempted service name may s sent nacked →
      (recoverExpired now ()).run (smooth name) turns s = some (outcome, t) →
      Attempted service name may t sent nacked
  | elsewhere {s t : Store} {sent : DeliveryTarget → Nat} {nacked : Nat} :
      Attempted service name may s sent nacked → copies name t = copies name s →
      Attempted service name may t sent nacked

/-- A call whose deliveries all fail, with a clock whose instants can be written. -/
structure Refused (service : Options) (call : Surroundings) : Prop where
  timely : Timely service call
  deliver : ∀ event target, ∃ cause, call.deliver event target = .error cause
  send : ∀ event, ∃ cause, call.send event = .error cause

lemma Refused.not_delivers {service : Options} {call : Surroundings} (h : Refused service call)
    (target : DeliveryTarget) : ¬ Delivers call target := by
  rintro ⟨event, messageID, hdelivered⟩
  obtain ⟨cause, hcause⟩ := h.deliver event target
  rw [hdelivered] at hcause
  cases hcause

/-- What a property of the file of an item needs for it to hold along every run: it holds of a new
item, it is one of the ledger and the attempts, and calls keep it. -/
structure Lasting (service : Options) (may : Surroundings → Prop)
    (Good : (DeliveryTarget → Nat) → Nat → Directory → Envelope → Prop) : Prop where
  start : ∀ {envelope : Envelope}, envelope.ledger = none → envelope.disposition = none →
    envelope.attempts = 0 → Good (fun _ => 0) 0 .pending envelope
  congr : ∀ {sent nacked directory place} {before after : Envelope},
    Good sent nacked directory before → after.ledger = before.ledger →
    after.disposition = before.disposition → after.attempts = before.attempts →
    directory ≠ .dead → Good sent nacked place after
  outcome : ∀ {call sent nacked directory before after}, may call →
    Good sent nacked .inflight before → validateDeliveryEnvelope after = .ok () →
    Outcome service call (sentTargets service call before) (nacks service call before = true)
      before directory after →
    Good (fun target => sent target + (sentTargets service call before).count target)
      (nacked + if nacks service call before then 1 else 0) directory after

section Lasting

variable {before after : Envelope} {target : DeliveryTarget}

lemma validate_congr (hledger : after.ledger = before.ledger)
    (hdisposition : after.disposition = before.disposition) :
    validateDeliveryEnvelope after = validateDeliveryEnvelope before := by
  simp only [validateDeliveryEnvelope, hledger, hdisposition]

variable {service : Options} {may : Surroundings → Prop}
  {Good : (DeliveryTarget → Nat) → Nat → Directory → Envelope → Prop} {call : Surroundings}
  {name : FileName} {sent : DeliveryTarget → Nat} {nacked : Nat} {place : Directory}
  {envelope : Envelope} {s t : Store}

/-- A call keeps a lasting property. -/
lemma Lasting.called {turns : List Turn} {outcome : Except OsError (Bool × Option String) × Unit}
    (hlasting : Lasting service may Good) (hmay : may call) (hs : Filed name place envelope s)
    (h : Good sent nacked place envelope)
    (hrun : (processOne service call ()).run (smooth name) turns s = some (outcome, t)) :
    ∃ directory after, Filed name directory after t ∧
      Good (fun target => sent target + sendsTo service call name turns s target)
        (nacked + nacksOf service call name turns s) directory after := by
  rcases processOne_filed hs hrun with ⟨item, hitem, hended⟩ | ⟨hothers, hfiled⟩
  · have hclaimed : Good sent nacked .inflight item.envelope := by
      rw [hended.envelope]
      refine hlasting.congr h rfl rfl rfl fun hdead => ?_
      cases hended.place.symm.trans hdead
    have hsends : sendsTo service call name turns s =
        fun target => (sentTargets service call item.envelope).count target := by
      funext target
      simp only [sendsTo, hitem, hended.named, if_true]
    have hnacks : nacksOf service call name turns s =
        if nacks service call item.envelope then 1 else 0 := by
      simp only [nacksOf, hitem, hended.named, true_and]
    rw [hsends, hnacks]
    obtain ⟨directory, after, ht, hvalid, houtcome⟩ := hended.ended
    exact ⟨directory, after, .inl ht, hlasting.outcome hmay hclaimed hvalid houtcome⟩
  · refine ⟨place, envelope, hfiled, ?_⟩
    have hsends : sendsTo service call name turns s = fun _ => 0 := by
      funext target
      unfold sendsTo
      split
      · rfl
      · rename_i item hitem
        exact if_neg (hothers item hitem)
    have hnacks : nacksOf service call name turns s = 0 := by
      unfold nacksOf
      split
      · rfl
      · rename_i item hitem
        exact if_neg fun hours => hothers item hitem hours.1
    rw [hsends, hnacks]
    exact h

/-- A lasting property holds along every run. -/
lemma Lasting.attempted (hlasting : Lasting service may Good)
    (h : Attempted service name may s sent nacked) :
    ∃ directory envelope, Filed name directory envelope s ∧
      Good sent nacked directory envelope := by
  induction h with
  | enqueued envelope stored ledger disposition attempts =>
    exact ⟨.pending, envelope, .inl stored, hlasting.start ledger disposition attempts⟩
  | called call turns outcome _ hmay hrun ih =>
    obtain ⟨place, envelope, hs, hgood⟩ := ih
    exact hlasting.called hmay hs hgood hrun
  | recovered now turns outcome _ hrun ih =>
    obtain ⟨place, envelope, hs, hgood⟩ := ih
    obtain ⟨r, ⟨⟩⟩ := outcome
    rcases (meets_recoverExpired_filed hs).of_run hrun with ht | ⟨rfl, ht⟩
    · exact ⟨place, envelope, ht, hgood⟩
    · exact ⟨.pending, recoveredEnvelope now envelope, .inl ht,
        hlasting.congr hgood rfl rfl rfl nofun⟩
  | elsewhere _ hsame ih =>
    obtain ⟨place, envelope, hs, hgood⟩ := ih
    exact ⟨place, envelope, hs.congr hsame, hgood⟩

end Lasting

/-! ## The number of attempts -/

/-- The ledger entry of a target counts the deliveries to it. -/
inductive Counted (limit : Int) : Nat → Option DeliveryLedgerEntry → Prop where
  | unresolved : Counted limit 0 none
  | resolved {sent : Nat} {entry : DeliveryLedgerEntry} (counted : (sent : Int) ≤ entry.attempts)
      (bounded : entry.attempts ≤ limit) (again : entry.state = .pending → entry.attempts < limit)
      (failed : entry.state ≠ .succeeded) : Counted limit sent (some entry)

section Counted

variable {limit : Int} {sent : Nat} {won : Prop} {entry later : DeliveryLedgerEntry}
  {before : Option DeliveryLedgerEntry}

/-- One more delivery is counted by one more attempt. -/
lemma Counted.attempt (h : Counted limit sent (some entry)) (hwon : ¬ won)
    (hattempt : Attempt limit won entry later) : Counted limit (sent + 1) (some later) := by
  cases h with
  | resolved counted bounded again failed =>
    have hbelow := again hattempt.pending
    have hmore := hattempt.attempts
    refine .resolved ?_ ?_ hattempt.again fun hstate => hwon (hattempt.succeeded hstate)
    · omega
    · omega

lemma Counted.fewer {fewer : Nat} (h : Counted limit sent (some entry)) (hfewer : fewer ≤ sent) :
    Counted limit fewer (some entry) := by
  cases h with
  | resolved counted bounded again failed =>
    refine .resolved ?_ bounded again failed
    omega

/-- What becomes of an entry without a delivery is within the limit as well. -/
lemma Counted.course (h : Counted limit sent (some entry)) (hwon : ¬ won)
    (hcourse : later = entry ∨ Attempt limit won entry later) :
    Counted limit sent (some later) := by
  rcases hcourse with rfl | hattempt
  · exact h
  · exact (h.attempt hwon hattempt).fewer (Nat.le_succ sent)

lemma Counted.le (h : Counted limit sent before) (hlimit : 0 < limit) : (sent : Int) ≤ limit := by
  cases h with
  | unresolved => exact le_of_lt hlimit
  | resolved counted bounded again failed => exact le_trans counted bounded

/-- A target that was delivered to as often as it may be is dead. -/
lemma Counted.dead (h : Counted limit sent before) (hlimit : 0 < limit) (hall : sent = limit) :
    ∃ entry, before = some entry ∧ entry.state = .dead := by
  cases h with
  | unresolved => omega
  | @resolved _ entry counted bounded again failed =>
    refine ⟨entry, rfl, ?_⟩
    cases hstate : entry.state with
    | pending =>
      have hbelow := again hstate
      omega
    | succeeded => exact absurd hstate failed
    | dead => rfl

/-- A target that may be delivered to again is below the limit. -/
lemma Counted.below (h : Counted limit sent (some entry)) (hpending : entry.state = .pending) :
    0 ≤ entry.attempts ∧ entry.attempts < limit := by
  cases h with
  | resolved counted bounded again failed =>
    have hbelow := again hpending
    omega

end Counted

/-- The file of an item counts the deliveries to its targets and how often it was put back. -/
structure Bounded (limit : Int) (sent : DeliveryTarget → Nat) (nacked : Nat)
    (directory : Directory) (envelope : Envelope) : Prop where
  valid : validateDeliveryEnvelope envelope = .ok ()
  targets : ∀ target, Counted limit (sent target) (entryAt envelope target)
  counted : envelope.attempts = nacked
  bounded : envelope.attempts ≤ limit
  again : directory ≠ .dead → envelope.attempts < limit

section Bounded

variable {service : Options} {call : Surroundings} {name : FileName} {limit : Int}
  {sent : DeliveryTarget → Nat} {nacked : Nat} {directory place : Directory}
  {before after begun envelope : Envelope} {item : Item} {s t : Store}

/-- What counts is the ledger and the number of attempts. -/
lemma Bounded.congr (h : Bounded limit sent nacked directory before)
    (hledger : after.ledger = before.ledger) (hdisposition : after.disposition = before.disposition)
    (hattempts : after.attempts = before.attempts) (hdead : directory ≠ .dead) :
    Bounded limit sent nacked place after where
  valid := (validate_congr hledger hdisposition).trans h.valid
  targets target := by
    rw [entryAt_congr hledger]
    exact h.targets target
  counted := hattempts.trans h.counted
  bounded := hattempts ▸ h.bounded
  again _ := hattempts ▸ h.again hdead

/-- Targets that were just resolved have not been delivered to. -/
lemma counted_begun (hstart : Begun call before begun)
    (h : ∀ target, Counted service.limit (sent target) (entryAt before target))
    (target : DeliveryTarget) : Counted service.limit (sent target) (entryAt begun target) := by
  rcases hstart with rfl | ⟨hnone, ledger, rfl, hnew⟩
  · exact h target
  have habsent : entryAt before target = none := by
    simp [entryAt, entries, hnone, ledgerEntry]
  have hsent := h target
  rw [habsent] at hsent
  cases hcount : sent target with
  | succ count =>
    rw [hcount] at hsent
    cases hsent
  | zero =>
    cases hentry : entryAt (ledgered ledger call.now before) target with
    | none => exact .unresolved
    | some entry =>
      have hmem : entry ∈ ledger := List.mem_of_find?_eq_some hentry
      obtain ⟨hpending, hattempts⟩ := hnew entry hmem
      have hlimit := limit_pos service
      refine .resolved ?_ ?_ (fun _ => ?_) fun hstate => ?_
      · omega
      · omega
      · omega
      · rw [hpending] at hstate
        cases hstate

/-- What a call makes of a counted item is counted. -/
lemma Bounded.outcome (hrefused : Refused service call) (hloud : Loud service call)
    (hafter : validateDeliveryEnvelope after = .ok ())
    (h : Bounded service.limit sent nacked .inflight before)
    (houtcome : Outcome service call (sentTargets service call before)
      (nacks service call before = true) before directory after) :
    Bounded service.limit
      (fun target => sent target + (sentTargets service call before).count target)
      (nacked + if nacks service call before then 1 else 0) directory after := by
  have hbelow := h.again nofun
  have hcount := h.counted
  cases houtcome with
  | settled begun f start attempts later course tried worked =>
    rw [if_neg worked]
    refine ⟨hafter, fun target => ?_, attempts.trans hcount, ?_, fun _ => ?_⟩
    · have hwon := hrefused.not_delivers target
      have hbegun := counted_begun start h.targets target
      rw [later target]
      by_cases htarget : target ∈ sentTargets service call before
      · rw [List.count_eq_one_of_mem (nodup_sentTargets h.valid) htarget]
        obtain ⟨entry, hentry, hattempt⟩ := tried hloud target htarget
        rw [hentry] at hbegun ⊢
        exact hbegun.attempt hwon hattempt
      · rw [List.count_eq_zero_of_not_mem htarget, Nat.add_zero]
        cases hentry : entryAt begun target with
        | none =>
          rw [hentry] at hbegun
          exact hbegun
        | some entry =>
          rw [hentry] at hbegun
          exact hbegun.course hwon (course target entry hentry)
    · omega
    · omega
  | kept same idle =>
    obtain ⟨hunsent, hworked⟩ := idle hrefused.timely
    subst same
    rw [if_neg hworked, hunsent]
    exact ⟨hafter, h.targets, hcount, h.bounded, fun _ => hbelow⟩
  | nacked failed unsent due =>
    rw [if_pos due]
    have hmore := failed.attempts
    refine ⟨hafter, fun target => ?_, ?_, ?_, fun hdead => ?_⟩
    · have hbefore := h.targets target
      have habsent : entryAt before target = none := by
        simp [entryAt, entries, failed.unresolved, ledgerEntry]
      have habsent' : entryAt after target = none := by
        simp [entryAt, entries, failed.ledger, ledgerEntry]
      rw [unsent, List.count_nil, Nat.add_zero, habsent']
      rw [habsent] at hbefore
      exact hbefore
    · push_cast
      omega
    · omega
    · rcases failed.placed with rfl | ⟨-, hlimit⟩
      · exact absurd rfl hdead
      · exact hlimit

/-- In every run the file of the item counts the deliveries. -/
lemma Attempted.bounded
    (h : Attempted service name (fun call => Refused service call ∧ Loud service call) s sent
      nacked) :
    ∃ directory envelope, Filed name directory envelope s ∧
      Bounded service.limit sent nacked directory envelope := by
  refine Lasting.attempted ⟨?_, Bounded.congr, fun hmay h => h.outcome hmay.1 hmay.2⟩ h
  intro envelope ledger disposition attempts
  have hlimit := limit_pos service
  refine ⟨?_, fun target => ?_, attempts, ?_, fun _ => ?_⟩
  · simp [validateDeliveryEnvelope, ledger, disposition]
  · have habsent : entryAt envelope target = none := by
      simp [entryAt, entries, ledger, ledgerEntry]
    rw [habsent]
    exact .unresolved
  · omega
  · omega

end Bounded

/-- In every run in which all deliveries fail with a text, a target is delivered to at most as often
as there are delays, and then it is dead; the item is put back or given up for want of targets at
most as often, and then it is in `dead`; and the delays are looked up within their list. -/
theorem attempts_bounded (service : Options) (name : FileName) {s : Store}
    {sent : DeliveryTarget → Nat} {nacked : Nat}
    (h : Attempted service name (fun call => Refused service call ∧ Loud service call) s sent
      nacked) :
    (∀ target, sent target ≤ service.delays.length) ∧ nacked ≤ service.delays.length ∧
    ∃ directory envelope, Filed name directory envelope s ∧
      (∀ target, sent target = service.delays.length →
        ∃ entry, entryAt envelope target = some entry ∧ entry.state = .dead) ∧
      (nacked = service.delays.length → directory = .dead) ∧
      (∀ target entry, entryAt envelope target = some entry → entry.state = .pending →
        0 ≤ entry.attempts ∧ entry.attempts.toNat < service.delays.length) ∧
      (directory ≠ .dead →
        0 ≤ envelope.attempts ∧ envelope.attempts.toNat < service.delays.length) := by
  obtain ⟨directory, envelope, hfiled, hbounded⟩ := h.bounded
  have hlimit : service.limit = service.delays.length := rfl
  have hpositive := limit_pos service
  have hcounted := hbounded.counted
  have hbound := hbounded.bounded
  refine ⟨fun target => ?_, ?_, directory, envelope, hfiled, fun target hall => ?_,
    fun hall => ?_, fun target entry hentry hpending => ?_, fun hdead => ?_⟩
  · have hbelow := (hbounded.targets target).le hpositive
    omega
  · omega
  · exact (hbounded.targets target).dead hpositive (by omega)
  · by_contra hdead
    have hbelow := hbounded.again hdead
    omega
  · have htarget := hbounded.targets target
    rw [hentry] at htarget
    obtain ⟨hnonnegative, hbelow⟩ := htarget.below hpending
    omega
  · have hbelow := hbounded.again hdead
    omega

/-! ## Deliveries that are recorded -/

/-- An envelope is valid and records no success for a target. -/
structure Unsettled (target : DeliveryTarget) (envelope : Envelope) : Prop where
  valid : validateDeliveryEnvelope envelope = .ok ()
  failed : ∀ entry, entryAt envelope target = some entry → entry.state ≠ .succeeded

/-- A call that does not deliver to a target records no success for it. -/
lemma Unsettled.outcome {service : Options} {call : Surroundings} {target : DeliveryTarget}
    {sent : List DeliveryTarget} {broken : Prop} {directory : Directory} {before after : Envelope}
    (h : Unsettled target before) (hwon : ¬ Delivers call target)
    (hafter : validateDeliveryEnvelope after = .ok ())
    (houtcome : Outcome service call sent broken before directory after) :
    Unsettled target after := by
  refine ⟨hafter, fun later hlater hstate => ?_⟩
  cases houtcome with
  | settled begun f start _ hafter course =>
    rw [hafter target] at hlater
    obtain ⟨entry, hentry, rfl⟩ := Option.map_eq_some_iff.mp hlater
    rcases course target entry hentry with hsame | hattempt
    · rw [hsame] at hstate
      rcases start with rfl | ⟨-, ledger, rfl, hnew⟩
      · exact h.failed entry hentry hstate
      · rw [(hnew entry (List.mem_of_find?_eq_some hentry)).1] at hstate
        cases hstate
    · exact hwon (hattempt.succeeded hstate)
  | kept same =>
    rw [same] at hlater
    exact h.failed later hlater hstate
  | nacked failed => simp [entryAt, entries, failed.ledger, ledgerEntry] at hlater

/-- In every run in which no delivery to a target works, whatever the clocks say and what becomes of
the other targets, the item has one valid file, and it records no success for the target: a success
in a ledger is a delivery that worked. -/
theorem success_needs_delivery (service : Options) (name : FileName) (target : DeliveryTarget)
    {s : Store} {sent : DeliveryTarget → Nat} {nacked : Nat}
    (h : Attempted service name (fun call => ¬ Delivers call target) s sent nacked) :
    ∃ directory envelope, Filed name directory envelope s ∧ Unsettled target envelope := by
  have hlasting : Lasting service (fun call => ¬ Delivers call target)
      fun _ _ _ envelope => Unsettled target envelope := by
    refine ⟨fun ledger disposition _ => ⟨?_, fun entry hentry => ?_⟩,
      fun h hledger hdisposition _ _ => ⟨?_, ?_⟩, fun hmay h => h.outcome hmay⟩
    · simp [validateDeliveryEnvelope, ledger, disposition]
    · simp [entryAt, entries, ledger, ledgerEntry] at hentry
    · exact (validate_congr hledger hdisposition).trans h.valid
    · exact entryAt_congr hledger ▸ h.failed
  exact hlasting.attempted h

/-! ## A failure without a text -/

/-- A service with a processor that attempts each delivery once. -/
def onceService : Options := { processor := true, backoff := [second], sha256 := id }

/-- A call whose deliveries fail with a text. -/
def refusedCall (text : String) (now : Time) : Surroundings :=
  { sampleCall now with
    settings := .ok ⟨["short"]⟩
    evaluate := fun _ => .ok ⟨true, ["lark"], "short"⟩
    deliver := fun _ _ => .error ⟨text, false⟩
    send := fun _ => .error ⟨text, false⟩ }

lemma refused_refusedCall (text : String) (now : Time) (hclock : 0 < now)
    (hnow : Time.encodable now = true) (hlater : Time.encodable (now + second) = true)
    (hpoll : Time.encodable (now + second / 2) = true) :
    Refused onceService (refusedCall text now) where
  timely := {
    clock := hclock
    present := hnow
    later := by
      intro delay hdelay
      obtain rfl := List.mem_singleton.mp hdelay
      exact hlater
    poll := hpoll
    deferral := nofun }
  deliver _ _ := ⟨_, rfl⟩
  send _ := ⟨_, rfl⟩

/-- The queue after a call for the sample item. -/
def storeAfter (call : Surroundings) (turns : List Turn) (s : Store) : Store :=
  storeOf (((processOne onceService call ()).run (smooth sampleName) turns s).map Prod.snd)

lemma Attempted.storeAfter {may : Surroundings → Prop} {s : Store} {sent : DeliveryTarget → Nat}
    {nacked : Nat} (h : Attempted onceService sampleName may s sent nacked) (call : Surroundings)
    (turns : List Turn) (hmay : may call)
    (hrun : ((processOne onceService call ()).run (smooth sampleName) turns s).isSome = true) :
    Attempted onceService sampleName may (storeAfter call turns s)
      (fun target => sent target + sendsTo onceService call sampleName turns s target)
      (nacked + nacksOf onceService call sampleName turns s) := by
  obtain ⟨⟨outcome, t⟩, hsome⟩ := Option.isSome_iff_exists.mp hrun
  have hstore : Service.storeAfter call turns s = t := by
    rw [Service.storeAfter, hsome]
    rfl
  rw [hstore]
  exact .called call turns outcome h hmay hsome

lemma attempted_enqueuedStore (may : Surroundings → Prop) :
    Attempted onceService sampleName may enqueuedStore (fun _ => 0) 0 :=
  .enqueued (newEnvelope sampleID sampleNotification 1) copies_enqueuedStore rfl rfl rfl

/-- A call that resolves the targets of the sample item and cannot record the failure. -/
def firstTurns : List Turn := sampleClaim ++ smoothly 5

/-- A call that finds the same target ready again. -/
def secondTurns : List Turn := sampleClaim ++ smoothly 3

/-- A delivery that is to be attempted once fails without a text.  The target cannot be given up
without a reason, so it stays pending, and the next call delivers to it again. -/
theorem delivered_again_after_limit :
    ∃ s sent nacked, Attempted onceService sampleName (Refused onceService) s sent nacked ∧
      onceService.delays.length < sent sampleTarget := by
  have hfirst := (attempted_enqueuedStore (Refused onceService)).storeAfter
    (refusedCall "" second) firstTurns
    (refused_refusedCall "" second (by decide) (by decide) (by decide) (by decide))
    (by decide +kernel)
  have hsecond := hfirst.storeAfter (refusedCall "" (2 * second)) secondTurns
    (refused_refusedCall "" (2 * second) (by decide) (by decide) (by decide) (by decide))
    (by decide +kernel)
  refine ⟨_, _, _, hsecond, ?_⟩
  decide +kernel

/-- A delivery that fails is not recorded as a success. -/
theorem refused_delivery_unsettled : ∃ s sent nacked, Attempted onceService sampleName
        (fun call => ¬ Delivers call sampleTarget) s sent nacked ∧
      0 < sent sampleTarget ∧ ∃ directory envelope, Filed sampleName directory envelope s ∧
        Unsettled sampleTarget envelope := by
  have hrefused := refused_refusedCall "" second (by decide) (by decide) (by decide) (by decide)
  have hcalled := (attempted_enqueuedStore fun call => ¬ Delivers call sampleTarget).storeAfter
    (refusedCall "" second) firstTurns (hrefused.not_delivers _) (by decide +kernel)
  exact ⟨_, _, _, hcalled, by decide +kernel,
    success_needs_delivery onceService sampleName sampleTarget hcalled⟩

/-- A call that resolves the targets of the sample item and gives up the one that failed. -/
def lastTurns : List Turn := sampleClaim ++ smoothly 7

/-- A delivery that is to be attempted once fails with a text: the target is dead. -/
theorem dead_after_limit : ∃ s sent nacked, Attempted onceService sampleName
        (fun call => Refused onceService call ∧ Loud onceService call) s sent nacked ∧
      sent sampleTarget = onceService.delays.length ∧
      ∃ directory envelope, Filed sampleName directory envelope s ∧
        ∃ entry, entryAt envelope sampleTarget = some entry ∧ entry.state = .dead := by
  have hrefused := refused_refusedCall "refused" second (by decide) (by decide) (by decide)
    (by decide)
  have hloud : Loud onceService (refusedCall "refused" second) := by
    refine ⟨?_, by decide, fun attempts => ?_⟩
    · rintro event target cause ⟨⟩
      decide
    · unfold targetDelay
      cases attempts.toNat with
      | zero => decide
      | succ _ =>
        have hlater : Time.encodable ((second : Int) + second / 1000) = true := by decide
        exact hlater
  have hcalled := (attempted_enqueuedStore fun call => Refused onceService call ∧
    Loud onceService call).storeAfter (refusedCall "refused" second) lastTurns ⟨hrefused, hloud⟩
    (by decide +kernel)
  have hsent : (0 + sendsTo onceService (refusedCall "refused" second) sampleName lastTurns
      enqueuedStore sampleTarget) = onceService.delays.length := by decide +kernel
  obtain ⟨-, -, directory, envelope, hfiled, hdead, -⟩ :=
    attempts_bounded onceService sampleName hcalled
  exact ⟨_, _, _, hcalled, hsent, directory, envelope, hfiled, hdead sampleTarget hsent⟩

end AgentBell.Service
