import AgentBell.Queue.LedgerHistory
import AgentBell.Service.Overdue

/-!
# A settled target is not delivered to again

Over every run of the queue operations on an item the stored ledger stays valid, keeps its targets
and only advances, as long as the ledger is rewritten only while the item has one file.  So
`ResolveTargets` never returns a target that was once stored as settled, and `processM2` never
sends to it.  A move that fails between its two steps leaves two files behind, and a success that
is recorded after that can be lost.
-/

namespace AgentBell.Service

open Interleaving Interleaving.Routine Queue Queue.Faulty
open Relation (ReflTransGen)

/-! ## What `processM2` sends -/

/-- The call with other outcomes of its deliveries. -/
def Surroundings.delivering (call : Surroundings)
    (deliver : Notification → DeliveryTarget → Except Cause String) : Surroundings :=
  { call with deliver := deliver }

section Sends

variable {service : Options} {call : Surroundings} {config : Config} {settings : Settings}
  {deliver : Notification → DeliveryTarget → Except Cause String} {item : Item}

lemma failTargets_delivering (cause : Cause) (targets : List DeliveryTarget) :
    failTargets service (call.delivering deliver) cause targets =
      failTargets service call cause targets := by
  induction targets with
  | nil => rfl
  | cons target targets ih =>
    unfold failTargets
    rw [ih]
    rfl

lemma failResolvedTargets_delivering (cause : Cause) :
    failResolvedTargets service (call.delivering deliver) cause =
      failResolvedTargets service call cause := by
  unfold failResolvedTargets
  simp only [failTargets_delivering]
  rfl

lemma failItem_delivering (cause : Cause) :
    failItem service (call.delivering deliver) cause = failItem service call cause := by
  unfold failItem
  rw [failResolvedTargets_delivering]
  rfl

lemma deadTargets_delivering (cause : String) (ledger : List DeliveryLedgerEntry) :
    deadTargets (call.delivering deliver) cause ledger = deadTargets call cause ledger := by
  induction ledger with
  | nil => rfl
  | cons entry ledger ih =>
    unfold deadTargets
    rw [ih]
    rfl

lemma dropResolvedOrNewItem_delivering :
    dropResolvedOrNewItem (call.delivering deliver) = dropResolvedOrNewItem call := by
  unfold dropResolvedOrNewItem
  simp only [deadTargets_delivering]
  rfl

lemma processLegacy_delivering :
    processLegacy service (call.delivering deliver) config = processLegacy service call config := by
  unfold processLegacy
  simp only [failItem_delivering]
  rfl

/-- Deliveries to the ready targets of known channels and templates are the only ones that
matter. -/
lemma deliverTargets_delivering {notification : Notification} {ready : List DeliveryTarget}
    (h : ∀ target ∈ ready, config.channels.contains target.channelID = true →
      settings.templates.contains target.templateID = true →
      deliver notification target = call.deliver notification target) :
    deliverTargets service (call.delivering deliver) config settings notification ready =
      deliverTargets service call config settings notification ready := by
  induction ready with
  | nil => rfl
  | cons target ready ih =>
    have houtcome : deliveryOutcome (call.delivering deliver) config settings notification target =
        deliveryOutcome call config settings notification target := by
      unfold deliveryOutcome
      split
      · rfl
      rename_i hchannel
      split
      · rfl
      rename_i htemplate
      exact h target List.mem_cons_self (Bool.not_eq_false _ ▸ hchannel)
        (Bool.not_eq_false _ ▸ htemplate)
    have hrest := ih fun target htarget => h target (List.mem_cons_of_mem _ htarget)
    unfold deliverTargets
    rw [houtcome, hrest]
    rfl

lemma deliverResolved_delivering {ready : List DeliveryTarget}
    (h : ∀ target ∈ ready, handed call config settings item.envelope.event target = true →
      deliver item.envelope.event target = call.deliver item.envelope.event target) :
    deliverResolved service (call.delivering deliver) config settings ready item =
      deliverResolved service call config settings ready item := by
  have hinput : (call.delivering deliver).input = call.input := rfl
  have hsender : (call.delivering deliver).sender = call.sender := rfl
  simp only [deliverResolved, bind, locals, Prog.bind, next, hinput, hsender,
    failResolvedTargets_delivering]
  split
  · rfl
  cases hthere : call.sender with
  | false => rfl
  | true =>
    cases hrendered : call.input item.envelope.event with
    | error cause => rfl
    | ok u =>
      have hsame : deliverTargets service (call.delivering deliver) config settings
          item.envelope.event ready =
            deliverTargets service call config settings item.envelope.event ready := by
        refine deliverTargets_delivering fun target htarget hchannel htemplate =>
          h target htarget ?_
        rw [handed, hthere, hrendered, hchannel, htemplate]
        rfl
      rw [hsame]
      rfl

/-- The targets a resolved item has ready. -/
lemma returns_resolveTargets (targets : List DeliveryTarget) :
    (resolveTargets targets call.now item).Returns fun o => ∀ ready, o.1 = .ok ready →
      item.envelope.state = .inflight ∧ o.2.envelope.event = item.envelope.event ∧
        ∃ begun, resolved call targets item.envelope = some begun ∧
          ready = readyTargets (entries begun) call.now := by
  have hissues : Issues (fun _ _ => True) (fun _ => True)
      (fun r item' => ∀ ready, r = .ok ready → item.envelope.state = .inflight ∧
        item'.envelope.event = item.envelope.event ∧
        ∃ begun, resolved call targets item.envelope = some begun ∧
          ready = readyTargets (entries begun) call.now)
      (resolveTargets targets call.now) item := by
    refine issues_locals_bind (issues_lift_bind (by rintro _ _ _ ⟨⟩) ?_)
    intro checked hchecked
    obtain ⟨rfl, hstate⟩ := validateInflightItem_eq (mapError_eq_ok.mp hchecked)
    split
    · rename_i hnone
      refine issues_lift_bind (by rintro _ _ _ ⟨⟩) fun ledger hledger => ?_
      refine issues_lift_bind (by rintro _ _ _ ⟨⟩) fun _ _ => ?_
      have hrewrite : Confined (fun item => item.envelope.event = checked.envelope.event)
          (fun _ => True) (rewrite (ledgered ledger call.now checked.envelope)) :=
        confined_locals_bind fun _ _ => Confined.bind (confined_replace trivial trivial) fun _ =>
          confined_assign fun _ _ => rfl
      refine Issues.bind (hrewrite checked rfl) (fun _ item' hevent => ?_) fun _ _ _ => by
        rintro _ ⟨⟩
      rintro ready ⟨⟩
      refine ⟨hstate, hevent, ledgered ledger call.now checked.envelope, ?_, rfl⟩
      simp only [resolved, hnone, mapError_eq_ok.mp hledger]
    · rename_i ledger hledger
      refine issues_lift_bind (by rintro _ _ _ ⟨⟩) fun _ _ => ?_
      rintro ready ⟨⟩
      refine ⟨hstate, rfl, checked.envelope, ?_, by rw [entries_of_ledger hledger]⟩
      simp only [resolved, hledger]
  exact hissues.returns

/-- What a call makes of an item depends on deliveries to the targets it hands to the sender
only. -/
lemma processM2_delivering
    (h : item.envelope.state = .inflight → ∀ targets begun,
      plannedTargets call config settings item.envelope = .ok (some targets) →
      call.quiet item.envelope.event = .ok .deliver →
      resolved call targets item.envelope = some begun →
      ∀ target ∈ readyTargets (entries begun) call.now,
        handed call config settings item.envelope.event target = true →
        deliver item.envelope.event target = call.deliver item.envelope.event target) :
    processM2 service (call.delivering deliver) config settings item =
      processM2 service call config settings item := by
  have hplanned : plannedTargets (call.delivering deliver) config settings item.envelope =
      plannedTargets call config settings item.envelope := rfl
  have hquiet : (call.delivering deliver).quiet = call.quiet := rfl
  have hnow : (call.delivering deliver).now = call.now := rfl
  simp only [processM2, bind, locals, Prog.bind, next, hplanned, hquiet, hnow,
    failItem_delivering, dropResolvedOrNewItem_delivering]
  rcases hplan : plannedTargets call config settings item.envelope with cause | (_ | targets)
  · rfl
  · rfl
  · rcases hact : call.quiet item.envelope.event with cause | (_ | _ | deferUntil)
    · rfl
    · refine Prog.Returns.bind_congr (returns_resolveTargets targets) ?_
      rintro ⟨e | ready, item'⟩ hready
      · rfl
      · obtain ⟨hstate, hevent, begun, hbegun, rfl⟩ := hready ready rfl
        refine deliverResolved_delivering fun target htarget => ?_
        rw [show item'.envelope.event = item.envelope.event from hevent]
        exact h hstate targets begun hplan hact hbegun target htarget
    · rfl
    · rfl

/-- A call consults its deliveries for the targets it hands to the sender only. -/
theorem processItem_sent
    (h : ∀ target ∈ sentTargets service call item.envelope,
      deliver item.envelope.event target = call.deliver item.envelope.event target) :
    processItem service (call.delivering deliver) item = processItem service call item := by
  have hconfig : (call.delivering deliver).config = call.config := rfl
  have hsettings : (call.delivering deliver).settings = call.settings := rfl
  simp only [processItem, bind, locals, Prog.bind, next, hconfig, hsettings, failItem_delivering,
    processLegacy_delivering]
  rcases hread : call.config with cause | config
  · rfl
  cases hprocessor : service.processor with
  | false => rfl
  | true =>
    rcases hset : call.settings with (_ | cause) | settings
    · rfl
    · rfl
    · refine processM2_delivering
        fun _ targets begun hplan hquiet hbegun target htarget hhanded => ?_
      refine h target ?_
      simp only [sentTargets, plan, policyPlan, hread, hprocessor, hset, hplan, hquiet, hbegun,
        Bool.true_eq_false, if_false, Option.elim_some]
      exact List.mem_filter.mpr ⟨htarget, hhanded⟩

end Sends

/-! ## Settled targets -/

/-- A target that some file of the item shows as succeeded or dead. -/
def Settled (name : FileName) (s : Store) (target : DeliveryTarget) : Prop :=
  ∃ directory envelope ledger entry, copies name s directory = some envelope ∧
    envelope.ledger = some ledger ∧ entry ∈ ledger ∧ entry.state ≠ .pending ∧
    target = ⟨entry.channelID, entry.templateID⟩

section Settled

variable {name : FileName} {first later : Option (List DeliveryLedgerEntry)} {s : Store}
  {envelope : Envelope} {targets : List DeliveryTarget}

/-- Every entry of a ledger has a later one. -/
lemma exists_later {ledger ledger' : List DeliveryLedgerEntry} {entry : DeliveryLedgerEntry}
    (h : List.Forall₂ DeliveryLedgerEntry.Advances ledger ledger') (hentry : entry ∈ ledger) :
    ∃ entry' ∈ ledger', entry.Advances entry' := by
  induction h with
  | nil => cases hentry
  | cons hfirst hrest ih =>
    rcases List.mem_cons.mp hentry with rfl | hentry
    · exact ⟨_, List.mem_cons_self, hfirst⟩
    · obtain ⟨entry', hentry', hadvances⟩ := ih hentry
      exact ⟨entry', List.mem_cons_of_mem _ hentry', hadvances⟩

lemma validate_ledger {ledger : List DeliveryLedgerEntry}
    (h : validateDeliveryEnvelope envelope = .ok ()) (hledger : envelope.ledger = some ledger) :
    validateLedgerEntries 0 [] ledger = .ok () := by
  unfold validateDeliveryEnvelope at h
  rw [hledger] at h
  cases ledger with
  | nil => rfl
  | cons entry rest =>
    dsimp only at h
    split at h
    · cases h
    · assumption

/-- A settled target is not among those that are ready later. -/
lemma not_settled_of_ready (hs : Agree name first s) (hadvances : LedgerAdvances first later)
    (henvelope : envelope.Bears later) (hready : Ready envelope targets) {target : DeliveryTarget}
    (htarget : target ∈ targets) : ¬ Settled name s target := by
  rintro ⟨directory, stored, ledger, entry, hcopy, hledger, hentry, hsettled, rfl⟩
  have hfirst : first = some ledger := (hs directory stored hcopy).carried.symm.trans hledger
  obtain ⟨ledger', hlater, hentries⟩ := hadvances ledger hfirst
  obtain ⟨held, hheld, pending, hpending, hstate, heq⟩ := hready _ htarget
  have hsame : held = ledger' :=
    Option.some.inj (hheld.symm.trans (henvelope.carried.trans hlater))
  subst hsame
  obtain ⟨entry', hentry', hadvance⟩ := exists_later hentries hentry
  have hvalid := validate_ledger henvelope.valid hheld
  obtain ⟨hchannel, htemplate⟩ := DeliveryTarget.mk.inj heq
  have hunique : entry' = pending :=
    validate_unique hvalid hentry' hpending (hadvance.channel.trans hchannel)
      (hadvance.template.trans htemplate)
  rw [← hunique, hadvance.settled hsettled] at hstate
  exact hsettled hstate

/-- As long as no ledger is fixed, no target is settled. -/
lemma not_settled_of_none (hs : Agree name first s) (hadvances : LedgerAdvances first none)
    (target : DeliveryTarget) : ¬ Settled name s target := by
  rintro ⟨directory, stored, ledger, entry, hcopy, hledger, -⟩
  have hfirst : first = some ledger := (hs directory stored hcopy).carried.symm.trans hledger
  obtain ⟨ledger', hlater, -⟩ := hadvances ledger hfirst
  cases hlater

end Settled

/-- In every run of the queue operations on an item that rewrites the ledger only while the item has
no second file, stored envelopes are valid, ledgers keep their targets and only advance, a target
that was once stored as settled is neither ready nor sent to again, and an operation that fails
leaves the held item as it was and the files as they were, up to the destination of a move. -/
theorem ledger_only_advances {name : FileName} {s t u : Session} (hfresh : Fresh name s)
    (hfirst : ReflTransGen (Step name (Orderly name)) s t)
    (hlater : ReflTransGen (Step name (Orderly name)) t u) :
    (∀ directory envelope, copies name u.store directory = some envelope →
      validateDeliveryEnvelope envelope = .ok ()) ∧
    (∀ directory envelope directory' envelope', copies name t.store directory = some envelope →
      copies name u.store directory' = some envelope' →
      LedgerAdvances envelope.ledger envelope'.ledger) ∧
    (∀ item targets now turns ready item' v, u.held = some item →
      (resolveTargets targets now item).run (undisturbed name) turns u.store =
        some ((.ok ready, item'), v) →
      ∀ target ∈ ready, ¬ Settled name t.store target) ∧
    (∀ service call config settings deliver item, u.held = some item →
      (∀ notification target, ¬ Settled name t.store target →
        deliver notification target = call.deliver notification target) →
      processM2 service (call.delivering deliver) config settings item =
        processM2 service call config settings item) ∧
    (∀ (action : Action) item turns err item' v, u.held = some item →
      (action.routine item).run (undisturbed name) turns u.store = some ((.error err, item'), v) →
      item' = item ∧ (copies name v = copies name u.store ∨
        action.moves = true ∧ ∃ directory moved, directory ≠ .inflight ∧
          copies name u.store directory = none ∧
          copies name v = Function.update (copies name u.store) directory (some moved))) := by
  obtain ⟨before, -, ht⟩ := sound_of_run hfresh.sound hfirst
  obtain ⟨after, hadvances, hu⟩ := sound_of_run ht hlater
  refine ⟨?_, ?_, ?_, ?_, ?_⟩
  · exact fun directory envelope hcopy => (hu.files directory envelope hcopy).valid
  · intro directory envelope directory' envelope' hcopy hcopy'
    rw [(ht.files directory envelope hcopy).carried, (hu.files directory' envelope' hcopy').carried]
    exact hadvances
  · intro item targets now turns ready item' v hheld hrun target htarget
    have hbears := hu.held item hheld
    have heffect := (meets_action (.resolve targets now) (hu.named item hheld)).of_run hrun
    cases heffect with
    | moved directory moved kind => cases kind
    | kept held pending =>
      exact not_settled_of_ready ht.files hadvances (hbears held) pending htarget
    | rewritten updated kind held present valid advances pending =>
      rw [(hbears held).carried] at advances
      exact not_settled_of_ready ht.files (hadvances.trans advances) ⟨rfl, valid⟩ pending htarget
  · intro service call config settings deliver item hheld hsame
    refine processM2_delivering fun hstate targets begun _ _ hbegun target htarget _ => ?_
    have hbears := hu.held item hheld hstate
    apply hsame
    rcases resolved_cases hbegun with ⟨rfl, ledger, hledger⟩ | ⟨hnone, -⟩
    · rw [entries_of_ledger hledger] at htarget
      exact not_settled_of_ready ht.files hadvances hbears (ready_readyTargets hledger) htarget
    · have hafter : after = none := hbears.carried.symm.trans hnone
      rw [hafter] at hadvances
      exact not_settled_of_none ht.files hadvances target
  · intro action item turns err item' v hheld hrun
    have heffect := (meets_action action (hu.named item hheld)).of_run hrun
    cases heffect with
    | refused same => exact ⟨rfl, .inl same⟩
    | stuck directory moved kind outside held free ledger disposition stored =>
      exact ⟨rfl, .inr ⟨kind, directory, moved.encoded, outside, free, stored⟩⟩

/-! ## A success that is lost -/

/-- An operation of a process on the item, with what happens at its steps. -/
inductive Move where
  | claim (now : Time) (lease : Duration) (turns : List Turn)
  | act (action : Action) (turns : List Turn)
  | recover (now : Time) (turns : List Turn)
  | release

/-- What an operation comes to, if a test allows it. -/
def Move.apply (name : FileName) (test : Action → Store → Bool) : Move → Session → Option Session
  | .claim now lease turns, s =>
    ((Queue.claim now lease ()).run (undisturbed name) turns s.store).map
      fun o => ⟨o.2, s.heldAfter name o.1.1⟩
  | .act action turns, s => s.held.bind fun item =>
    if test action s.store then
      ((action.routine item).run (undisturbed name) turns s.store).map
        fun o => ⟨o.2, some o.1.2⟩
    else none
  | .recover now turns, s =>
    ((recoverExpired now ()).run (undisturbed name) turns s.store).map
      fun o => ⟨o.2, s.held⟩
  | .release, s => some ⟨s.store, none⟩

/-- What a sequence of operations comes to. -/
def played (name : FileName) (test : Action → Store → Bool) : List Move → Session → Option Session
  | [], s => some s
  | move :: rest, s => (move.apply name test s).bind (played name test rest)

section Played

variable {name : FileName} {test : Action → Store → Bool} {may : Action → Store → Prop}
  {s t : Session}

lemma step_of_apply (htest : ∀ action s, test action s = true → may action s) {move : Move}
    (h : move.apply name test s = some t) : Step name may s t := by
  cases move with
  | claim now lease turns =>
    obtain ⟨⟨⟨r, l⟩, v⟩, hrun, rfl⟩ := Option.map_eq_some_iff.mp h
    exact .claimed now lease turns r hrun
  | act action turns =>
    obtain ⟨item, hheld, hact⟩ := Option.bind_eq_some_iff.mp h
    split at hact
    · rename_i hallowed
      obtain ⟨⟨⟨r, item'⟩, v⟩, hrun, rfl⟩ := Option.map_eq_some_iff.mp hact
      exact .acted action turns r item' hheld (htest action s.store hallowed) hrun
    · cases hact
  | recover now turns =>
    obtain ⟨⟨⟨r, l⟩, v⟩, hrun, rfl⟩ := Option.map_eq_some_iff.mp h
    exact .recovered now turns r hrun
  | release =>
    obtain rfl := Option.some.inj h
    exact .released

lemma reaches_of_played (htest : ∀ action s, test action s = true → may action s)
    {moves : List Move} (h : played name test moves s = some t) :
    ReflTransGen (Step name may) s t := by
  induction moves generalizing s with
  | nil =>
    obtain rfl := Option.some.inj h
    exact .refl
  | cons move rest ih =>
    obtain ⟨middle, hmove, hrest⟩ := Option.bind_eq_some_iff.mp h
    exact .head (step_of_apply htest hmove) (ih hrest)

end Played

/-- A target of the sample item. -/
def sampleTarget : DeliveryTarget := ⟨"lark", "short"⟩

/-- The sample item as it was enqueued. -/
def sampleSession : Session := ⟨enqueuedStore, none⟩

lemma fresh_sampleSession : Fresh sampleName sampleSession where
  free := rfl
  enqueued directory envelope hcopy := by
    have hall : (copies sampleName enqueuedStore directory).all (fun envelope =>
        envelope.ledger = none ∧ envelope.disposition = none) = true := by
      cases directory <;> decide +kernel
    rw [show copies sampleName enqueuedStore directory = some envelope from hcopy] at hall
    exact of_decide_eq_true hall

/-- Steps that work. -/
def smoothly (count : Nat) : List Turn := List.replicate count (working .nothing)

/-- The session after some operations. -/
def sessionAfter (test : Action → Store → Bool) (moves : List Move) (s : Session) : Session :=
  (played sampleName test moves s).getD s

lemma played_eq (test : Action → Store → Bool) (moves : List Move) (s : Session)
    (h : (played sampleName test moves s).isSome = true) :
    played sampleName test moves s = some (sessionAfter test moves s) := by
  obtain ⟨t, ht⟩ := Option.isSome_iff_exists.mp h
  rw [sessionAfter, ht]
  rfl

/-- A deferral that fails to remove the file in `inflight`, and a success recorded after it. -/
def lateSuccess : List Move :=
  [.claim second (30 * second) sampleClaim,
    .act (.resolve [sampleTarget] (2 * second)) (smoothly 2),
    .act (.defer (3 * second) (5 * second)) (smoothly 2 ++ [⟨[], .error "input/output error"⟩]),
    .act (.ackTarget sampleTarget "message-1" (4 * second)) (smoothly 2)]

/-- A restart, a recovery and a new claim. -/
def secondClaim : List Move :=
  [.release, .recover (6 * second) (working (.order [sampleName]) :: smoothly 3),
    .claim (10 * second) (30 * second) sampleClaim]

/-- The item once its delivery is recorded in the file that was to be removed. -/
def recordedSession : Session := sessionAfter (fun _ _ => true) lateSuccess sampleSession

/-- The item when it is claimed again. -/
def forgetfulSession : Session := sessionAfter (fun _ _ => true) secondClaim recordedSession

lemma settled_of_any {name : FileName} {s : Store} {target : DeliveryTarget} (directory : Directory)
    (h : (copies name s directory).any (fun envelope => envelope.ledger.any fun ledger =>
      ledger.any fun entry => entry.state ≠ .pending ∧
        target = ⟨entry.channelID, entry.templateID⟩) = true) : Settled name s target := by
  obtain ⟨envelope, hcopy, hany⟩ := (Option.any_eq_true _ _).mp h
  obtain ⟨ledger, hledger, hany⟩ := (Option.any_eq_true _ _).mp hany
  obtain ⟨entry, hentry, hsettled⟩ := List.any_eq_true.mp hany
  obtain ⟨hstate, htarget⟩ := of_decide_eq_true hsettled
  exact ⟨directory, envelope, ledger, entry, hcopy, hledger, hentry, hstate, htarget⟩

/-- A deferral fails after it wrote its destination, and a delivery that is recorded in the file
that was to be removed is forgotten when a recovery removes it: the target was stored as succeeded,
and after a restart it is ready again. -/
theorem settled_target_ready_again : ∃ (item item' : Item) (v : Store),
      Fresh sampleName sampleSession ∧
      ReflTransGen (Step sampleName fun _ _ => True) sampleSession recordedSession ∧
      Settled sampleName recordedSession.store sampleTarget ∧
      ReflTransGen (Step sampleName fun _ _ => True) recordedSession forgetfulSession ∧
      forgetfulSession.held = some item ∧
      (resolveTargets [] (11 * second) item).run (undisturbed sampleName) []
        forgetfulSession.store = some ((.ok [sampleTarget], item'), v) := by
  have hfirst : ReflTransGen (Step sampleName fun _ _ => True) sampleSession recordedSession :=
    reaches_of_played (fun _ _ _ => trivial)
      (played_eq (fun _ _ => true) lateSuccess sampleSession (by decide +kernel))
  have hlater : ReflTransGen (Step sampleName fun _ _ => True) recordedSession forgetfulSession :=
    reaches_of_played (fun _ _ _ => trivial)
      (played_eq (fun _ _ => true) secondClaim recordedSession (by decide +kernel))
  have hresolved : forgetfulSession.held.any (fun item =>
      ((resolveTargets [] (11 * second) item).run (undisturbed sampleName) []
        forgetfulSession.store).any fun o => o.1.1.toOption = some [sampleTarget]) = true := by
    decide +kernel
  obtain ⟨item, hheld, hany⟩ := (Option.any_eq_true _ _).mp hresolved
  obtain ⟨⟨⟨r, item'⟩, v⟩, hrun, hr⟩ := (Option.any_eq_true _ _).mp hany
  cases r with
  | error err => cases of_decide_eq_true hr
  | ok ready =>
    obtain rfl := Option.some.inj (of_decide_eq_true hr)
    exact ⟨item, item', v, fresh_sampleSession, hfirst,
      settled_of_any .inflight (by decide +kernel), hlater, hheld, hrun⟩

/-! ## An orderly run -/

/-- Whether an operation is made while the item has no second file. -/
def orderlyTest (action : Action) (s : Store) : Bool :=
  action.moves || (copies sampleName s .inflight).isNone ||
    [Directory.pending, .history, .dead].all fun directory =>
      (copies sampleName s directory).isNone

lemma orderly_of_test (action : Action) (s : Store) (h : orderlyTest action s = true) :
    Orderly sampleName action s := by
  intro hmoves hpresent directory hne
  simp only [orderlyTest, hmoves, Bool.false_or, Bool.or_eq_true, Option.isNone_iff_eq_none] at h
  rcases h with hnone | hall
  · rw [hnone] at hpresent
    cases hpresent
  · have hmem : directory ∈ [Directory.pending, .history, .dead] := by
      cases directory <;> simp_all
    exact Option.isNone_iff_eq_none.mp (List.all_eq_true.mp hall directory hmem)

/-- One of two targets is delivered to, and the item is deferred. -/
def firstDelivery : List Move :=
  [.claim second (30 * second) sampleClaim,
    .act (.resolve [sampleTarget, ⟨"desk", "short"⟩] (2 * second)) (smoothly 2),
    .act (.ackTarget sampleTarget "message-1" (3 * second)) (smoothly 2),
    .act (.defer (4 * second) (5 * second)) (smoothly 3)]

/-- A restart, a recovery that finds nothing to do and a new claim. -/
def nextClaim : List Move :=
  [.release, .recover (6 * second) [working (.order [])],
    .claim (10 * second) (30 * second) sampleClaim]

/-- The item after the first delivery. -/
def deferredSession : Session := sessionAfter orderlyTest firstDelivery sampleSession

/-- The item when it is claimed for the second delivery. -/
def resumedSession : Session := sessionAfter orderlyTest nextClaim deferredSession

/-- A target that was delivered to is not ready after a restart. -/
theorem settled_target_not_ready : Settled sampleName deferredSession.store sampleTarget ∧
      ReflTransGen (Step sampleName (Orderly sampleName)) deferredSession resumedSession ∧
      ∃ item, resumedSession.held = some item ∧ ∀ targets now turns ready item' v,
        (resolveTargets targets now item).run (undisturbed sampleName) turns
          resumedSession.store = some ((.ok ready, item'), v) → sampleTarget ∉ ready := by
  have hfirst : ReflTransGen (Step sampleName (Orderly sampleName)) sampleSession deferredSession :=
    reaches_of_played orderly_of_test
      (played_eq orderlyTest firstDelivery sampleSession (by decide +kernel))
  have hlater : ReflTransGen (Step sampleName (Orderly sampleName)) deferredSession
      resumedSession :=
    reaches_of_played orderly_of_test
      (played_eq orderlyTest nextClaim deferredSession (by decide +kernel))
  have hheld : resumedSession.held.isSome = true := by decide +kernel
  obtain ⟨item, hitem⟩ := Option.isSome_iff_exists.mp hheld
  have hsettled : Settled sampleName deferredSession.store sampleTarget :=
    settled_of_any .pending (by decide +kernel)
  refine ⟨hsettled, hlater, item, hitem, ?_⟩
  intro targets now turns ready item' v hrun htarget
  exact (ledger_only_advances fresh_sampleSession hfirst hlater).2.2.1 item targets now turns ready
    item' v hitem hrun sampleTarget htarget hsettled

end AgentBell.Service
