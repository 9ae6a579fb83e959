import AgentBell.Service.Filing
import AgentBell.Service.Overdue

/-!
# One call and the item it claims

A call of `ProcessOne` claims at most one item.  A call that claims another item leaves the files of
this one alone; a call that claims this one ends with its verdict, whatever other files of its name
there are.  An item with one file has one file after the call, with an outcome.

The steps of a call are cut after its claim.  For an item of another name every routine of the rest
is shown, from the leaves up, to issue commands about other files only; for the claimed item the
rest is what the verdict says.
-/

namespace AgentBell.Service

open Interleaving Interleaving.Routine Queue Queue.Faulty

/-! ## The claimed item -/

/-- The item that a call claims in its first steps. -/
def claimedItem (service : Options) (call : Surroundings)
    (M : Machine Cmd (fun c => Except OsError (Reply c)) Store Turn) (turns : List Turn)
    (s : Store) : Option Item :=
  if service.complete = false then none
  else
    match (claim call.now service.leaseTime ()).consume M turns s with
    | some ((.ok (some item), _), _) => some item
    | _ => none

section Claimed

variable {M : Machine Cmd (fun c => Except OsError (Reply c)) Store Turn} {service : Options}
  {call : Surroundings} {turns : List Turn} {s t : Store} {item : Item}
  {outcome : Except OsError (Bool × Option String) × Unit} {A : Store → Prop}

/-- The steps of a call are those of its claim, and the rest. -/
lemma processOne_run (hcomplete : service.complete = true)
    (hrun : (processOne service call ()).run M turns s = some (outcome, t)) :
    ∃ r middle rest, (claim call.now service.leaseTime ()).consume M turns s =
        some ((r, ()), middle, rest) ∧
      (∀ e, r = .error e → t = middle) ∧
      ∀ found, r = .ok found → ∀ {A : Store → Prop},
        Meets M (fun _ _ t => A t) (afterClaim service call found) () middle → A t := by
  have heq : processOne service call () = (claim call.now service.leaseTime ()).bind fun o =>
      (next (afterClaim service call) o).bind
        (handle fun err => pure (false, some err.message)) := by
    rw [← Prog.bind_assoc]
    unfold processOne
    rw [if_neg (by simp [hcomplete])]
    rfl
  rw [heq, Prog.run_bind] at hrun
  obtain ⟨⟨⟨r, ⟨⟩⟩, middle, rest⟩, hconsume, hrest⟩ := Option.bind_eq_some_iff.mp hrun
  refine ⟨r, middle, rest, hconsume, ?_, ?_⟩
  · rintro e rfl
    cases rest with
    | nil =>
      cases hrest
      rfl
    | cons turn rest => cases hrest
  · rintro found rfl A hA
    obtain ⟨r, ⟨⟩⟩ := outcome
    have hcaught : Meets M (fun _ _ t => A t)
        (catching (afterClaim service call found) fun err => pure (false, some err.message)) ()
        middle :=
      meets_catching hA (fun _ _ _ h => h) fun _ _ _ h => meets_pure h
    exact hcaught.of_run hrest

end Claimed

/-! ## Calls for other items -/

/-- A routine that works on an item of another name and leaves the files of this name alone. -/
def Apart (name : FileName) {α : Type} (p : QueueRoutine Item α) : Prop :=
  Confined (fun item : Item => item.fileName ≠ name) (fun c => spares name c = true) p

section Apart

variable {name fileName : FileName} {service : Options} {call : Surroundings} {cause : Cause}
  {α : Type} {p : QueueRoutine Item α} {envelope : Envelope}

/-- A file of another name is moved. -/
lemma apart_transitionEnvelope {source destination : Directory} (hname : fileName ≠ name) :
    Apart name (transitionEnvelope source destination fileName envelope) := by
  have hnew : Apart name (writeNew destination fileName envelope) :=
    Confined.bind (confined_perform rfl) fun _ =>
      Confined.bind (confined_raiseIf _ _) fun _ => confined_write (decide_eq_true hname)
  exact Confined.bind hnew fun _ =>
    confined_wrapping (confined_perform (decide_eq_true hname))

/-- The held item is moved on under its own name. -/
lemma apart_advance (destination : Directory) (updated : Envelope) :
    Apart name (advance destination updated) :=
  confined_locals_bind fun _ hname => Confined.bind (apart_transitionEnvelope hname) fun _ =>
    confined_assign fun _ hname => hname

/-- The held item is overwritten under its own name. -/
lemma apart_rewrite (updated : Envelope) : Apart name (rewrite updated) :=
  confined_locals_bind fun _ hname =>
    Confined.bind (confined_replace rfl (decide_eq_true hname)) fun _ =>
      confined_assign fun _ hname => hname

/-- The held item is checked, and then the rest runs. -/
lemma apart_validated {k : Item → QueueRoutine Item α} (hk : ∀ item, Apart name (k item)) :
    Apart name (locals >>= fun held => check (validateInflightItem (some held)) >>= k) :=
  confined_locals_bind fun _ _ => Confined.bind (confined_lift _) hk

lemma apart_ack (now : Time) : Apart name (ack now) :=
  apart_validated fun _ => Confined.bind (confined_lift _) fun _ => apart_advance _ _

lemma apart_nack (text : Option String) (now : Time) (backoff : List Duration) :
    Apart name (nack text now backoff) := by
  refine apart_validated fun _ => Confined.bind (confined_raiseIf _ _) fun _ => ?_
  dsimp only
  split
  · exact apart_advance _ _
  · exact apart_advance _ _

lemma apart_defer (now nextAttemptAt : Time) : Apart name (defer now nextAttemptAt) := by
  refine apart_validated fun item => ?_
  split
  · exact confined_raise _
  · exact Confined.bind (confined_raiseIf _ _) fun _ => Confined.bind (confined_lift _) fun _ =>
      Confined.bind (confined_raiseIf _ _) fun _ => apart_advance _ _

lemma apart_resolveTargets (targets : List DeliveryTarget) (now : Time) :
    Apart name (resolveTargets targets now) := by
  refine apart_validated fun item => ?_
  split
  · exact Confined.bind (confined_lift _) fun _ => Confined.bind (confined_lift _) fun _ =>
      Confined.bind (apart_rewrite _) fun _ => confined_pure _
  · exact Confined.bind (confined_lift _) fun _ => confined_pure _

/-- An entry of the ledger is changed, or the call is refused before it writes. -/
lemma apart_updateTarget (target : DeliveryTarget)
    (update : DeliveryLedgerEntry → Except String DeliveryLedgerEntry) (now : Time) :
    Apart name (updateTarget target update now) := by
  refine apart_validated fun item => ?_
  split
  · exact confined_raise _
  · exact Confined.bind (confined_lift _) fun _ => Confined.bind (confined_lift _) fun _ =>
      Confined.bind (confined_lift _) fun _ => apart_rewrite _

/-- A failure that is noted and passed over writes nothing more. -/
lemma apart_attempt {p : QueueRoutine Item Unit} (hp : Apart name p) : Apart name (attempt p) :=
  Confined.catching (Confined.bind hp fun _ => confined_pure _) fun _ => confined_pure _

lemma apart_failing {p : QueueRoutine Item Unit} (hp : Apart name p) :
    Apart name (failing cause p) :=
  Confined.bind (apart_attempt hp) fun _ => confined_raiseIf _ _

/-- The outcomes of the targets are recorded one after the other. -/
lemma apart_recordAll {record : DeliveryTarget → QueueRoutine Item (List String)}
    (hrecord : ∀ target, Apart name (record target)) (targets : List DeliveryTarget) :
    Apart name (recordAll record targets) := by
  induction targets with
  | nil => exact confined_pure _
  | cons target targets ih =>
    exact Confined.bind (hrecord target) fun _ => Confined.bind ih fun _ => confined_pure _

/-- A failed target is given up or put off. -/
lemma apart_failTarget (target : DeliveryTarget) :
    Apart name (failTarget service call target cause) := by
  refine confined_locals_bind fun item _ => ?_
  split
  · exact confined_raise _
  · split
    · exact apart_updateTarget _ _ _
    · exact apart_updateTarget _ _ _

/-- The item is filed away when all targets are done, and put back otherwise. -/
lemma apart_finishResolvedItem : Apart name (finishResolvedItem service call) := by
  refine confined_locals_bind fun item _ => ?_
  dsimp only
  split
  · exact apart_ack _
  · exact Confined.bind (confined_raiseIf _ _) fun _ => apart_defer _ _

/-- Outcomes are recorded, and then the item is moved on. -/
lemma apart_finish {p : QueueRoutine Item (List String)} (hp : Apart name p) : Apart name (do
      let failures ← p
      let last ← attempt (finishResolvedItem service call)
      joined (failures ++ last)) :=
  Confined.bind hp fun _ => Confined.bind (apart_attempt apart_finishResolvedItem) fun _ =>
    confined_raiseIf _ _

lemma apart_failResolvedTargets : Apart name (failResolvedTargets service call cause) := by
  refine Confined.bind (apart_resolveTargets _ _) fun targets => apart_finish ?_
  rw [failTargets_eq]
  exact apart_recordAll (fun target => apart_attempt (apart_failTarget target)) targets

/-- A failed item is nacked, target by target when its targets are known. -/
lemma apart_failItem : Apart name (failItem service call cause) := by
  refine confined_locals_bind fun item _ => ?_
  split
  · exact apart_failing apart_failResolvedTargets
  · exact apart_failing (apart_nack _ _ _)

lemma apart_processLegacy (config : Config) : Apart name (processLegacy service call config) := by
  refine confined_locals_bind fun item _ => ?_
  split
  · exact apart_ack _
  split
  · exact apart_failItem
  split
  · exact apart_failItem
  split
  · exact apart_failing (apart_nack _ _ _)
  · exact apart_ack _

lemma apart_deadTargets (text : String) (ledger : List DeliveryLedgerEntry) :
    Apart name (deadTargets call text ledger) := by
  induction ledger with
  | nil => exact confined_pure _
  | cons entry rest ih =>
    unfold deadTargets
    split
    · exact ih
    · exact Confined.bind (apart_updateTarget _ _ _) fun _ => ih

lemma apart_dropResolvedOrNewItem : Apart name (dropResolvedOrNewItem call) := by
  refine confined_locals_bind fun item _ => ?_
  split
  · exact apart_ack _
  · exact Confined.bind (apart_deadTargets _ _) fun _ => apart_ack _

/-- The ready targets are served, and then the item is moved on. -/
lemma apart_deliverResolved (config : Config) (settings : Settings) (ready : List DeliveryTarget) :
    Apart name (deliverResolved service call config settings ready) := by
  refine confined_locals_bind fun item _ => ?_
  split
  · exact apart_finishResolvedItem
  split
  · exact apart_failing apart_failResolvedTargets
  split
  · exact apart_failing apart_failResolvedTargets
  · refine apart_finish ?_
    rw [deliverTargets_eq]
    refine apart_recordAll (fun target => ?_) ready
    unfold recordOutcome
    split
    · exact Confined.bind (apart_attempt (apart_failTarget target)) fun _ => confined_pure _
    · exact apart_attempt (apart_updateTarget _ _ _)

/-- An item is processed as the settings route it. -/
lemma apart_processM2 (config : Config) (settings : Settings) :
    Apart name (processM2 service call config settings) := by
  refine confined_locals_bind fun item _ => ?_
  split
  · exact apart_failItem
  · exact apart_ack _
  split
  · exact apart_failItem
  · exact apart_dropResolvedOrNewItem
  · refine Confined.bind (apart_resolveTargets _ _) fun _ => confined_locals_bind fun item _ => ?_
    split
    · exact apart_ack _
    · exact apart_defer _ _
  · exact Confined.bind (apart_resolveTargets _ _) fun _ => apart_deliverResolved _ _ _

/-- A call that processes another item leaves the files of this one alone. -/
lemma apart_processItem : Apart name (processItem service call) := by
  refine confined_locals_bind fun item _ => ?_
  split
  · exact apart_failItem
  split
  · split
    · exact apart_failItem
    · exact apart_processLegacy _
  split
  · split
    · exact apart_processLegacy _
    · exact apart_failItem
  · exact apart_failItem
  · exact apart_processM2 _ _

/-- What leaves the files of a name alone ends with the same copies of it. -/
lemma Apart.meets (hp : Apart name p) {faulty : Bool} {item : Item} {s : Store}
    (hitem : item.fileName ≠ name) :
    Meets (sparing faulty name) (fun _ _ t => copies name t = copies name s) p item s := by
  refine (Issues.meets (A := fun t => copies name t = copies name s) (hp item hitem) ?_
    rfl).weaken fun _ _ _ h => h.2
  exact fun _ _ _ _ _ hc hu hexec => ⟨trivial, (copies_of_sparing hc hexec).trans hu⟩

end Apart

/-! ## What a call does to one item -/

/-- What becomes of the item that a call has claimed, with the files of its name before the call. -/
structure CallEnded (service : Options) (call : Surroundings) (name : FileName)
    (f : Directory → Option Envelope) (item : Item) (t : Store) : Prop where
  named : item.fileName = name
  free : f .inflight = none
  before : ∃ envelope, f .pending = some envelope ∧ envelope.listable = true ∧
    item.envelope = claimedEnvelope call.now service.leaseTime envelope
  fit : Fit call.now item.envelope
  ends : Ends (filing name (Function.update f .pending none)) call.now name
    (verdict service call item.envelope) t

section Cases

variable {service : Options} {call : Surroundings} {name : FileName} {turns : List Turn}
  {f : Directory → Option Envelope} {s t : Store} {place : Directory} {envelope : Envelope}
  {outcome : Except OsError (Bool × Option String) × Unit}

/-- A call ends with its verdict about the item, or it has not claimed it. -/
theorem processOne_cases (hs : copies name s = f)
    (hrun : (processOne service call ()).run (smooth name) turns s = some (outcome, t)) :
    (∃ item, claimedItem service call (smooth name) turns s = some item ∧
      CallEnded service call name f item t) ∨
    (∀ item, claimedItem service call (smooth name) turns s = some item →
      item.fileName ≠ name) ∧ Unclaimed name f t := by
  unfold claimedItem
  by_cases hcomplete : service.complete = false
  · refine .inr ⟨fun item hitem => ?_, ?_⟩
    · rw [if_pos hcomplete] at hitem
      cases hitem
    · have hnothing : Meets (smooth name) (fun _ _ t => copies name t = f)
          (processOne service call) () s := by
        unfold processOne
        rw [if_pos hcomplete]
        exact meets_pure hs
      obtain ⟨r, ⟨⟩⟩ := outcome
      exact .inl (hnothing.of_run hrun)
  have hcomplete' : service.complete = true := Bool.not_eq_false _ ▸ hcomplete
  obtain ⟨r, middle, rest, hconsume, herror, hok⟩ := processOne_run hcomplete' hrun
  obtain ⟨used, -, hclaim⟩ := Prog.run_of_consume hconsume
  obtain ⟨hours, hothers⟩ := (meets_claim_filed hs).of_run hclaim
  rw [if_neg hcomplete, hconsume]
  rcases r with e | _ | item
  · obtain rfl := herror e rfl
    exact .inr ⟨(by rintro _ ⟨⟩), hothers (by rintro _ ⟨⟩)⟩
  · exact .inr ⟨(by rintro _ ⟨⟩), hok none rfl (meets_pure (hothers (by rintro _ ⟨⟩)))⟩
  · by_cases hname : item.fileName = name
    · subst hname
      obtain ⟨hfree, hbefore, hheld⟩ := hours item rfl rfl
      exact .inl ⟨item, rfl, rfl, hfree, hbefore, hheld.fit,
        hok _ rfl (meets_afterClaim (meets_processItem hheld))⟩
    · refine .inr ⟨fun found hfound => ?_, hok _ rfl (meets_afterClaim ?_)⟩
      · cases hfound
        exact hname
      · have hunclaimed : Unclaimed name f middle := by
          refine hothers ?_
          rintro _ ⟨⟩
          exact hname
        exact (Apart.meets apart_processItem hname).weaken fun _ _ _ h => hunclaimed.congr h

/-- What becomes of the only file of the item that a call has claimed. -/
structure CallFiled (service : Options) (call : Surroundings) (name : FileName)
    (place : Directory) (before : Envelope) (item : Item) (t : Store) : Prop where
  named : item.fileName = name
  place : place = .pending
  envelope : item.envelope = claimedEnvelope call.now service.leaseTime before
  ended : ∃ directory after, copies name t = only directory after ∧
    validateDeliveryEnvelope after = .ok () ∧
    Outcome service call (sentTargets service call item.envelope)
      (nacks service call item.envelope = true) item.envelope directory after

/-- An item with one file has one file after a call that has claimed it. -/
lemma CallEnded.filed {item : Item}
    (h : CallEnded service call name (only place envelope) item t) :
    CallFiled service call name place envelope item t := by
  obtain ⟨before, hpending, -, henvelope⟩ := h.before
  obtain ⟨hplace, rfl⟩ := eq_of_only_eq_some hpending
  refine ⟨h.named, hplace.symm, henvelope, ?_⟩
  have hkept : Function.update (only place before) .pending none = fun _ => none := by
    rw [hplace, update_only_none]
  have hends := h.ends
  rw [hkept] at hends
  rcases hends with ⟨directory, after, hmove, -, -, ht⟩ | ⟨hblocked, hheld⟩
  · obtain ⟨hvalid, houtcome⟩ := outcome_moved h.fit hmove
    refine ⟨directory, after, ?_, hvalid, houtcome⟩
    rw [ht, Function.update_eq_self]
    rfl
  · exact ⟨.inflight, _, hheld.has.2, hheld.fit.valid, outcome_held h.fit
      fun directory after hmove hencodable => hblocked directory after hmove ⟨hencodable, rfl⟩⟩

/-- A call leaves one file of an item that had one, unless it moves it aside. -/
theorem processOne_filed (hs : Filed name place envelope s)
    (hrun : (processOne service call ()).run (smooth name) turns s = some (outcome, t)) :
    (∃ item, claimedItem service call (smooth name) turns s = some item ∧
      CallFiled service call name place envelope item t) ∨
    (∀ item, claimedItem service call (smooth name) turns s = some item →
      item.fileName ≠ name) ∧ Filed name place envelope t := by
  rcases hs with hs | ⟨hbad, hs⟩
  · rcases processOne_cases hs hrun with ⟨item, hitem, hended⟩ | ⟨hothers, hunclaimed⟩
    · exact .inl ⟨item, hitem, hended.filed⟩
    refine .inr ⟨hothers, ?_⟩
    rcases hunclaimed with ht | ⟨⟨found, hfound, hwhy⟩, ht⟩
    · exact .inl ht
    obtain ⟨rfl, rfl⟩ := eq_of_only_eq_some hfound
    rw [update_only_none] at ht
    rcases hwhy with hbad | hsome
    · exact .inr ⟨hbad, ht⟩
    · rw [only_ne (by decide)] at hsome
      cases hsome
  · rcases processOne_cases hs hrun with ⟨item, -, hended⟩ | ⟨hothers, hunclaimed⟩
    · obtain ⟨before, hpending, -⟩ := hended.before
      cases hpending
    refine .inr ⟨hothers, .inr ⟨hbad, ?_⟩⟩
    rcases hunclaimed with ht | ⟨⟨found, hfound, -⟩, -⟩
    · exact ht
    · cases hfound

end Cases

/-- The sample item is enqueued. -/
lemma copies_enqueuedStore : copies sampleName enqueuedStore =
    only .pending (newEnvelope sampleID sampleNotification 1) := by
  funext directory
  cases directory <;> decide +kernel

end AgentBell.Service
