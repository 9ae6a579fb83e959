import AgentBell.Queue.CrashRecovery
import AgentBell.Service.Calls

/-!
# Leases that run out while the service runs

`Run` recovers the items whose lease has run out once, before its first `ProcessOne`.  An item that
is in `inflight` afterwards stays there until the next start.  So the service keeps `inflight` free
of items whose lease has passed when it starts after all leases have run out, and each of its calls
takes the item it claims out of `inflight` again.
-/

namespace AgentBell.Service

open Interleaving Interleaving.Routine Queue Queue.Faulty

variable {s : Store} {turn : Turn} {c : Cmd}

/-! ## Starting up -/

/-- A removal from `inflight` does not fail. -/
def Removes (turn : Turn) (c : Cmd) (_ : Store) : Prop :=
  ∀ name text, c = .remove (.inflight, name) → turn.outcome ≠ .error text

/-- Every lease in `inflight` has run out. -/
def Lapsed (now : Time) (s : Store) : Prop :=
  ∀ name envelope, inflightFile s name = some envelope → envelope.leaseUntil ≤ now

section Start

variable {ℓ : Type} {l : ℓ} {s : Store} {now : Time} {t : Store} {name : FileName}
  {directory : Directory}

/-- Files were only taken out of `inflight`. -/
def Shrinks (s t : Store) : Prop :=
  ∀ name, inflightFile t name = none ∨ inflightFile t name = inflightFile s name

lemma shrinks_of_eq (h : inflightFile t = inflightFile s) : Shrinks s t :=
  fun name => .inr (congrFun h name)

lemma Shrinks.trans {u : Store} (h : Shrinks s t) (h' : Shrinks t u) : Shrinks s u := by
  intro name
  rcases h' name with hnone | hsame
  · exact .inl hnone
  · rw [hsame]
    exact h name

/-- A listing of `inflight` shows its files as they were, and may move some aside. -/
lemma walk_inflight : Walk (inUse.guard Removes) .inflight ℓ (fun _ => True) Shrinks
    (fun s item => inflightFile s item.fileName = some item.envelope)
    (fun name t => inflightFile t name = none) where
  refl _ := shrinks_of_eq rfl
  trans := Shrinks.trans
  earlier h hread := by
    rcases h _ with hnone | hsame
    · rw [hnone] at hread
      cases hread
    · exact hsame ▸ hread
  later h hnone := (h _).elim id fun hsame => hsame.trans hnone
  read name l s _ := by
    refine meets_step_inUse (c := .readFile (.inflight, name)) ?_
      fun _ _ _ _ _ hsame => ⟨trivial, shrinks_of_eq hsame, by rintro _ ⟨⟩⟩
    intro turn x r t v _ _ hsame hexec
    cases hexec
    refine ⟨trivial, shrinks_of_eq hsame, fun envelope hread => ⟨fun _ => ?_, fun _ _ => ?_⟩⟩
    · rw [← hsame]
      exact Except.ok.inj hread
    refine meets_wrapping (meets_step_inUse (c := .quarantine (.inflight, name)) ?_
      fun _ _ _ _ _ hsame => ⟨trivial, shrinks_of_eq hsame, nofun⟩)
    intro turn x r u v _ _ hsame hexec
    simp only [exec] at hexec
    split at hexec
    · cases hexec
      refine ⟨trivial, fun other => ?_, fun _ _ => inflightFile_drop_self _ _⟩
      by_cases hother : other = name
      · rw [hother]
        exact .inl (inflightFile_drop_self _ _)
      · exact .inr ((inflightFile_drop_ne (by simpa using hother)).trans (congrFun hsame other))
    · rename_i habsent
      cases hexec
      exact ⟨trivial, shrinks_of_eq hsame, fun _ _ => AList.lookup_eq_none.mpr habsent⟩

/-- A listing of `inflight` holds all its files. -/
lemma meets_listInflight :
    Meets (inUse.guard Removes) (fun r _ t => ∀ items, r = .ok items →
      (∀ name, inflightFile t name ≠ none → ∃ item ∈ items, item.fileName = name) ∧
      ∀ item ∈ items, inflightFile s item.fileName = some item.envelope)
      (listUnlocked .inflight : QueueRoutine ℓ (List Item)) l s := by
  have hdir : Meets (inUse.guard Removes) (fun r _ t => True ∧ Shrinks s t ∧
      ∀ names, r = .ok names → ∀ name, inflightFile s name = none ∨ name ∈ names)
      (step (.readDir .inflight) : QueueRoutine ℓ (List FileName)) l s := by
    refine meets_step_inUse ?_ fun _ _ _ _ _ hsame => ⟨trivial, shrinks_of_eq hsame, nofun⟩
    intro turn x r t v _ _ hsame hexec
    simp only [exec] at hexec
    split at hexec
    · split at hexec
      · rename_i names hperm
        cases hexec
        refine ⟨trivial, shrinks_of_eq hsame, ?_⟩
        rintro _ ⟨⟩ name
        rw [hperm.mem_iff, Store.mem_names, mem_files_iff, congrFun hsame name]
        exact (Option.eq_none_or_eq_some _).imp_right Option.isSome_iff_exists.mpr
      · cases hexec
    · cases hexec
  refine (walk_inflight.listUnlocked hdir).weaken fun r _ t ht items hitems => ?_
  obtain ⟨henvelopes, hlisted⟩ := ht.2.2 items hitems
  exact ⟨fun name hpresent => (hlisted name).resolve_left hpresent, henvelopes⟩

/-- A file was taken out of `inflight`. -/
def Dropped (name : FileName) (s t : Store) : Prop :=
  inflightFile t name = none ∧ ∀ other, other ≠ name → inflightFile t other = inflightFile s other

lemma meets_removeInflight :
    Meets (inUse.guard Removes) (fun r _ t => r = .ok () ∧ Dropped name s t)
      (step (.remove (.inflight, name)) : QueueRoutine ℓ Unit) l s := by
  refine meets_step_inUse (c := .remove (.inflight, name)) ?_ ?_
  · intro turn x r t v _ _ hsame hexec
    cases hexec
    refine ⟨rfl, inflightFile_drop_self _ _, fun other hother => ?_⟩
    rw [inflightFile_drop_ne (by simpa using hother), hsame]
  · exact fun turn text _ hg houtcome _ => absurd houtcome (hg name text rfl)

/-- The recovery of the listed items empties `inflight`. -/
lemma meets_recoverItems (items : List Item) (recovered : Nat)
    (hlisted : ∀ name, inflightFile s name ≠ none → ∃ item ∈ items, item.fileName = name)
    (hlapsed : ∀ item ∈ items, item.envelope.leaseUntil ≤ now) :
    Meets (inUse.guard Removes) (fun r _ t => ∀ count, r = .ok count → Clear t)
      (recoverItems now recovered items : QueueRoutine ℓ Nat) l s := by
  induction items generalizing s l recovered with
  | nil =>
    refine meets_pure fun _ _ name => ?_
    by_contra hpresent
    obtain ⟨item, hitem, -⟩ := hlisted name hpresent
    exact absurd hitem List.not_mem_nil
  | cons item items ih =>
    have hrest : ∀ {t : Store}, Dropped item.fileName s t →
        ∀ name, inflightFile t name ≠ none → ∃ item ∈ items, item.fileName = name := by
      rintro t ⟨hgone, hothers⟩ name hpresent
      have hne : name ≠ item.fileName := by
        rintro rfl
        exact hpresent hgone
      rw [hothers name hne] at hpresent
      obtain ⟨other, hother, hname⟩ := hlisted name hpresent
      rcases List.mem_cons.mp hother with rfl | hother
      · exact absurd hname.symm hne
      · exact ⟨other, hother, hname⟩
    have hlapsed' := fun other hother => hlapsed other (List.mem_cons_of_mem item hother)
    refine meets_bind (meets_outside (within_completedTransition fun _ => rfl)) ?_
      fun _ _ _ _ => nofun
    intro completed l' t ht
    have hdropped : ∀ {u : Store}, Dropped item.fileName t u → Dropped item.fileName s u :=
      fun h => ⟨h.1, fun other hother => (h.2 other hother).trans (congrFun ht other)⟩
    split
    · have hremove : Meets (inUse.guard Removes) (fun _ _ u => Dropped item.fileName s u)
          (catching (step (.remove (.inflight, item.fileName))) fun _ => pure () :
            QueueRoutine ℓ Unit) l' t :=
        meets_catching meets_removeInflight (fun _ _ _ h => hdropped h.2) fun _ _ _ h => nomatch h.1
      refine meets_bind hremove ?_ fun _ _ _ _ => nofun
      exact fun _ _ _ h => ih recovered (hrest h) hlapsed'
    split
    · rename_i hheld
      exact absurd hheld.2 (not_lt.mpr (hlapsed item List.mem_cons_self))
    · have hmove : Meets (inUse.guard Removes) (fun r _ u => ∀ a, r = .ok a →
          Dropped item.fileName s u)
          (transitionEnvelope .inflight .pending item.fileName
            (recoveredEnvelope now item.envelope) : QueueRoutine ℓ Unit) l' t := by
        have hne : Directory.pending ≠ .inflight := nofun
        refine meets_bind (meets_outside (within_writeNew rfl (decide_eq_true hne))) ?_
          fun _ _ _ _ => nofun
        intro _ l'' u hu
        refine meets_wrapping (meets_removeInflight.weaken ?_)
        rintro r _ v ⟨rfl, hgone, hothers⟩ _ _
        exact hdropped ⟨hgone, fun other hother => (hothers other hother).trans (congrFun hu other)⟩
      refine meets_bind hmove ?_ fun _ _ _ _ => nofun
      exact fun a _ _ h => ih (recovered + 1) (hrest (h a rfl)) hlapsed'

lemma meets_recoverExpired (hlapsed : Lapsed now s) :
    Meets (inUse.guard Removes) (fun r _ t => ∀ count, r = .ok count → Clear t)
      (recoverExpired now : QueueRoutine ℓ Nat) l s := by
  refine meets_bind meets_listInflight ?_ fun _ _ _ _ => nofun
  intro items l' t h
  obtain ⟨hlisted, henvelopes⟩ := h items rfl
  exact meets_recoverItems items 0 hlisted fun item hitem => hlapsed _ _ (henvelopes item hitem)

lemma within_listUnlocked (hne : directory ≠ .inflight) :
    (listUnlocked directory : QueueRoutine ℓ (List Item)).Within
      fun c => outside c = true := by
  have hread : ∀ names, (readItems directory names : QueueRoutine ℓ (List Item)).Within
      fun c => outside c = true := by
    intro names
    induction names with
    | nil => exact within_pure _
    | cons name names ih =>
      refine Within.bind (within_perform rfl) ?_
      rintro (_ | envelope)
      · exact within_raise _
      dsimp only
      split
      · exact ih.bind fun _ => within_pure _
      · refine Within.bind ?_ fun _ => (within_raiseIf _ _).bind fun _ => ih
        exact within_wrapping (within_perform (decide_eq_true hne))
  exact Within.bind (within_perform rfl) fun names => (hread names).bind fun _ => within_pure _

lemma within_discardItems {sha256 : String → String} (hne : directory ≠ .inflight) (removed : Nat)
    (items : List Item) : (discardItems sha256 directory removed items : QueueRoutine ℓ Nat).Within
      fun c => outside c = true := by
  induction items generalizing removed with
  | nil => exact within_pure _
  | cons item items ih =>
    refine Within.bind (within_perform (decide_eq_true hne)) fun _ => ?_
    refine (within_raiseIf _ _).bind fun _ => Within.bind ?_ fun _ => ih _
    exact Within.catching (within_perform rfl) fun _ => within_pure _

/-- A start after all leases have run out empties `inflight`. -/
lemma meets_startUp {service : Options} {later : Time} (hlapsed : Lapsed now s) :
    Meets (inUse.guard Removes) (fun r _ t => r = .ok () → Clear t)
      (startUp service now later) () s := by
  refine meets_bind (meets_recoverExpired hlapsed) ?_ fun _ _ _ _ => nofun
  intro count l t h
  have hclear : Clear t := h count rfl
  have hclean : (do
      let _ ← cleanupHistory service.sha256 (later - historyRetention)
      let _ ← cleanupDead service.sha256 (later - deadRetention) maximumDeadItems
      pure () : QueueRoutine Unit Unit).Within fun c => outside c = true := by
    have hhistory : Directory.history ≠ .inflight := nofun
    have hdead : Directory.dead ≠ .inflight := nofun
    refine Within.bind ((within_listUnlocked hhistory).bind fun items =>
      within_discardItems hhistory 0 _) fun _ => ?_
    exact Within.bind ((within_listUnlocked hdead).bind fun items =>
      within_discardItems hdead 0 _) fun _ => within_pure _
  refine (meets_outside hclean).weaken fun _ _ u hu _ name => ?_
  rw [hu, hclear name]

end Start

/-! ## Runs -/

/-- An item is in `inflight` although its lease has passed. -/
def Overdue (now : Time) (s : Store) : Prop :=
  ∃ name envelope, inflightFile s name = some envelope ∧ envelope.leaseUntil ≤ now

/-- While the service runs there is nothing in `inflight` between two of its calls. -/
lemma clear_of_running {service : Options} {status : Status}
    (h : Served service (inUse.guard Removes) proceeding Lapsed (Sane service) s status)
    (hrunning : status = .running) : Clear s := by
  induction h with
  | found s => cases hrunning
  | others steps _ hothers ih =>
    intro name
    rw [inflightFile_afterOthers hothers, ih hrunning name]
  | started now later turns _ hlapsed hrun _ => exact (meets_startUp hlapsed).of_run hrun rfl
  | refused | cutStarting | cutProcessing | stopped => cases hrunning
  | processed call turns outcome _ hsane hrun ih =>
    exact (meets_processOne hsane (ih rfl)).of_run hrun

/-- No item whose lease has passed is in `inflight` when `ProcessOne` is called, in every run of the
service whose starts and calls meet their conditions. -/
theorem not_overdue_at_processOne (service : Options) (s : Store) (call : Surroundings)
    (h : Served service (inUse.guard Removes) proceeding Lapsed (Sane service) s .running) :
    ¬ Overdue call.now s := by
  rintro ⟨name, envelope, hfile, -⟩
  rw [clear_of_running h rfl name] at hfile
  cases hfile

/-! ## A service that is killed and started again -/

/-- A step that works. -/
def working (x : Choice) : Turn := { outcome := .ok x }

/-- The store an evaluation comes to. -/
def storeOf (o : Option Store) : Store := o.getD {}

lemma eq_storeOf {o : Option Store} (h : o.isSome = true) : o = some (storeOf o) := by
  obtain ⟨s, rfl⟩ := Option.isSome_iff_exists.mp h
  rfl

lemma started_of_run {o : Option ((Except OsError Unit × Unit) × Store)}
    (h : o.any (fun o => o.1.1.isOk) = true) :
    o = some ((.ok (), ()), storeOf (o.map Prod.snd)) := by
  match o, h with
  | some ((.ok (), ()), s), _ => rfl

/-- A service without a processor. -/
def sampleService : Options := { sha256 := id }

/-- A call that delivers every notification. -/
def sampleCall (now : Time) : Surroundings where
  now := now
  config := .ok { channels := ["lark"], defaultChannel := "lark" }
  settings := .error .notFound
  evaluate := fun _ => .error ⟨"no settings", false⟩
  quiet := fun _ => .ok .deliver
  sender := true
  input := fun _ => .ok ()
  deliver := fun _ _ => .ok ""
  send := fun _ => .ok ()

/-- Another process enqueues the sample notification. -/
def sampleEnqueue : List (Choice × Cmd) :=
  [(.id sampleID, .randomID), (.nothing, .createKey "turn-1.key"),
    (.nothing, .writeKey "turn-1.key" 0 sampleID), (.nothing, .stat (.pending, sampleName)),
    (.nothing, .write (.pending, sampleName) (newEnvelope sampleID sampleNotification 1))]

/-- The queue with the sample item. -/
def enqueuedStore : Store := storeOf (afterOthers sampleEnqueue {})

/-- The steps of a start that finds nothing to do. -/
def quietStart : List Turn := List.replicate 3 (working (.order []))

/-- The queue after the first start. -/
def startedStore : Store :=
  storeOf (((startUp sampleService second second ()).run inUse quietStart enqueuedStore).map
    Prod.snd)

/-- The steps of a claim of the sample item. -/
def sampleClaim : List Turn :=
  working (.order [sampleName]) :: List.replicate 4 (working .nothing)

/-- The queue when the service is killed after it claimed the sample item, with a lease of half a
minute. -/
def killedStore : Store :=
  storeOf ((processOne sampleService (sampleCall second) ()).after inUse sampleClaim startedStore)

/-- The steps of a start that finds a lease that has not run out. -/
def earlyStart : List Turn :=
  working (.order [sampleName]) :: List.replicate 4 (working .nothing) ++
    List.replicate 2 (working (.order []))

/-- The queue after a start ten seconds later. -/
def restartedStore : Store :=
  storeOf (((startUp sampleService (10 * second) (10 * second) ()).run inUse earlyStart
    killedStore).map Prod.snd)

/-- The service is killed after a claim and started again before the lease has run out.  When it
calls `ProcessOne` after the lease has run out, the item is still in `inflight`. -/
theorem overdue_after_early_restart :
    Served sampleService inUse inUse (fun _ _ => True) (fun _ => True) restartedStore .running ∧
      Overdue (sampleCall (40 * second)).now restartedStore := by
  have henqueued : Served sampleService inUse inUse (fun _ _ => True) (fun _ => True)
      enqueuedStore .stopped := .others sampleEnqueue (.found {}) (eq_storeOf (by decide +kernel))
  have hstarted : Served sampleService inUse inUse (fun _ _ => True) (fun _ => True)
      startedStore .running :=
    .started second second quietStart henqueued trivial (started_of_run (by decide +kernel))
  have hkilled : Served sampleService inUse inUse (fun _ _ => True) (fun _ => True)
      killedStore .stopped :=
    .cutProcessing (sampleCall second) sampleClaim hstarted (eq_storeOf (by decide +kernel))
  have hrestarted : Served sampleService inUse inUse (fun _ _ => True) (fun _ => True)
      restartedStore .running :=
    .started (10 * second) (10 * second) earlyStart hkilled trivial
      (started_of_run (by decide +kernel))
  have hlease : (inflightFile restartedStore sampleName).map Envelope.leaseUntil =
      some (31 * second) := by decide +kernel
  obtain ⟨envelope, hfile, hlease⟩ := Option.map_eq_some_iff.mp hlease
  refine ⟨hrestarted, sampleName, envelope, hfile, ?_⟩
  rw [hlease]
  decide

/-- A step works, and where an item may move to there is no file of its name. -/
def proceedsTest (turn : Turn) (c : Cmd) (s : Store) : Bool :=
  turn.outcome.isOk &&
    match c with
    | .stat path =>
      path.1 = .inflight || (afterOthers turn.others s).all fun t => decide (path ∉ t.files)
    | _ => true

lemma proceeds_of_test (h : proceedsTest turn c s = true) : Proceeds turn c s := by
  obtain ⟨hworks, hfree⟩ := Bool.and_eq_true_iff.mp h
  refine ⟨fun text houtcome => ?_, ?_⟩
  · rw [houtcome] at hworks
    cases hworks
  · rintro path t rfl hne hothers
    rcases Bool.or_eq_true_iff.mp hfree with hinflight | hall
    · exact absurd (of_decide_eq_true hinflight) hne
    · rw [hothers] at hall
      exact of_decide_eq_true hall

lemma removes_of_test (h : proceedsTest turn c s = true) :
    Removes turn c s := fun _ text _ => (proceeds_of_test h).works text

lemma sane_sampleCall : Sane sampleService (sampleCall second) where
  clock := by decide
  present := by decide
  later := by decide
  poll := by decide
  targets := nofun
  deferral := nofun

/-- The queue after a start all of whose steps pass the test. -/
def testedStore : Store :=
  storeOf (((startUp sampleService second second ()).run (inUse.checked proceedsTest) quietStart
    enqueuedStore).map Prod.snd)

/-- The steps of a call that delivers the sample item. -/
def sampleDelivery : List Turn := sampleClaim ++ List.replicate 3 (working .nothing)

/-- The queue after the sample item was delivered. -/
def deliveredStore : Store :=
  storeOf (((processOne sampleService (sampleCall second) ()).run
    (inUse.checked proceedsTest) sampleDelivery testedStore).map Prod.snd)

/-- A start after all leases have run out, and the delivery of an item. -/
theorem not_overdue_after_delivery :
    Served sampleService (inUse.guard Removes) proceeding Lapsed (Sane sampleService)
      deliveredStore .running ∧ ¬ Overdue (sampleCall (40 * second)).now deliveredStore := by
  have henqueued : Served sampleService (inUse.guard Removes) proceeding Lapsed
      (Sane sampleService) enqueuedStore .stopped :=
    .others sampleEnqueue (.found {}) (eq_storeOf (by decide +kernel))
  have hlapsed : Lapsed second enqueuedStore := by
    intro name envelope hfile
    have hnone : inflightFile enqueuedStore name = none := by
      rw [enqueuedStore, inflightFile_afterOthers (eq_storeOf (by decide +kernel))]
      rfl
    rw [hnone] at hfile
    cases hfile
  have hstart : (startUp sampleService second second ()).run (inUse.checked proceedsTest)
      quietStart enqueuedStore = some ((.ok (), ()), testedStore) :=
    started_of_run (by decide +kernel)
  have hstarted : Served sampleService (inUse.guard Removes) proceeding Lapsed
      (Sane sampleService) testedStore .running :=
    .started second second quietStart henqueued hlapsed
      (Prog.run_guard (fun _ _ _ => removes_of_test) hstart)
  obtain ⟨⟨outcome, t⟩, hrun, -⟩ := Prog.exists_run (M := inUse.checked proceedsTest)
    (p := processOne sampleService (sampleCall second) ()) (s := testedStore) sampleDelivery
    (fun _ => true) (by decide +kernel)
  have hdelivered : deliveredStore = t := by
    rw [deliveredStore, hrun]
    rfl
  have hserved : Served sampleService (inUse.guard Removes) proceeding Lapsed
      (Sane sampleService) deliveredStore .running := by
    rw [hdelivered]
    exact .processed (sampleCall second) sampleDelivery outcome hstarted sane_sampleCall
      (Prog.run_guard (fun _ _ _ => proceeds_of_test) hrun)
  exact ⟨hserved, not_overdue_at_processOne sampleService deliveredStore (sampleCall (40 * second))
    hserved⟩

end AgentBell.Service
