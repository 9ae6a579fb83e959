import AgentBell.Upgrade.Installation

/-!
# Up to the activation

Until an upgrade writes the new active state, `active.json` stays as it is and no journal says that
a transaction is committed.  What the activation starts from is said once, for all properties of
upgrades.

A routine before the activation is `Calm`: however it ends, the active state is the one it found
and what was planned is still planned.  The transaction is then followed up to its last calm step,
and what is left to show of a property is what the commit of a `Ready` transaction does to it.
-/

namespace AgentBell.Upgrade

open Interleaving

open Routine (raise raiseIf lift locals assign)

/-- The journal of a transaction says that it is committed. -/
def Committed (w : World) (id : String) : Prop :=
  ∃ record : Transaction, w.files (.journal id) = some (.journal record) ∧
    record.status = .committed

/-- Whether a transaction is committed depends on its journal only. -/
lemma committed_congr {t t' : World} {id : String}
    (h : t'.files (.journal id) = t.files (.journal id)) : Committed t' id ↔ Committed t id := by
  unfold Committed
  rw [h]

/-- What stays as it is from the begin of a transaction to its activation. -/
def Progress.plan (progress : Progress) :=
  (progress.active, progress.repairingSameVersion, progress.activeWritten, progress.identity)

/-! ## Steps before the activation -/

/-- What a routine before the activation keeps. -/
structure Calmly (l : Progress) (t : World) (l' : Progress) (t' : World) : Prop where
  active : t'.files .active = t.files .active
  activations : t'.activations = t.activations
  plan : l'.plan = l.plan
  committed : ∀ id, Committed t' id → Committed t id

/-- A routine before the activation. -/
def Calm {α : Type} (p : Steps Progress α) : Prop :=
  ∀ g l t, Meets (dataRoot.guard g) (fun _ l' t' => Calmly l t l' t') p l t

section Calm

variable {α β : Type} {p : Steps Progress α} {l l' l'' : Progress} {t t' t'' : World}

lemma Calmly.refl (l : Progress) (t : World) : Calmly l t l t := ⟨rfl, rfl, rfl, fun _ => id⟩

/-- What two routines keep, one after the other. -/
lemma Calmly.trans (h : Calmly l t l' t') (h' : Calmly l' t' l'' t'') : Calmly l t l'' t'' where
  active := h'.active.trans h.active
  activations := h'.activations.trans h.activations
  plan := h'.plan.trans h.plan
  committed id hid := h.committed id (h'.committed id hid)

lemma calm_pure (a : α) : Calm (pure a) := fun _ l t => meets_pure (.refl l t)

lemma calm_raise (e : Failure) : Calm (raise e : Steps Progress α) :=
  fun _ l t => meets_raise (.refl l t)

/-- Two routines before the activation, one after the other. -/
lemma Calm.bind {f : α → Steps Progress β} (hp : Calm p) (hf : ∀ a, Calm (f a)) :
    Calm (p >>= f) := by
  intro g l t
  refine meets_bind (hp g l t) ?_ fun e l' t' h => h
  intro a l' t' h
  exact (hf a g l' t').weaken fun _ _ _ h' => h.trans h'

/-- A failure before the activation is handled before it. -/
lemma Calm.catching {handler : Failure → Steps Progress α} (hp : Calm p)
    (hhandler : ∀ e, Calm (handler e)) : Calm (p.catching handler) := by
  intro g l t
  refine meets_catching (hp g l t) (fun a l' t' h => h) ?_
  intro e l' t' h
  exact (hhandler e g l' t').weaken fun _ _ _ h' => h.trans h'

lemma Calm.onlyIf {action : Steps Progress Unit} {condition : Bool} (h : Calm action) :
    Calm (onlyIf condition action) := by
  unfold Upgrade.onlyIf
  split
  · exact h
  · exact calm_pure ()

lemma calm_onlyFor {action : α → Steps Progress Unit} {value : Option α}
    (h : ∀ a, Calm (action a)) : Calm (onlyFor action value) := by
  cases value with
  | none => exact calm_pure ()
  | some a => exact h a

/-- What is noted leaves the plan alone. -/
lemma calm_assign {f : Progress → Progress} (h : ∀ l, (f l).plan = l.plan) : Calm (assign f) :=
  fun _ l _ => meets_assign ⟨rfl, rfl, h l, fun _ => id⟩

lemma calm_locals {f : Progress → Steps Progress β} (hf : ∀ l, Calm (f l)) :
    Calm (locals >>= f) := fun g l t => meets_locals_bind (hf l g l t)

/-- The files that are neither the active state nor a journal. -/
def aside : Set Path := {path | path ≠ .active ∧ ∀ id, path ≠ .journal id}

/-- A routine that writes neither to the active state nor to a journal. -/
lemma Apart.calm (hp : Apart aside Progress.plan p) : Calm p := by
  intro g l t
  refine (hp.touches.meets.both hp.steady.meets).weaken ?_
  rintro r l' t' ⟨⟨hfiles, hactivations⟩, hplan⟩
  refine ⟨hfiles _ (by simp [aside]), hactivations (by simp [aside]), hplan, fun id hid => ?_⟩
  obtain ⟨record, hfile, hstatus⟩ := hid
  rw [hfiles _ (by simp [aside])] at hfile
  exact ⟨record, hfile, hstatus⟩

lemma calm_quiet {c : Cmd} (h : c.touched = []) : Calm (perform c) := (apart_quiet h).calm

lemma Apart.plan {scope : Set Path} (hp : Apart scope Progress.fixed p) :
    Apart scope Progress.plan p :=
  hp.map fun fixed => (fixed.1.1, fixed.1.2.2.2.2.2.2, fixed.1.2.2.2.2.1, fixed.2)

end Calm

/-- The write of a record that does not say so commits no transaction. -/
lemma Write.Ending.committed {g : Guard} {record : Transaction}
    {w t : World} {r : Except Failure Unit} (h : (Write.journal record).Ending g w r t)
    (hstatus : record.status ≠ .committed) {id : String} (hid : Committed t id) :
    Committed w id := by
  obtain ⟨record', hfile, hcommitted⟩ := hid
  rcases eq_or_ne id record.id with rfl | hne
  · rcases h.file with hkept | hnone | hnew
    · exact ⟨record', hkept.symm.trans hfile, hcommitted⟩
    · have hnone' : t.files (.journal record.id) = none := hnone
      rw [hnone'] at hfile
      cases hfile
    · have hnew' : t.files (.journal record.id) = some (.journal record) := hnew
      rw [hnew'] at hfile
      cases hfile
      exact absurd hcommitted hstatus
  · rw [h.frame _ (by simp [path, hne]) (by simp) (by simp)] at hfile
    exact ⟨record', hfile, hcommitted⟩

section Routines

/-- What a write to the journal does. -/
lemma meets_writeJournal {g : Guard} {l : Progress} {t : World}
    {tx : Transaction} (hl : l.transaction = some tx) (status : Status) (error : String) :
    Ends g (fun r l' t' => l' = l.marked status error ∧
      (Write.journal { tx with status := status, error := cut error }).Ending g t r t')
      (writeJournal status error) l t := by
  refine meets_assign_bind (meets_locals_bind ?_)
  have htransaction : (l.marked status error).transaction =
      some { tx with status := status, error := cut error } := by
    simp [Progress.marked, hl]
  rw [htransaction]
  exact meets_atomicWrite _ t

/-- Without a transaction nothing is written. -/
lemma meets_writeJournal_none {g : Guard} {l : Progress} {t : World}
    (hl : l.transaction = none) (status : Status) (error : String) :
    Ends g (fun r l' t' => r = .ok () ∧ l' = l ∧ t' = t)
      (writeJournal status error) l t := by
  refine meets_assign_bind (meets_locals_bind ?_)
  have hmarked : l.marked status error = l := by
    unfold Progress.marked
    rw [hl]
    exact congrArg (fun tx => { l with transaction := tx }) hl.symm
  rw [hmarked, hl]
  exact meets_pure ⟨rfl, rfl, rfl⟩

/-- The journal is written with a status other than committed. -/
lemma calm_writeJournal {status : Status} (hstatus : status ≠ .committed) (error : String) :
    Calm (writeJournal status error) := by
  intro g l t
  have hplan := (apart_writeJournal ordinary_inessential status error).plan.steady.meets
    (M := dataRoot.guard g) (l := l) (s := t)
  cases hl : l.transaction with
  | none =>
    refine (meets_writeJournal_none hl status error).weaken ?_
    rintro r l' t' ⟨-, rfl, rfl⟩
    exact .refl _ _
  | some tx =>
    refine (hplan.both (meets_writeJournal hl status error)).weaken ?_
    rintro r l' t' ⟨hplan, -, hending⟩
    exact ⟨hending.frame _ (by simp [Write.path]) (by simp) (by simp), hending.activations, hplan,
      fun id hid => hending.committed hstatus hid⟩

/-- A failed preflight ends up in the journal. -/
lemma calm_runPreflight (version : String) : Calm (runPreflight version) :=
  Calm.catching (calm_quiet rfl) fun _ => (calm_writeJournal (by decide) _).bind fun _ =>
    calm_raise _

lemma calm_lift {α : Type} (x : Except Failure α) : Calm (lift x) := by
  cases x with
  | ok a => exact calm_pure a
  | error e => exact calm_raise e

lemma calm_raiseIf (bad : Prop) [Decidable bad] (e : Failure) : Calm (raiseIf bad e) := by
  unfold raiseIf
  split
  · exact calm_raise e
  · exact calm_pure ()

lemma calm_readBridges (P : Platform) : Calm (readBridges P) :=
  (apart_readBridges P).plan.calm

lemma calm_atomicWrite {write : Write} (h : write.path ∈ aside) : Calm (atomicWrite write) :=
  (apart_atomicWrite h (by simp [aside]) (by simp [aside])).calm

/-- The service of the version that is there is stopped. -/
lemma calm_quiesceService (P : Platform) (previousCore : String) :
    Calm (quiesceService P previousCore) :=
  (calm_assign (by exact fun _ => rfl)).bind fun _ => (calm_writeJournal (by decide) _).bind
    fun _ => (calm_quiet rfl).bind fun _ => (calm_quiet rfl).bind fun _ => (calm_quiet rfl).onlyIf

/-- The launchers are replaced before the active state is. -/
lemma calm_replaceBridges (P : Platform) (bundle : Bundle) : Calm (replaceBridges P bundle) := by
  refine (calm_atomicWrite ?_).bind fun _ => (calm_assign (by exact fun _ => rfl)).bind fun _ =>
    Calm.onlyIf ((calm_atomicWrite ?_).bind fun _ => calm_assign (by exact fun _ => rfl))
  · simp [aside, Write.path]
  · simp [aside, Write.path]

/-! ### The installation -/

variable {ℓ γ : Type}

variable {aspect : ℓ → γ} (P : Platform) (version : String) (bundle : Bundle) (id : String)

/-- A version that is there is compared with the release. -/
lemma apart_checkExisting :
    Apart aside aspect (checkExisting P version bundle id : Steps ℓ Unit) := by
  refine (apart_quiet rfl).bind fun _ => (apart_raiseIf _ _).bind fun _ => ?_
  refine ((reading_installedMetadata P version).apart.bind fun _ =>
    apart_raiseIf _ _).catching fun e => ?_
  cases e with
  | missing =>
    exact apart_atomicWrite (by simp [aside, Write.path]) (by simp [aside]) (by simp [aside])
  | _ => exact apart_raise _

/-- A version is staged and renamed into place. -/
lemma apart_installVersion :
    Apart aside aspect (installVersion P version bundle id : Steps ℓ Bool) := by
  refine (apart_quiet rfl).bind fun _ => Apart.bind ?_ fun present => ?_
  · refine ((apart_checkExisting P version bundle id).bind fun _ =>
      apart_pure _).catching fun e => ?_
    cases e with
    | missing => exact apart_pure _
    | _ => exact apart_raise _
  · split
    · exact apart_pure _
    · have hstage : Apart (installationScope version id) aspect _ := apart_stageVersion _ P bundle
      refine Apart.bind ⟨hstage.touches.mono ?_, hstage.steady⟩ fun _ => apart_pure _
      rintro path (rfl | rfl | rfl | rfl | rfl | rfl) <;> simp [aside]

lemma calm_installVersion : Calm (installVersion P version bundle id) :=
  (apart_installVersion P version bundle id).calm

/-- A release is downloaded, checked and installed. -/
lemma calm_stageRelease (toVersion : String) : Calm (stageRelease P toVersion) := by
  refine (calm_quiet rfl).bind fun bundle => ?_
  refine (calm_lift _).bind fun _ => calm_locals fun progress => ?_
  refine (calm_raiseIf _ _).bind fun _ => (calm_writeJournal (by decide) _).bind fun _ => ?_
  refine (calm_installVersion P toVersion bundle _).bind fun installed => ?_
  exact (calm_assign (by exact fun _ => rfl)).bind fun _ => (calm_quiet rfl).bind fun _ =>
    calm_pure _

end Routines

/-! ## What the activation starts from -/

/-- Nothing has been activated. -/
structure Quiet (w₀ : World) (l : Progress) (t : World) : Prop where
  unwritten : l.activeWritten = false
  active : t.files .active = w₀.files .active
  activations : t.activations = w₀.activations
  uncommitted : ∀ tx, l.transaction = some tx → ¬ Committed t tx.id

/-- A transaction has begun. -/
structure Underway (w₀ : World) (version : String) (l : Progress) (t : World) : Prop
    extends Begun w₀ version l where
  located : w₀.files .active = l.active.map .active
  active : t.files .active = w₀.files .active
  activations : t.activations = w₀.activations
  transaction : ∃ id operation, l.identity = some (id, operation, version) ∧
    operation ≠ .rollback ∧ ¬ Committed t id

/-- The next step is the write of a new active state. -/
structure Ready (w₀ : World) (version : String) (legacy : Option String) (state : ActiveState)
    (l : Progress) (t : World) : Prop where
  unwritten : l.activeWritten = false
  located : w₀.files .active = l.active.map .active
  active : t.files .active = w₀.files .active
  activations : t.activations = w₀.activations
  generation : state.generation = nextGeneration l.active legacy
  attempted : l.attemptedGeneration = state.generation
  names : state.activeVersion = version
  transaction : ∃ tx, l.transaction = some tx ∧ tx.id = state.transactionID ∧
    tx.toVersion = version ∧ tx.operation ≠ .rollback ∧ tx.status = .activating ∧
    ¬ Committed t tx.id

section Skeleton

variable {P : Platform} {g : Guard} {w₀ t t' : World} {version : String}
  {l l' : Progress}

lemma plan_eq (h : l'.plan = l.plan) :
    l'.active = l.active ∧ l'.repairingSameVersion = l.repairingSameVersion ∧
      l'.activeWritten = l.activeWritten ∧ l'.identity = l.identity := by
  simpa [Progress.plan] using h

/-- A transaction stays underway until the activation. -/
lemma Underway.congr (h : Underway w₀ version l t) (hcalm : Calmly l t l' t') :
    Underway w₀ version l' t' := by
  obtain ⟨hactive, hrepairing, hwritten, hidentity⟩ := plan_eq hcalm.plan
  obtain ⟨id, operation, htransaction, hoperation, huncommitted⟩ := h.transaction
  refine ⟨⟨?_, ?_, hwritten.trans h.unwritten⟩, ?_, hcalm.active.trans h.active,
    hcalm.activations.trans h.activations, id, operation, hidentity.trans htransaction, hoperation,
    fun hid => huncommitted (hcalm.committed id hid)⟩
  · rw [hactive]
    exact h.known
  · rw [hactive, hrepairing]
    exact h.repairing
  · rw [hactive]
    exact h.located

lemma identity_eq_some {id : String} {operation : Operation}
    (h : l.identity = some (id, operation, version)) :
    ∃ tx, l.transaction = some tx ∧ tx.id = id ∧ tx.operation = operation ∧
      tx.toVersion = version := by
  obtain ⟨tx, htx, heq⟩ := Option.map_eq_some_iff.mp h
  cases heq
  exact ⟨tx, htx, rfl, rfl, rfl⟩

lemma id_of_identity {id : String} {operation : Operation}
    (h : l.identity = some (id, operation, version)) : l.id = id := by
  obtain ⟨tx, htx, rfl, -⟩ := identity_eq_some h
  simp [Progress.id, htx]

lemma id_congr (h : l'.identity = l.identity) : l'.id = l.id := by
  have hid : ∀ l : Progress, l.id = (l.identity.map (·.1)).getD "" := by
    intro l
    cases htx : l.transaction <;> simp [Progress.id, Progress.identity, htx]
  rw [hid, hid, h]

/-- A transaction that is underway has activated nothing. -/
lemma Underway.quiet (h : Underway w₀ version l t) : Quiet w₀ l t := by
  refine ⟨h.unwritten, h.active, h.activations, fun tx htx => ?_⟩
  obtain ⟨id, operation, hidentity, -, huncommitted⟩ := h.transaction
  obtain ⟨tx', htx', rfl, -⟩ := identity_eq_some hidentity
  cases htx.symm.trans htx'
  exact huncommitted

/-- What the new active state is. -/
lemma nextActive_spec (h : Begun w₀ version l) (legacy : Option String) (bundle : Bundle) :
    (nextActive P version legacy bundle l).activeVersion = version ∧
      (nextActive P version legacy bundle l).transactionID = l.id ∧
      (nextActive P version legacy bundle l).generation = nextGeneration l.active legacy := by
  unfold nextActive
  split
  case h_1 active hactive hrepairing =>
    obtain ⟨a, ha, hversion⟩ := h.repairing hrepairing
    rw [hactive] at ha
    cases ha
    exact ⟨hversion, rfl, rfl⟩
  case h_2 => exact ⟨rfl, rfl, rfl⟩

/-- A transaction starts with a new id, of which there is no journal. -/
lemma meets_newTransaction {operation : Operation} {fromVersion toVersion : String} :
    Ends g (fun r l' t' => ∃ id, r = .ok () ∧
      l' = { l with
        transaction := some
          { id := id
            operation := operation
            status := .preparing
            fromVersion := fromVersion
            toVersion := toVersion
            target := P.target.id } } ∧
      t'.files = t.files ∧ t'.activations = t.activations ∧ t.files (.journal id) = none)
      (newTransaction P operation fromVersion toVersion) l t := by
  have hdraw : Ends g (fun r l' t' => l' = l ∧ t'.files = t.files ∧
      t'.activations = t.activations ∧ ∃ id, r = .ok id ∧ t.files (.journal id) = none)
      (perform .newID) l t := by
    refine meets_step (c := .newID) fun x r t1 _ hexec => ⟨rfl, ?_⟩
    have hdraw : drawID x t = some (r, t1) := hexec
    unfold drawID at hdraw
    split at hdraw
    · split at hdraw
      · cases hdraw
      · rename_i id _ hfresh
        cases hdraw
        refine ⟨rfl, rfl, id, rfl, ?_⟩
        have hnone : ¬ (t.files (.journal id)).isSome := fun h => hfresh (.inr h)
        simpa using hnone
    · cases hdraw
  refine meets_bind hdraw ?_ ?_
  · rintro drawn l1 t1 ⟨rfl, hfiles1, hactivations1, id, hid, hnone⟩
    cases hid
    exact meets_assign ⟨drawn, rfl, rfl, hfiles1, hactivations1, hnone⟩
  · rintro e l1 t1 ⟨-, -, -, id, hid, -⟩
    cases hid

lemma uncommitted_of_files {id : String} (hfiles : t'.files = t.files)
    (hnone : t.files (.journal id) = none) : ¬ Committed t' id := by
  rintro ⟨record, hfile, -⟩
  rw [hfiles, hnone] at hfile
  cases hfile

/-- An upgrade begins with a new transaction and its journal. -/
lemma meets_beginUpgrade (hbegun : Begun w₀ version l)
    (hlocated : w₀.files .active = l.active.map .active) (hfiles : t.files = w₀.files)
    (hactivations : t.activations = w₀.activations) :
    Ends g (fun _ l' t' => Underway w₀ version l' t')
      (beginUpgrade P version) l t := by
  refine meets_locals_bind (meets_bind meets_newTransaction ?_ ?_)
  · rintro _ l1 t1 ⟨id, -, hl1, hfiles1, hactivations1, hnone⟩
    have hoperation : (if l.repairingSameVersion then Operation.repair else Operation.upgrade) ≠
        .rollback := by
      split <;> decide
    have hunderway : Underway w₀ version l1 t1 := by
      subst hl1
      exact ⟨⟨hbegun.known, hbegun.repairing, hbegun.unwritten⟩, hlocated, by rw [hfiles1, hfiles],
        hactivations1.trans hactivations, id, _, rfl, hoperation,
        uncommitted_of_files hfiles1 hnone⟩
    have hcalm : Calm (do
        onlyIf (l.previousVersion ≠ "") (runPreflight l.previousVersion)
        writeJournal .preflightPassed
        writeJournal .downloading) :=
      (calm_runPreflight _).onlyIf.bind fun _ => (calm_writeJournal (by decide) _).bind fun _ =>
        calm_writeJournal (by decide) _
    exact (hcalm g l1 t1).weaken fun _ _ _ h2 => hunderway.congr h2
  · rintro e l1 t1 ⟨id, h, -⟩
    cases h

/-- The activation from where the version is installed. -/
lemma meets_activate_of {post : Except Failure CallResult → Progress → World → Prop}
    {legacy : Option String} {bundle : Bundle} (h : Underway w₀ version l t)
    (hquiet : ∀ e l t, Quiet w₀ l t → post (.error e) l t)
    (hcommit : ∀ state l t, Ready w₀ version legacy state l t →
      Ends g (fun r l' t' =>
        match r with
        | .ok _ => ∀ result, post (.ok result) l' t'
        | .error e => post (.error e) l' t') (commitActive state version) l t) :
    Ends g post (activate P version legacy bundle) l t := by
  have hstop : ∀ e l1 t1, Calmly l t l1 t1 → post (.error e) l1 t1 :=
    fun e l1 t1 h1 => hquiet e l1 t1 (h.congr h1).quiet
  refine meets_bind (calm_readBridges P g l t) ?_ hstop
  intro _ l1 t1 hcalm1
  refine meets_locals_bind (meets_bind (calm_onlyFor (fun previousCore =>
    (calm_quiesceService P previousCore).onlyIf) g l1 t1) ?_
    fun e l2 t2 h2 => hstop e l2 t2 (hcalm1.trans h2))
  intro _ l2 t2 hcalm2
  have hunderway := h.congr (hcalm1.trans hcalm2)
  obtain ⟨id, operation, hidentity, hoperation, -⟩ := hunderway.transaction
  obtain ⟨tx, htx, rfl, rfl, hversion⟩ := identity_eq_some hidentity
  refine meets_bind ((calm_writeJournal (by decide) _ g l2 t2).both
    (meets_writeJournal htx .activating "")) ?_
    fun e l3 t3 h3 => hstop e l3 t3 ((hcalm1.trans hcalm2).trans h3.1)
  rintro _ l3 t3 ⟨hcalm3, hmarked, -⟩
  have htx3 : l3.transaction = some { tx with status := .activating, error := cut "" } := by
    rw [hmarked]
    simp [Progress.marked, htx]
  refine meets_bind ((calm_replaceBridges P bundle g l3 t3).both
    ((apart_replaceBridges P ordinary_inessential bundle).map Prod.snd).steady.meets) ?_
    fun e l4 t4 h4 => hstop e l4 t4 (((hcalm1.trans hcalm2).trans hcalm3).trans h4.1)
  rintro _ l4 t4 ⟨hcalm4, htransaction⟩
  have hunderway1 := h.congr hcalm1
  have hcalm' : Calmly l1 t1 l4 t4 := (hcalm2.trans hcalm3).trans hcalm4
  have hunderway4 := hunderway1.congr hcalm'
  obtain ⟨hactive, -, -, -⟩ := plan_eq hcalm'.plan
  obtain ⟨-, -, -, hidentity2⟩ := plan_eq hcalm2.plan
  obtain ⟨hnames, hid, hgeneration⟩ := nextActive_spec hunderway1.toBegun legacy bundle
  have htx4 := htransaction.trans htx3
  have hready : Ready w₀ version legacy (nextActive P version legacy bundle l1)
      { l4 with attemptedGeneration := nextGeneration l1.active legacy } t4 := by
    refine ⟨hunderway4.unwritten, hunderway4.located, hunderway4.active, hunderway4.activations,
      ?_, hgeneration.symm, hnames, _, htx4, ?_, hversion, hoperation, rfl,
      hunderway4.quiet.uncommitted _ htx4⟩
    · rw [hgeneration]
      exact congrArg (fun active => nextGeneration active legacy) hactive.symm
    · rw [hid, id_of_identity (hidentity2.symm.trans hidentity)]
  refine meets_assign_bind (meets_bind (hcommit _ _ t4 hready) ?_ fun e l5 t5 h5 => h5)
  intro _ l5 t5 hpost
  exact meets_pure (hpost _)

/-- Without a transaction nothing has been activated. -/
lemma quiet_of_identity (hidentity : l.identity = none) (hwritten : l.activeWritten = false)
    (hfiles : t.files = w₀.files) (hactivations : t.activations = w₀.activations) :
    l.transaction = none ∧ Quiet w₀ l t := by
  have htransaction : l.transaction = none := Option.map_eq_none_iff.mp hidentity
  refine ⟨htransaction, hwritten, by rw [hfiles], hactivations, fun tx htx => ?_⟩
  rw [htransaction] at htx
  cases htx

/-- The transaction of an upgrade: what has to be shown of its activation. -/
theorem meets_upgradeTransaction_of {post : Except Failure CallResult → Progress → World → Prop}
    {request : UpgradeRequest} (hquiet : ∀ e l t, Quiet w₀ l t → post (.error e) l t)
    (hreused : ∀ result l t, Quiet w₀ l t → l.transaction = none → post (.ok result) l t)
    (hcommit : ∀ legacy state l t, Ready w₀ request.toVersion legacy state l t →
      Ends g (fun r l' t' =>
        match r with
        | .ok _ => ∀ result, post (.ok result) l' t'
        | .error e => post (.error e) l' t') (commitActive state request.toVersion) l t) :
    Ends g post (upgradeTransaction P request) {} w₀ := by
  refine meets_bind ((meets_selectPrevious request).both
    (apart_selectPrevious P request).steady.meets) ?_ ?_
  swap
  · rintro e l1 t1 ⟨⟨hfiles, hactivations, hbegun, -⟩, hidentity⟩
    exact hquiet e l1 t1 (quiet_of_identity hidentity hbegun.unwritten hfiles hactivations).2
  rintro legacy l1 t1 ⟨⟨hfiles1, hactivations1, hbegun1, -, hlocated⟩, hidentity1⟩
  refine meets_bind ((meets_reuseOrRepair hbegun1).both
    (apart_reuseOrRepair P request.toVersion).steady.meets) ?_ ?_
  swap
  · rintro e l2 t2 ⟨⟨hfiles, hactivations, hbegun, -⟩, hidentity⟩
    exact hquiet e l2 t2 (quiet_of_identity (hidentity.trans hidentity1) hbegun.unwritten
      (hfiles.trans hfiles1) (hactivations.trans hactivations1)).2
  rintro reused l2 t2 ⟨⟨hfiles2, hactivations2, hbegun2, hactive2, -⟩, hidentity2⟩
  have hfiles := hfiles2.trans hfiles1
  have hactivations := hactivations2.trans hactivations1
  obtain ⟨htransaction, hquiet2⟩ := quiet_of_identity (hidentity2.trans hidentity1)
    hbegun2.unwritten hfiles hactivations
  cases reused with
  | some result => exact meets_pure (hreused result l2 t2 hquiet2 htransaction)
  | none =>
    have hlocated2 : w₀.files .active = l2.active.map .active := by
      rw [hactive2]
      exact hlocated legacy rfl
    refine meets_bind (meets_beginUpgrade hbegun2 hlocated2 hfiles hactivations) ?_
      fun e l3 t3 h3 => hquiet e l3 t3 h3.quiet
    intro _ l3 t3 hunderway
    refine meets_bind (calm_stageRelease P request.toVersion g l3 t3) ?_
      fun e l4 t4 h4 => hquiet e l4 t4 (hunderway.congr h4).quiet
    intro bundle l4 t4 hcalm
    exact meets_activate_of (hunderway.congr hcalm) hquiet (hcommit legacy)

end Skeleton

end AgentBell.Upgrade
