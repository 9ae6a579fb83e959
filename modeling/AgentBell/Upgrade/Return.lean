import AgentBell.Upgrade.Preparation

/-!
# Rollbacks up to the activation

A rollback chooses an installed version, begins a transaction and runs the version once.  Until it
writes the new active state, `active.json` stays as it is and its journal does not say committed.
-/

namespace AgentBell.Upgrade

open Interleaving

open Routine (catching lastly)

/-- The transaction of a rollback has begun. -/
structure Returning (w₀ : World) (selection : Selection) (l : Progress) (t : World) : Prop where
  unwritten : l.activeWritten = false
  active : t.files .active = w₀.files .active
  activations : t.activations = w₀.activations
  transaction : ∃ id, l.identity = some (id, .rollback, selection.selected) ∧ ¬ Committed t id

/-- The next step of a rollback is the write of a new active state. -/
structure ReadyBack (w₀ : World) (selection : Selection) (id : String) (l : Progress) (t : World) :
    Prop where
  active : t.files .active = w₀.files .active
  activations : t.activations = w₀.activations
  transaction : ∃ tx, l.transaction = some tx ∧ tx.id = id ∧
    tx.toVersion = selection.selected ∧ tx.operation = .rollback ∧ tx.status = .activating ∧
    ¬ Committed t tx.id

/-- What a rollback does once it is ready. -/
def switchBack (P : Platform) (selection : Selection) (id : String) :
    Steps Progress CallResult := do
  atomicWrite (.activation (rolledBackState P selection id))
  catching (perform (.restart selection.current.activeVersion false))
    (compensateRollback selection.current (selection.current.generation + 1))
  writeJournal .committed
  return {
    activeVersion := selection.selected
    previousVersion := selection.current.activeVersion
    generation := selection.current.generation + 1
    transactionID := id }

section Rollback

variable {P : Platform} {g : Guard} {w₀ t t' : World}
  {selection : Selection} {l l' : Progress}

lemma Returning.congr (h : Returning w₀ selection l t) (hcalm : Calmly l t l' t') :
    Returning w₀ selection l' t' := by
  obtain ⟨-, -, hwritten, hidentity⟩ := plan_eq hcalm.plan
  obtain ⟨id, htransaction, huncommitted⟩ := h.transaction
  exact ⟨hwritten.trans h.unwritten, hcalm.active.trans h.active,
    hcalm.activations.trans h.activations, id, hidentity.trans htransaction,
    fun hid => huncommitted (hcalm.committed id hid)⟩

lemma Returning.quiet (h : Returning w₀ selection l t) : Quiet w₀ l t := by
  refine ⟨h.unwritten, h.active, h.activations, fun tx htx => ?_⟩
  obtain ⟨id, hidentity, huncommitted⟩ := h.transaction
  obtain ⟨tx', htx', rfl, -⟩ := identity_eq_some hidentity
  cases htx.symm.trans htx'
  exact huncommitted

/-- The version a rollback goes from is the active one. -/
lemma meets_resolveRollbackSelection {ℓ : Type} {m : ℓ} (toVersion : Option String) :
    Ends g (fun r _ _ => ∀ selection, r = .ok selection →
      t.files .active = some (.active selection.current))
      (resolveRollbackSelection P toVersion) m t := by
  refine meets_bind meets_loadActive ?_ fun e m' t' _ _ h => by cases h
  rintro current m' t' ⟨rfl, rfl, hfile⟩
  have hcurrent : t'.files .active = some (.active current) := hfile
  cases (toVersion.filter (· ≠ "")).or current.previousVersion with
  | none => exact meets_raise fun _ h => by cases h
  | some selected =>
    refine meets_raiseIf_bind (fun _ _ h => by cases h) fun _ => ?_
    refine meets_raiseIf_bind (fun _ _ h => by cases h) fun _ => ?_
    have hselect : Ends g (fun r _ _ => ∀ selection : Selection,
        r = .ok selection → t'.files .active = some (.active selection.current)) (do
          let _ ← installedMetadata P current.activeVersion
          let installed ← installedMetadata P selected
          return ⟨current, selected, installed⟩) m' t' := by
      refine meets_bind (meets_reading (reading_installedMetadata P _)) ?_
        fun e m1 t1 _ _ h => by cases h
      intro _ m1 t1 _
      refine meets_bind (meets_reading (reading_installedMetadata P _)) ?_
        fun e m2 t2 _ _ h => by cases h
      intro installed m2 t2 _
      refine meets_pure fun selection h => ?_
      cases h
      exact hcurrent
    refine meets_catching hselect (fun a m1 t1 h => h) ?_
    intro e m1 t1 _
    cases e with
    | missing => exact meets_raise fun _ h => by cases h
    | _ => exact meets_raise fun _ h => by cases h

/-- The transaction of a rollback: what has to be shown of its activation. -/
theorem meets_rollbackTransaction_of {post : Except Failure CallResult → Progress → World → Prop}
    (h : Returning w₀ selection l t) (hquiet : ∀ e l t, Quiet w₀ l t → post (.error e) l t)
    (hswitch : ∀ id l t, ReadyBack w₀ selection id l t →
      Ends g post (switchBack P selection id) l t) :
    Ends g post (rollbackTransaction P selection) l t := by
  have hstop : ∀ e l1 t1, Calmly l t l1 t1 → post (.error e) l1 t1 :=
    fun e l1 t1 h1 => hquiet e l1 t1 (h.congr h1).quiet
  refine meets_bind (calm_runPreflight _ g l t) ?_ hstop
  intro _ l1 t1 hcalm1
  refine meets_bind (calm_writeJournal (by decide) _ g l1 t1) ?_
    fun e l2 t2 h2 => hstop e l2 t2 (hcalm1.trans h2)
  intro _ l2 t2 hcalm2
  refine meets_bind (calm_writeJournal (by decide) _ g l2 t2) ?_
    fun e l3 t3 h3 => hstop e l3 t3 ((hcalm1.trans hcalm2).trans h3)
  intro _ l3 t3 hcalm3
  refine meets_bind (calm_quiet (c := .smoke selection.selected) rfl g l3 t3) ?_
    fun e l4 t4 h4 => hstop e l4 t4 (((hcalm1.trans hcalm2).trans hcalm3).trans h4)
  intro _ l4 t4 hcalm4
  have hcalm : Calmly l t l4 t4 := ((hcalm1.trans hcalm2).trans hcalm3).trans hcalm4
  have hreturning := h.congr hcalm
  obtain ⟨id, hidentity, -⟩ := hreturning.transaction
  obtain ⟨tx, htx, hid, hoperation, hversion⟩ := identity_eq_some hidentity
  refine meets_locals_bind (meets_bind ((calm_writeJournal (by decide) _ g l4 t4).both
    (meets_writeJournal htx .activating "")) ?_
    fun e l5 t5 h5 => hstop e l5 t5 (hcalm.trans h5.1))
  rintro _ l5 t5 ⟨hcalm5, hmarked, -⟩
  have hreturning5 := hreturning.congr hcalm5
  have htx5 : l5.transaction = some { tx with status := .activating, error := cut "" } := by
    rw [hmarked]
    simp [Progress.marked, htx]
  refine hswitch l4.id l5 t5 ⟨hreturning5.active, hreturning5.activations, _, htx5, ?_, hversion,
    hoperation, rfl, hreturning5.quiet.uncommitted _ htx5⟩
  rw [id_of_identity hidentity]
  exact hid

/-- The version of a rollback is chosen, or the lock is given back. -/
lemma meets_selectOrRelease (toVersion : Option String) :
    Ends g (fun r l' t' => l' = l ∧ t'.files = t.files ∧
      t'.activations = t.activations ∧
      ∀ selection, r = .ok selection → t.files .active = some (.active selection.current))
      (selectOrRelease P toVersion) l t := by
  have hselect := (meets_reading (g := g) (l := l) (w := t)
    (reading_resolveRollbackSelection P toVersion)).both (meets_resolveRollbackSelection toVersion)
  refine meets_catching hselect ?_ ?_
  · rintro selection l1 t1 ⟨⟨hl, hfiles, hactivations⟩, hcurrent⟩
    exact ⟨hl, hfiles, hactivations, hcurrent⟩
  · rintro e l1 t1 ⟨⟨rfl, hfiles, hactivations⟩, -⟩
    refine meets_bind (meets_still (c := .release) rfl) ?_ ?_
    · rintro _ l2 t2 ⟨rfl, hfiles2, hactivations2⟩
      exact meets_raise ⟨rfl, hfiles2.trans hfiles, hactivations2.trans hactivations,
        fun _ h => by cases h⟩
    · rintro e' l2 t2 ⟨rfl, hfiles2, hactivations2⟩
      exact ⟨rfl, hfiles2.trans hfiles, hactivations2.trans hactivations, fun _ h => by cases h⟩

/-- A rollback: what has to be shown of its transaction with its handler. -/
theorem meets_rollback_of {post : Except Failure CallResult → Progress → World → Prop}
    {request : RollbackRequest}
    (hstop : ∀ r t, t.files = w₀.files → t.activations = w₀.activations → post r {} t)
    (hcall : ∀ selection l t, w₀.files .active = some (.active selection.current) →
      Returning w₀ selection l t → Ends g post
        (lastly (catching (rollbackTransaction P selection) failRollback) (perform .release)) l
        t) :
    Ends g post (rollback P request) {} w₀ := by
  refine meets_reading_bind (apart_quiet rfl) rfl rfl ?_ fun _ => hstop _
  intro _ t1 hfiles1 hactivations1
  split
  case isTrue =>
    have hdry : Ends g (fun _ l' t => l' = {} ∧ t.files = t1.files ∧
        t.activations = t1.activations) (dryRunRollback P request.toVersion) {} t1 :=
      meets_reading ((reading_resolveRollbackSelection P _).bind fun _ =>
        (apart_quiet rfl).bind fun _ => apart_pure _)
    refine hdry.weaken ?_
    rintro r l2 t2 ⟨rfl, hfiles2, hactivations2⟩
    exact hstop r t2 (hfiles2.trans hfiles1) (hactivations2.trans hactivations1)
  case isFalse =>
    refine meets_reading_bind (apart_quiet rfl) hfiles1 hactivations1 ?_ fun _ => hstop _
    intro _ t2 hfiles2 hactivations2
    refine meets_bind (meets_selectOrRelease request.toVersion) ?_ ?_
    swap
    · rintro e l3 t3 ⟨rfl, hfiles3, hactivations3, -⟩
      exact hstop _ t3 (hfiles3.trans hfiles2) (hactivations3.trans hactivations2)
    rintro selection l3 t3 ⟨rfl, hfiles3, hactivations3, hcurrent⟩
    have hactive : w₀.files .active = some (.active selection.current) := by
      rw [← hcurrent selection rfl, hfiles2]
    refine meets_bind meets_newTransaction ?_ ?_
    · rintro _ l4 t4 ⟨id, -, rfl, hfiles4, hactivations4, hnone⟩
      refine hcall selection _ t4 hactive ⟨rfl, ?_, ?_, id, rfl, uncommitted_of_files hfiles4 hnone⟩
      · rw [hfiles4, hfiles3, hfiles2]
      · rw [hactivations4, hactivations3, hactivations2]
    · rintro e l4 t4 ⟨id, h, -⟩
      cases h

end Rollback

/-! ## Calls -/

/-- A call of the bootstrap. -/
inductive Call where
  | upgrade (request : UpgradeRequest)
  | rollback (request : RollbackRequest)

/-- What a call runs. -/
def Call.script (P : Platform) : Call → Steps Progress CallResult
  | .upgrade request => Upgrade.upgrade P request
  | .rollback request => Upgrade.rollback P request

end AgentBell.Upgrade
