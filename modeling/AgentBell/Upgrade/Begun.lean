import AgentBell.Upgrade.Scope

/-!
# What an upgrade starts from

Before an upgrade installs anything, it reads the active state and notes it, and finds out whether
the version to upgrade to is the active one and has to be repaired.
-/

namespace AgentBell.Upgrade

open Interleaving

open Routine (catching lastly)

/-! ## The active state -/

section Active

variable {g : Guard} {ℓ : Type} {l : ℓ} {w : World}

/-- What a read returns. -/
lemma meets_read {path : Path} :
    Ends g (fun r l' t => l' = l ∧ t = w ∧
      match r with
      | .ok content => w.files path = some content
      | .error e => e = .missing → w.files path = none)
      (perform (.read path)) l w := by
  refine meets_step (c := .read path) fun x r t hg hexec => ⟨rfl, ?_⟩
  obtain ⟨rfl, hcases⟩ := answer_cases hexec
  refine ⟨rfl, ?_⟩
  rcases hcases with ⟨-, rfl⟩ | ⟨fault, -, rfl⟩
  · cases hfile : t.files path with
    | none => simp [World.readFile, hfile]
    | some content => simp [World.readFile, hfile]
  · exact fun h => absurd h (failure_ne_missing fault)

/-- A document that is accepted is an active state. -/
lemma eq_active_of_valid {content : Content} {state : ActiveState}
    (h : validateActiveState content = .ok state) : content = .active state := by
  unfold validateActiveState at h
  split at h
  · split at h
    · cases h
      rfl
    · cases h
  · cases h

lemma validateActiveState_ne_missing {content : Content} {e : Failure}
    (h : validateActiveState content = .error e) : e ≠ .missing := by
  unfold validateActiveState at h
  split at h
  · split at h
    · cases h
    · cases h
      simp
  · cases h
    simp

/-- The active state that is read is that of the file. -/
lemma meets_loadActive :
    Ends g (fun r l' t => l' = l ∧ t = w ∧
      match r with
      | .ok state => w.files .active = some (.active state)
      | .error e => e = .missing → w.files .active = none)
      loadActive l w := by
  refine meets_bind meets_read ?_ fun e l' t h => h
  rintro content l' t ⟨rfl, rfl, hfile⟩
  refine meets_lift ⟨rfl, rfl, ?_⟩
  cases hvalid : validateActiveState content with
  | ok state =>
    obtain rfl := eq_active_of_valid hvalid
    exact hfile
  | error e => exact fun h => absurd h (validateActiveState_ne_missing hvalid)

lemma meets_loadOptionalActive :
    Ends g (fun r l' t => l' = l ∧ t = w ∧
      ∀ state, r = .ok state → w.files .active = state.map .active)
      loadOptionalActive l w := by
  refine meets_catching_map meets_loadActive ?_ ?_
  · rintro state l' t ⟨rfl, rfl, hfile⟩
    exact ⟨rfl, rfl, fun _ h => by cases h; exact hfile⟩
  · rintro e l' t ⟨rfl, rfl, hmissing⟩
    cases e with
    | missing => exact meets_pure ⟨rfl, rfl, fun _ h => by cases h; exact hmissing rfl⟩
    | _ => exact meets_raise ⟨rfl, rfl, nofun⟩

/-- The install that is found is that of the active state. -/
lemma meets_currentInstall (P : Platform) (request : UpgradeRequest) :
    Ends g (fun r _ _ => ∀ found, r = .ok found →
      w.files .active = found.1.map .active) (currentInstall P request) l w := by
  refine meets_bind meets_loadOptionalActive ?_ nofun
  rintro active l' t ⟨rfl, rfl, hactive⟩
  have hfile := hactive active rfl
  cases active with
  | some state =>
    refine meets_raiseIf_bind (fun _ _ h => by cases h) fun _ => ?_
    exact meets_pure fun _ h => by cases h; exact hfile
  | none =>
    refine meets_bind (meets_reading (reading_discoverLegacyInstall P _)) ?_
      fun e l' t _ _ h => by cases h
    intro legacy l1 t1 _
    refine meets_raiseIf_bind (fun _ _ h => by cases h) fun _ => ?_
    exact meets_pure fun _ h => by cases h; exact hfile

end Active

/-! ## What is noted -/

/-- What an upgrade notes before anything is installed. -/
structure Begun (w₀ : World) (version : String) (l : Progress) : Prop where
  known : ∀ a, l.active = some a → w₀.files .active = some (.active a)
  repairing : l.repairingSameVersion = true → ∃ a, l.active = some a ∧ a.activeVersion = version
  unwritten : l.activeWritten = false

section Begun

variable {P : Platform} {g : Guard} {w₀ w : World} {version : String}
  {l l' : Progress}

lemma stance_eq (h : l'.stance = l.stance) :
    l'.active = l.active ∧ l'.previousVersion = l.previousVersion ∧
      l'.installedNew = l.installedNew ∧ l'.core = l.core ∧ l'.activeWritten = l.activeWritten ∧
      l'.attemptedGeneration = l.attemptedGeneration ∧
      l'.repairingSameVersion = l.repairingSameVersion := by
  simpa [Progress.stance] using h

lemma Begun.congr (h : Begun w₀ version l) (hl : l'.stance = l.stance) : Begun w₀ version l' := by
  obtain ⟨hactive, -, -, -, hwritten, -, hrepairing⟩ := stance_eq hl
  refine ⟨?_, ?_, ?_⟩
  · rw [hactive]
    exact h.known
  · rw [hactive, hrepairing]
    exact h.repairing
  · rw [hwritten]
    exact h.unwritten

lemma begun_initial : Begun w₀ version {} := ⟨nofun, nofun, rfl⟩

/-- The active state is noted. -/
lemma meets_selectPrevious (request : UpgradeRequest) :
    Ends g (fun r l' t => t.files = w.files ∧ t.activations = w.activations ∧
      Begun w request.toVersion l' ∧ l'.installedNew = false ∧
      ∀ legacy, r = .ok legacy → w.files .active = l'.active.map .active)
      (selectPrevious P request) {} w := by
  have hnote : Ends g (fun r l' _ => Begun w request.toVersion l' ∧
      l'.installedNew = false ∧ ∀ legacy, r = .ok legacy → w.files .active = l'.active.map .active)
      (selectPrevious P request) {} w := by
    refine meets_bind ((meets_reading (reading_currentInstall P request)).both
      (meets_currentInstall P request)) ?_ ?_
    · rintro ⟨active, legacy⟩ l1 t1 ⟨⟨rfl, -⟩, hfound⟩
      have hfile : w.files .active = active.map .active := hfound _ rfl
      have hbegun : Begun w request.toVersion { ({} : Progress) with
            active := active
            previousVersion := currentVersion active legacy
            previousCore := (active.map (·.activeVersion)).or legacy } := by
        refine ⟨fun a ha => ?_, nofun, rfl⟩
        obtain rfl : active = some a := ha
        exact hfile
      refine meets_assign_bind (meets_raiseIf_bind (fun _ => ?_) fun _ => ?_)
      · exact ⟨hbegun, rfl, nofun⟩
      · exact meets_pure ⟨hbegun, rfl, fun _ _ => hfile⟩
    · rintro e l1 t1 ⟨⟨rfl, -⟩, -⟩
      exact ⟨begun_initial, rfl, nofun⟩
  refine ((apart_selectPrevious P request).touches.meets.both hnote).weaken ?_
  rintro r l' t ⟨⟨hfiles, hactivations⟩, hnote⟩
  exact ⟨funext fun path => hfiles path (by simp), hactivations (by simp), hnote⟩

/-- Whether the active version has to be repaired is noted. -/
lemma meets_reuseOrRepair (hl : Begun w₀ version l) :
    Ends g (fun _ l' t => t.files = w.files ∧ t.activations = w.activations ∧
      Begun w₀ version l' ∧ l'.active = l.active ∧ l'.installedNew = l.installedNew)
      (reuseOrRepair P version) l w := by
  have hnote : Ends g (fun _ l' _ => Begun w₀ version l' ∧
      l'.active = l.active ∧ l'.installedNew = l.installedNew) (reuseOrRepair P version) l w := by
    refine meets_locals_bind ?_
    cases hactive : l.active with
    | none => exact meets_pure ⟨hl, hactive, rfl⟩
    | some active =>
      dsimp only
      split
      case isFalse => exact meets_pure ⟨hl, hactive, rfl⟩
      case isTrue hversion =>
        have hreuse : Apart ∅ Progress.fixed (reuseActive P version active) :=
          apart_reuseActive P version active
        refine meets_bind hreuse.steady.meets ?_ ?_
        · intro reused l1 t1 hfixed
          have hstance : l1.stance = l.stance := congrArg Prod.fst hfixed
          have hbegun := hl.congr hstance
          obtain ⟨hactive', -, hnew, -⟩ := stance_eq hstance
          refine meets_assign_bind (meets_pure ⟨⟨hbegun.known, fun _ => ?_, hbegun.unwritten⟩, ?_⟩)
          · exact ⟨active, hactive'.trans hactive, hversion⟩
          · exact ⟨hactive'.trans hactive, hnew⟩
        · intro e l1 t1 hfixed
          have hstance : l1.stance = l.stance := congrArg Prod.fst hfixed
          obtain ⟨hactive', -, hnew, -⟩ := stance_eq hstance
          exact ⟨hl.congr hstance, hactive'.trans hactive, hnew⟩
  refine ((apart_reuseOrRepair P version).touches.meets.both hnote).weaken ?_
  rintro r l' t ⟨⟨hfiles, hactivations⟩, hnote⟩
  exact ⟨funext fun path => hfiles path (by simp), hactivations (by simp), hnote⟩

/-- An upgrade: what has to be shown of its transaction with its handler. -/
theorem meets_upgrade_of {post : Except Failure CallResult → Progress → World → Prop}
    {request : UpgradeRequest}
    (hstop : ∀ r t, t.files = w.files → t.activations = w.activations → post r {} t)
    (hcall : ∀ t, t.files = w.files → t.activations = w.activations → Ends g post
        (lastly (catching (upgradeTransaction P request) failUpgrade) (perform .release)) {} t) :
    Ends g post (upgrade P request) {} w := by
  refine meets_raiseIf_bind (fun _ => hstop _ w rfl rfl) fun _ => ?_
  refine meets_raiseIf_bind (fun _ => hstop _ w rfl rfl) fun _ => ?_
  refine meets_raiseIf_bind (fun _ => hstop _ w rfl rfl) fun _ => ?_
  refine meets_raiseIf_bind (fun _ => hstop _ w rfl rfl) fun _ => ?_
  refine meets_reading_bind (apart_quiet rfl) rfl rfl ?_ fun _ => hstop _
  intro _ t1 hfiles1 hactivations1
  refine meets_reading_bind (reading_currentInstall P request) hfiles1 hactivations1 ?_
    fun _ => hstop _
  rintro ⟨current, legacy⟩ t2 hfiles hactivations
  dsimp only
  split
  case isTrue =>
    have hdry : Ends g (fun _ l' t => l' = {} ∧ t.files = t2.files ∧
        t.activations = t2.activations) (dryRunUpgrade current legacy request.toVersion) {} t2 :=
      meets_reading ((apart_quiet rfl).onlyIf.bind fun _ => apart_pure _)
    refine hdry.weaken ?_
    rintro r l3 t3 ⟨rfl, hfiles3, hactivations3⟩
    exact hstop r t3 (hfiles3.trans hfiles) (hactivations3.trans hactivations)
  case isFalse =>
    exact meets_reading_bind (apart_quiet rfl) hfiles hactivations (fun _ => hcall) fun _ => hstop _

end Begun

end AgentBell.Upgrade
