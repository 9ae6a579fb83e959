import AgentBell.Upgrade.Installation

/-!
# The active version keeps its Core

Whatever fails in an upgrade, `active.json` names a version whose directory holds its Core, unless
the write of `active.json` throws although the new state is in place, or the metadata of the active
version cannot be moved into place.
-/

namespace AgentBell.Upgrade

open Interleaving

open Routine (assign catching enclosed)

/-! ## Up to the activation -/

/-- The condition on the environment of an upgrade to a version: if a file of the version is missing
at first, the write of the active state fails cleanly and the metadata of the active version can be
moved into place. -/
def Careful (w₀ : World) (version : String) (x : Choice) (c : Cmd) (w : World) : Prop :=
  Incomplete w₀ version → Untorn x c w ∧ Accepted x c w

/-- The active state, the Cores of the other versions and that of the active version are kept. -/
structure Kept (w₀ : World) (version : String) (t : World) : Prop where
  active : t.files .active = w₀.files .active
  others : ∀ v, v ≠ version → t.files (.core v) = w₀.files (.core v)
  named : Names w₀ version → t.files (.core version) = w₀.files (.core version)

/-- The version is installed. -/
structure Staged (P : Platform) (w₀ : World) (version : String) (bundle : Bundle) (l : Progress)
    (t : World) : Prop extends Begun w₀ version l, Kept w₀ version t where
  core : ∃ core, t.files (.core version) = some (.bytes core) ∧
    P.checksum core = bundle.coreChecksum
  fresh : l.installedNew = true → Incomplete w₀ version ∧ ¬ Names w₀ version
  version : l.core = some version

/-- What the compensation of an upgrade starts from. -/
structure Recoverable (P : Platform) (l : Progress) (t : World) : Prop where
  sound : Sound P t
  unnamed : l.installedNew = true → l.activeWritten = false → ∀ v, l.core = some v → ¬ Names t v
  restorable : l.activeWritten = true → ∀ a, l.active = some a → Holds P t a ∧
    (l.installedNew = true → ∀ v, l.core = some v → v ≠ a.activeVersion)

section Upgrade

variable {P : Platform} {w₀ t t' : World} {version : String} {bundle : Bundle} {l l' : Progress}
  {state : ActiveState}

lemma Kept.core_eq (h : Kept w₀ version t) {v : String} (hv : Names w₀ v) :
    t.files (.core v) = w₀.files (.core v) := by
  rcases eq_or_ne v version with rfl | hne
  · exact h.named hv
  · exact h.others v hne

lemma Kept.sound (h : Kept w₀ version t) (hw : Sound P w₀) : Sound P t :=
  hw.keep h.active fun _ hv => h.core_eq hv

lemma Kept.congr (h : Kept w₀ version t) (hsame : Same t t') : Kept w₀ version t' where
  active := hsame.active.trans h.active
  others v hv := (hsame.core v).trans (h.others v hv)
  named hnames := (hsame.core version).trans (h.named hnames)

lemma Staged.congr (h : Staged P w₀ version bundle l t) (hl : l'.stance = l.stance)
    (hsame : Same t t') : Staged P w₀ version bundle l' t' := by
  obtain ⟨-, -, hnew, hcore, -⟩ := stance_eq hl
  obtain ⟨core, hfile, hchecksum⟩ := h.core
  refine ⟨h.toBegun.congr hl, h.toKept.congr hsame, ?_, ?_, hcore.trans h.version⟩
  · exact ⟨core, (hsame.core version).trans hfile, hchecksum⟩
  · rw [hnew]
    exact h.fresh

lemma Staged.recoverable (h : Staged P w₀ version bundle l t) (hw : Sound P w₀) :
    Recoverable P l t := by
  refine ⟨h.toKept.sound hw, fun hnew _ v hv => ?_, fun hwritten => ?_⟩
  · obtain rfl : version = v := Option.mem_unique h.version hv
    rw [names_congr h.active]
    exact (h.fresh hnew).2
  · rw [h.unwritten] at hwritten
    cases hwritten

lemma Recoverable.congr (h : Recoverable P l t) (hl : l'.stance = l.stance) (hsame : Same t t') :
    Recoverable P l' t' := by
  obtain ⟨hactive, -, hnew, hcore, hwritten, -, -⟩ := stance_eq hl
  refine ⟨h.sound.congr hsame, ?_, ?_⟩
  · rw [hnew, hcore, hwritten]
    intro hinstalled hunwritten v hv
    rw [names_congr hsame.active]
    exact h.unnamed hinstalled hunwritten v hv
  · rw [hnew, hcore, hwritten, hactive]
    intro hwritten a ha
    obtain ⟨hholds, hother⟩ := h.restorable hwritten a ha
    exact ⟨hholds.congr (hsame.core _), hother⟩

lemma recoverable_of_uninstalled (hsound : Sound P t) (hnew : l.installedNew = false)
    (hwritten : l.activeWritten = false) : Recoverable P l t := by
  refine ⟨hsound, fun h => ?_, fun h => ?_⟩
  · rw [hnew] at h
    cases h
  · rw [hwritten] at h
    cases h

variable {g : Guard}

/-- A routine that writes only to other files and notes nothing. -/
lemma Apart.same {ℓ γ α : Type} {aspect : ℓ → γ} {p : Steps ℓ α} {l : ℓ}
    (hp : Apart inessential aspect p) :
    Ends g (fun _ l' t' => Same t t' ∧ aspect l' = aspect l) p l t :=
  hp.touches.same.both hp.steady.meets

/-- A bundle that is accepted has the Core it says. -/
lemma core_of_validateBundle (h : validateBundle P version bundle = .ok ()) :
    Relay.isLowerHex 64 bundle.coreChecksum ∧
      P.checksum (bundle.core.getD []) = bundle.coreChecksum := by
  unfold validateBundle at h
  split at h
  case isTrue => cases h
  case isFalse hpresent =>
    split at h
    case isTrue => cases h
    case isFalse hcore =>
      obtain ⟨hhex, hchecksum⟩ := not_not.mp hcore
      obtain ⟨core, hsome, hbytes⟩ := Option.map_eq_some_iff.mp hchecksum
      rw [hsome]
      exact ⟨hhex, hbytes⟩

/-- A step that touches nothing. -/
lemma meets_quiet {c : Cmd} (h : c.touched = []) :
    Ends g (fun _ l' t' => Same t t' ∧ l'.stance = l.stance) (perform c) l t :=
  (apart_quiet h).same

/-- Afterwards the version is installed. -/
lemma meets_stageRelease (hw : Sound P w₀) (hg : ∀ x c s, g x c s → Careful w₀ version x c s)
    (hl : Begun w₀ version l) (hnew : l.installedNew = false) (hsame : Same w₀ t) :
    Ends g (fun r l' t' =>
      match r with
      | .ok bundle => Staged P w₀ version bundle l' t'
      | .error _ => Recoverable P l' t')
      (stageRelease P version) l t := by
  -- Nothing is installed yet.
  have hstart : ∀ l1 t1, l1.stance = l.stance → Same t t1 → Recoverable P l1 t1 := by
    intro l1 t1 hstance hsame1
    obtain ⟨-, -, hnew1, -, hwritten1, -⟩ := stance_eq hstance
    exact recoverable_of_uninstalled (hw.congr (hsame.trans hsame1)) (hnew1.trans hnew)
      (hwritten1.trans hl.unwritten)
  refine meets_bind (meets_quiet rfl) ?_
    fun e l1 t1 h => hstart l1 t1 h.2 h.1
  rintro bundle l1 t1 ⟨hsame1, hstance1⟩
  refine meets_lift_bind (fun e _ => hstart l1 t1 hstance1 hsame1) fun _ hvalid => ?_
  obtain ⟨hhex, hbytes⟩ := core_of_validateBundle hvalid
  refine meets_locals_bind (meets_raiseIf_bind (fun _ => hstart l1 t1 hstance1 hsame1) fun _ => ?_)
  refine meets_bind (apart_writeJournal ordinary_inessential _ _).stance.same ?_
    fun e l2 t2 h => hstart l2 t2 (h.2.trans hstance1) (hsame1.trans h.1)
  rintro _ l2 t2 ⟨hsame2, hstance2⟩
  have hsame' : Same w₀ t2 := hsame.trans (hsame1.trans hsame2)
  have hstance' : l2.stance = l.stance := hstance2.trans hstance1
  have hbegun : Begun w₀ version l2 := hl.congr hstance'
  have hincomplete : Incomplete t2 version → Incomplete w₀ version := by
    unfold Incomplete
    rw [hsame'.core, hsame'.metadata]
    exact id
  refine meets_bind (meets_installVersion (hw.congr hsame') hhex hbytes fun h x c s hx =>
    (hg x c s hx (hincomplete h)).2) ?_ ?_
  · rintro new l3 t3 ⟨rfl, hactive, hothers, hnamed, hinstalled⟩
    obtain ⟨hcore, hfresh⟩ := hinstalled new rfl
    have hstaged : Staged P w₀ version bundle
        { l3 with installedNew := new, core := some version } t3 := by
      refine ⟨⟨hbegun.known, hbegun.repairing, hbegun.unwritten⟩, ⟨?_, ?_, ?_⟩, hcore, ?_, rfl⟩
      · exact hactive.trans hsame'.active
      · exact fun v hv => (hothers v hv).trans (hsame'.core v)
      · exact fun h => (hnamed ((names_congr hsame'.active).mpr h)).trans (hsame'.core version)
      · intro h
        obtain ⟨hmissing, hnames⟩ := hfresh h
        exact ⟨hincomplete hmissing,
          fun hnames' => hnames ((names_congr hsame'.active).mpr hnames')⟩
    refine meets_assign_bind (meets_bind (meets_quiet (c := .smoke version) rfl) ?_ ?_)
    · rintro _ l4 t4 ⟨hsame4, hstance4⟩
      exact meets_pure (hstaged.congr hstance4 hsame4)
    · rintro e l4 t4 ⟨hsame4, hstance4⟩
      exact (hstaged.congr hstance4 hsame4).recoverable hw
  · rintro e l3 t3 ⟨rfl, hactive, hothers, hnamed, -⟩
    obtain ⟨-, -, hnew', -⟩ := stance_eq hstance'
    refine recoverable_of_uninstalled ?_ (hnew'.trans hnew) hbegun.unwritten
    have hkept : Kept t2 version t3 := ⟨hactive, hothers, hnamed⟩
    exact hkept.sound (hw.congr hsame')

/-- The state that is written names the installed version. -/
lemma Staged.holds_nextActive (h : Staged P w₀ version bundle l t) (legacy : Option String) :
    (nextActive P version legacy bundle l).activeVersion = version ∧
      Holds P t (nextActive P version legacy bundle l) := by
  obtain ⟨core, hfile, hchecksum⟩ := h.core
  have hcases : (nextActive P version legacy bundle l).activeVersion = version ∧
      (nextActive P version legacy bundle l).checksum = bundle.coreChecksum := by
    unfold nextActive
    split
    case h_1 active hactive hrepairing =>
      obtain ⟨a, ha, hversion⟩ := h.repairing hrepairing
      rw [hactive] at ha
      cases ha
      exact ⟨hversion, rfl⟩
    case h_2 => exact ⟨rfl, rfl⟩
  refine ⟨hcases.1, core, ?_, ?_⟩
  · rw [hcases.1]
    exact hfile
  · rw [hcases.2]
    exact hchecksum

/-- The state of before can still be restored after the activation. -/
lemma Staged.restorable (h : Staged P w₀ version bundle l t) (hw : Sound P w₀) {a : ActiveState}
    (ha : l.active = some a) : Holds P t a ∧
      (l.installedNew = true → ∀ v, l.core = some v → v ≠ a.activeVersion) := by
  have hfile := h.known a ha
  have hnames : Names w₀ a.activeVersion := ⟨a, hfile, rfl⟩
  obtain ⟨state, hstate, hholds⟩ := hw _ hfile
  cases hstate
  refine ⟨hholds.congr (h.toKept.core_eq hnames), fun hnew v hv heq => ?_⟩
  obtain rfl : version = v := Option.mem_unique h.version hv
  exact (h.fresh hnew).2 (heq ▸ hnames)

/-- A write of the active state that failed leaves what can be compensated. -/
lemma Staged.recoverable_of_ending (h : Staged P w₀ version bundle l t) (hw : Sound P w₀)
    (hg : ∀ x c s, g x c s → Careful w₀ version x c s) (hholds : Holds P t state) {e : Failure}
    (hending : (Write.activation state).Ending g t (.error e) t') : Recoverable P l t' := by
  have hframe := hending.frame
  have hcore : ∀ v, t'.files (.core v) = t.files (.core v) := fun v =>
    hframe _ (by simp [Write.path]) (by simp) (by simp)
  have hkept : t'.files .active = t.files .active → Recoverable P l t' := by
    intro hactive
    have hkept : Kept w₀ version t' := by
      refine ⟨hactive.trans h.active, fun v hv => ?_, fun hnames => ?_⟩
      · exact (hcore v).trans (h.others v hv)
      · exact (hcore version).trans (h.named hnames)
    obtain ⟨core, hfile, hchecksum⟩ := h.core
    have hstaged : Staged P w₀ version bundle l t' :=
      ⟨h.toBegun, hkept, ⟨core, (hcore version).trans hfile, hchecksum⟩, h.fresh, h.version⟩
    exact hstaged.recoverable hw
  have habsent : t'.files .active = none → Recoverable P l t' := by
    intro hactive
    refine ⟨sound_of_absent hactive, fun _ _ v _ hnames => ?_, fun hwritten => ?_⟩
    · obtain ⟨state, hfile, -⟩ := hnames
      rw [hactive] at hfile
      cases hfile
    · rw [h.unwritten] at hwritten
      cases hwritten
  obtain ⟨-, -, ⟨_, _, hat⟩ | ⟨-, _, _, hat⟩ | ⟨htorn, hnew⟩ | ⟨-, -, _, _, hat⟩⟩ := hending
  · exact hkept hat.file
  · exact habsent hat.file
  · rcases hnew with ⟨_, _, hat⟩ | ⟨-, _, _, hat⟩
    · -- The version was complete, so that nothing new is installed.
      have hactive : t'.files .active = some (.active state) := hat.file
      have hold : ¬ l.installedNew = true := by
        intro hinstalled
        obtain ⟨x, c, s, e, t1, hwrite, -, hx, hexec, hfile⟩ := htorn
        exact (hg x c s hx (h.fresh hinstalled).1).1 state hwrite e t1 hexec hfile
      exact recoverable_of_uninstalled (sound_of_holds hactive (hholds.congr (hcore _)))
        (Bool.eq_false_iff.mpr hold) h.unwritten
    · exact habsent hat.file
  · exact hkept hat.file

/-- The activation leaves what can be compensated. -/
lemma meets_commitActive (hw : Sound P w₀) (hg : ∀ x c s, g x c s → Careful w₀ version x c s)
    (h : Staged P w₀ version bundle l t) (hholds : Holds P t state) :
    Ends g (fun _ l' t' => Recoverable P l' t')
      (commitActive state version) l t := by
  refine meets_bind (meets_atomicWrite (.activation state) t) ?_ ?_
  swap
  · rintro e l1 t1 ⟨rfl, hending⟩
    exact h.recoverable_of_ending hw hg hholds hending
  rintro _ l1 t1 ⟨rfl, _, _, hat⟩
  have hcore : ∀ v, t1.files (.core v) = t.files (.core v) := fun v =>
    hat.others _ (by simp [Write.path]) (by simp) (by simp)
  have hactivated : Recoverable P { l1 with activeWritten := true } t1 := by
    refine ⟨sound_of_holds hat.file (hholds.congr (hcore _)), fun _ => by rintro ⟨⟩,
      fun _ a ha => ?_⟩
    obtain ⟨hprevious, hother⟩ := h.restorable hw ha
    exact ⟨hprevious.congr (hcore _), hother⟩
  refine meets_assign_bind (meets_bind (meets_quiet (c := .restart version false) rfl) ?_ ?_)
  · rintro _ l2 t2 ⟨hsame2, hstance2⟩
    refine (apart_writeJournal ordinary_inessential _ _).stance.same.weaken ?_
    rintro r l3 t3 ⟨hsame3, hstance3⟩
    exact (hactivated.congr hstance2 hsame2).congr hstance3 hsame3
  · rintro e l2 t2 ⟨hsame2, hstance2⟩
    exact hactivated.congr hstance2 hsame2

/-- So does the whole activation. -/
lemma meets_activate (hw : Sound P w₀) (hg : ∀ x c s, g x c s → Careful w₀ version x c s)
    (legacy : Option String) (h : Staged P w₀ version bundle l t) :
    Ends g (fun _ l' t' => Recoverable P l' t')
      (activate P version legacy bundle) l t := by
  have herror : ∀ l1 t1, Same t t1 ∧ l1.stance = l.stance → Recoverable P l1 t1 :=
    fun l1 t1 h1 => (h.congr h1.2 h1.1).recoverable hw
  refine meets_bind (apart_readBridges P).stance.same ?_
    fun e l1 t1 h1 => herror l1 t1 h1
  rintro _ l1 t1 ⟨hsame1, hstance1⟩
  refine meets_locals_bind ?_
  refine meets_bind (apart_onlyFor fun previousCore =>
    (apart_quiesceService P ordinary_inessential previousCore).stance.onlyIf).same ?_
    fun e l2 t2 h2 => herror l2 t2 ⟨hsame1.trans h2.1, h2.2.trans hstance1⟩
  rintro _ l2 t2 ⟨hsame2, hstance2⟩
  have hsame2' : Same t t2 := hsame1.trans hsame2
  have hstance2' : l2.stance = l.stance := hstance2.trans hstance1
  refine meets_bind (apart_writeJournal ordinary_inessential _ _).stance.same ?_
    fun e l3 t3 h3 => herror l3 t3 ⟨hsame2'.trans h3.1, h3.2.trans hstance2'⟩
  rintro _ l3 t3 ⟨hsame3, hstance3⟩
  have hsame3' : Same t t3 := hsame2'.trans hsame3
  have hstance3' : l3.stance = l.stance := hstance3.trans hstance2'
  refine meets_bind ((apart_replaceBridges P ordinary_inessential bundle).map (·.1.1)).same ?_
    fun e l4 t4 h4 => herror l4 t4 ⟨hsame3'.trans h4.1, h4.2.trans hstance3'⟩
  rintro _ l4 t4 ⟨hsame4, hstance4⟩
  have hsame4' : Same t t4 := hsame3'.trans hsame4
  have hstaged := h.congr (hstance4.trans hstance3') hsame4'
  have hholds := ((h.congr hstance1 hsame1).holds_nextActive legacy).2
  have hholds' := hholds.congr ((hsame4'.core _).trans (hsame1.core _).symm)
  have hattempt : Staged P w₀ version bundle
      { l4 with attemptedGeneration := nextGeneration l1.active legacy } t4 :=
    ⟨⟨hstaged.known, hstaged.repairing, hstaged.unwritten⟩, hstaged.toKept, hstaged.core,
      hstaged.fresh, hstaged.version⟩
  refine meets_assign_bind (meets_bind (meets_commitActive hw hg hattempt hholds') ?_
    fun e l5 t5 h5 => h5)
  intro _ l5 t5 h5
  exact meets_pure h5

/-- The transaction of an upgrade leaves what can be compensated. -/
lemma meets_upgradeTransaction (hw : Sound P w₀) {request : UpgradeRequest}
    (hg : ∀ x c s, g x c s → Careful w₀ request.toVersion x c s) :
    Ends g (fun _ l' t' => Recoverable P l' t')
      (upgradeTransaction P request) {} w₀ := by
  have hstart : ∀ l1 t1, t1.files = w₀.files → l1.installedNew = false →
      Begun w₀ request.toVersion l1 → Recoverable P l1 t1 := by
    intro l1 t1 hfiles hnew hbegun
    refine recoverable_of_uninstalled (hw.congr ⟨?_, fun v => ?_, fun v => ?_⟩) hnew
      hbegun.unwritten
    all_goals rw [hfiles]
  refine meets_bind (meets_selectPrevious request) ?_ ?_
  swap
  · rintro e l1 t1 ⟨hfiles, -, hbegun, hnew, -⟩
    exact hstart l1 t1 hfiles hnew hbegun
  rintro legacy l1 t1 ⟨hfiles1, -, hbegun1, hnew1, -⟩
  refine meets_bind (meets_reuseOrRepair hbegun1) ?_ ?_
  swap
  · rintro e l2 t2 ⟨hfiles, -, hbegun, -, hnew⟩
    exact hstart l2 t2 (hfiles.trans hfiles1) (hnew.trans hnew1) hbegun
  rintro reused l2 t2 ⟨hfiles2, -, hbegun2, -, hnew2⟩
  have hsame2 : Same w₀ t2 := by
    refine ⟨?_, fun v => ?_, fun v => ?_⟩
    all_goals rw [hfiles2, hfiles1]
  cases reused with
  | some result =>
    exact meets_pure (hstart l2 t2 (hfiles2.trans hfiles1) (hnew2.trans hnew1) hbegun2)
  | none =>
    refine meets_bind (apart_beginUpgrade P ordinary_inessential _).same ?_ ?_
    · rintro _ l3 t3 ⟨hsame3, hstance3⟩
      obtain ⟨-, -, hnew3, -⟩ := stance_eq hstance3
      refine meets_bind (meets_stageRelease hw hg (hbegun2.congr hstance3)
        (hnew3.trans (hnew2.trans hnew1)) (hsame2.trans hsame3)) ?_ fun e l4 t4 h4 => h4
      intro bundle l4 t4 hstaged
      exact meets_activate hw hg legacy hstaged
    · rintro e l3 t3 ⟨hsame3, hstance3⟩
      obtain ⟨-, -, hnew3, -⟩ := stance_eq hstance3
      exact recoverable_of_uninstalled (hw.congr (hsame2.trans hsame3))
        (hnew3.trans (hnew2.trans hnew1)) (hbegun2.congr hstance3).unwritten

end Upgrade

/-! ## The compensation -/

/-- What holds in a compensation once the active state is dealt with. -/
structure Undone (P : Platform) (progress : Progress) (l : Recovery) (t : World) : Prop where
  sound : Sound P t
  unnamed : l.activeRestored = true → progress.installedNew = true →
    ∀ v, progress.core = some v → ¬ Names t v

section Compensation

variable {P : Platform} {g : Guard} {t t' : World} {progress : Progress}
  {l l' : Recovery} {action version : String} {callback : Steps Recovery Unit}
  {m : Progress}

lemma Undone.congr (h : Undone P progress l t) (hl : l'.activeRestored = l.activeRestored)
    (hsame : Same t t') : Undone P progress l' t' := by
  refine ⟨h.sound.congr hsame, ?_⟩
  rw [hl]
  intro hrestored hnew v hv
  rw [names_congr hsame.active]
  exact h.unnamed hrestored hnew v hv

lemma apart_attemptStep {scope : Set Path} (h : Apart scope (·.activeRestored) callback) :
    Apart scope (·.activeRestored) (attemptStep action callback) :=
  (h.bind fun _ => apart_assign (by exact fun _ => rfl)).catching
    fun _ => apart_assign (by exact fun _ => rfl)

/-- A write of an active state whose Core is there keeps the data root sound. -/
lemma Sound.of_ending (h : Sound P t) {state : ActiveState} (hholds : Holds P t state)
    {r : Except Failure Unit} (hending : (Write.restoration state).Ending g t r t') :
    Sound P t' := by
  have hframe := hending.frame
  have hcore : ∀ v, t'.files (.core v) = t.files (.core v) := fun v =>
    hframe _ (by simp [Write.path]) (by simp) (by simp)
  have hkept : t'.files .active = t.files .active → Sound P t' := fun hactive =>
    h.keep hactive fun v _ => hcore v
  have hnew : t'.files .active = some (.active state) → Sound P t' := fun hactive =>
    sound_of_holds hactive (hholds.congr (hcore _))
  cases r with
  | ok a =>
    obtain ⟨_, _, hat⟩ := hending
    exact hnew hat.file
  | error e =>
    obtain ⟨-, -, ⟨_, _, hat⟩ | ⟨-, _, _, hat⟩ | ⟨-, ⟨_, _, hat⟩ | ⟨-, _, _, hat⟩⟩ |
      ⟨-, -, _, _, hat⟩⟩ := hending
    · exact hkept hat.file
    · exact sound_of_absent hat.file
    · exact hnew hat.file
    · exact sound_of_absent hat.file
    · exact hkept hat.file

/-- The active state is restored to one that is not of the installed version, or the version is
retained. -/
lemma meets_restoreActive (h : Recoverable P progress t) (hwritten : progress.activeWritten = true)
    (hl : l.activeRestored = false) :
    Ends g (fun _ l' t' => Undone P progress l' t')
      (restoreActive progress) l t := by
  have hunrestored : ∀ t', Sound P t' → Undone P progress l t' := by
    intro t' hsound
    refine ⟨hsound, fun hrestored => ?_⟩
    rw [hl] at hrestored
    cases hrestored
  have hreplace : Ends g (fun r l' t' => Undone P progress l' t' ∧
      ∀ a, r = .ok a → progress.installedNew = true → ∀ v, progress.core = some v → ¬ Names t' v)
      (restoreActive.replaceOrRemove progress progress.active) l t := by
    cases hactive : progress.active with
    | some previous =>
      obtain ⟨hholds, hother⟩ := h.restorable hwritten previous hactive
      have hrestored : Holds P t
          (restoredState previous progress.attemptedGeneration progress.id) := hholds
      refine meets_bind (meets_atomicWrite (.restoration
        (restoredState previous progress.attemptedGeneration progress.id)) t) ?_ ?_
      · rintro _ l1 t1 ⟨rfl, hending⟩
        have hundone := hunrestored t1 (h.sound.of_ending hrestored hending)
        refine meets_assign ⟨⟨hundone.sound, hundone.unnamed⟩, fun _ _ hnew v hv hnames => ?_⟩
        obtain ⟨_, _, hat⟩ := hending
        obtain ⟨state, hfile, hversion⟩ := hnames
        have hstate := Option.mem_unique hfile hat.file
        cases hstate
        exact hother hnew v hv hversion.symm
      · rintro e l1 t1 ⟨rfl, hending⟩
        exact ⟨hunrestored t1 (h.sound.of_ending hrestored hending), nofun⟩
    | none =>
      refine meets_step (c := .remove .active) fun x r t1 _ hexec => ?_
      have habsent : (t.put .active none).files .active = none := files_put_self
      rcases attempt_cases hexec with ⟨-, rfl, rfl⟩ | ⟨_, -, rfl, rfl⟩ | ⟨_, -, rfl, rfl⟩
      · refine ⟨hunrestored _ (sound_of_absent habsent), fun _ _ _ v _ hnames => ?_⟩
        obtain ⟨state, hfile, -⟩ := hnames
        cases hfile
      · exact ⟨hunrestored _ h.sound, nofun⟩
      · exact ⟨hunrestored _ (sound_of_absent habsent), nofun⟩
  refine meets_bind hreplace ?_ fun e l1 t1 h1 => h1.1
  rintro _ l1 t1 ⟨hundone, hunnamed⟩
  exact meets_assign ⟨hundone.sound, fun _ => hunnamed () rfl⟩

/-- A step of a compensation notes only how it went. -/
lemma meets_attemptStep {mid : Except Failure Unit → Recovery → World → Prop}
    {post : Recovery → World → Prop} (hp : Ends g mid callback l t)
    (hok : ∀ l' t' steps, mid (.ok ()) l' t' → post { l' with steps := steps } t')
    (herror : ∀ e l' t' steps, mid (.error e) l' t' →
      post { l' with steps := steps, errors := l'.errors ++ [e] } t') :
    Ends g (fun _ l' t' => post l' t') (attemptStep action callback) l t := by
  have hstep : Ends g
      (fun r l' t' => either (fun e => mid (.error e) l' t') (fun _ => post l' t') r) (do
      callback
      assign fun recovery => { recovery with
        steps := recovery.steps ++ [{ action := action, status := .completed }] }) l t :=
    meets_bind hp (fun _ l1 t1 h1 => meets_assign (hok l1 t1 _ h1)) fun _ _ _ h1 => h1
  exact meets_catching hstep (fun _ _ _ h1 => h1) fun e l1 t1 h1 =>
    meets_assign (herror e l1 t1 _ h1)

/-- After the step that restores the active state, if there is one. -/
lemma meets_restoreStep (h : Recoverable P progress t)
    (hl : l.activeRestored = !progress.activeWritten) :
    Ends g (fun _ l' t' => Undone P progress l' t')
      (onlyIf progress.activeWritten (attemptStep "restore-active" (restoreActive progress))) l
      t := by
  cases hwritten : progress.activeWritten with
  | false => exact meets_pure ⟨h.sound, fun _ hnew => h.unnamed hnew hwritten⟩
  | true =>
    rw [hwritten] at hl
    exact meets_attemptStep (meets_restoreActive h hwritten hl)
      (fun l1 t1 _ h1 => ⟨h1.sound, h1.unnamed⟩) fun e l1 t1 _ h1 => ⟨h1.sound, h1.unnamed⟩

/-- The installed version is removed only if it is not the active one. -/
lemma meets_removeInstalled (h : Undone P progress l t) (hnew : progress.installedNew = true)
    (hversion : progress.core = some version) :
    Ends g (fun _ _ t' => Sound P t') (removeInstalled version) l t := by
  refine meets_locals_bind ?_
  split
  case isTrue hrestored =>
    have hremove : Touches {Path.core version, Path.metadata version}
        (perform (.removeVersion version) : Steps Recovery Unit) :=
      Routine.within_perform (by simp [Cmd.touched])
    refine (Touches.meets (within_attemptStep hremove)).weaken ?_
    rintro r l' t' ⟨hfiles, -⟩
    refine h.sound.keep (hfiles _ (by simp)) fun v hnames => hfiles _ ?_
    have hne : v ≠ version := fun heq => h.unnamed hrestored hnew version hversion (heq ▸ hnames)
    simp [hne]
  case isFalse => exact meets_assign h.sound

/-- The compensation of an upgrade keeps the data root sound. -/
lemma meets_compensateUpgrade (h : Recoverable P progress t)
    (hl : l.activeRestored = !progress.activeWritten) :
    Ends g (fun _ _ t' => Sound P t') (compensateUpgrade progress) l t := by
  refine meets_bind (apart_onlyFor fun previousCore =>
      (apart_attemptStep (apart_quiet rfl)).onlyIf).same ?_
    fun e l1 t1 h1 => h.sound.congr h1.1
  rintro _ l1 t1 ⟨hsame1, hl1⟩
  refine meets_bind (apart_attemptStep (apart_restoreBridge ordinary_inessential.bridge
    ordinary_inessential.temporary ordinary_inessential.backup (fun _ => rfl) _)).onlyIf.same ?_
    fun e l2 t2 h2 => h.sound.congr (hsame1.trans h2.1)
  rintro _ l2 t2 ⟨hsame2, hl2⟩
  refine meets_bind (apart_attemptStep (apart_restoreBridge ordinary_inessential.serviceBridge
    ordinary_inessential.temporary ordinary_inessential.backup (fun _ => rfl) _)).onlyIf.same ?_
    fun e l3 t3 h3 => h.sound.congr (hsame1.trans (hsame2.trans h3.1))
  rintro _ l3 t3 ⟨hsame3, hl3⟩
  have hrecoverable := h.congr rfl (hsame1.trans (hsame2.trans hsame3))
  have hrestored := hl3.trans (hl2.trans (hl1.trans hl))
  refine meets_bind (meets_restoreStep hrecoverable hrestored) ?_ fun e l4 t4 h4 => h4.sound
  intro _ l4 t4 hundone
  refine meets_locals_bind (meets_bind (apart_onlyFor fun previousCore =>
      (apart_attemptStep (apart_quiet rfl)).onlyIf).same ?_
    fun e l5 t5 h5 => hundone.sound.congr h5.1)
  rintro _ l5 t5 ⟨hsame5, hl5⟩
  have hundone5 := hundone.congr hl5 hsame5
  have hremove : Ends g (fun _ _ t' => Sound P t')
      (onlyFor (fun version => onlyIf progress.installedNew (removeInstalled version))
        progress.core) l5 t5 := by
    cases hcore : progress.core with
    | none => exact meets_pure hundone5.sound
    | some version =>
      cases hnew : progress.installedNew with
      | false => exact meets_pure hundone5.sound
      | true => exact meets_removeInstalled hundone5 hnew hcore
  refine meets_bind hremove ?_ fun e l6 t6 h6 => h6
  intro _ l6 t6 hsound
  exact meets_locals_bind (meets_pure hsound)

/-- Undoing a failed upgrade keeps the data root sound. -/
lemma meets_undo (h : Recoverable P progress t) :
    Ends g (fun _ _ t' => Sound P t') (undo progress) m t := by
  unfold undo
  split
  case isFalse => exact meets_pure h.sound
  case isTrue =>
    have hcompensate : Ends g (fun _ _ t' => Sound P t')
        (enclosed (compensateUpgrade progress) { activeRestored := !progress.activeWritten }) m
        t := meets_enclosed (meets_compensateUpgrade h rfl)
    refine meets_bind hcompensate ?_ fun e l1 t1 h1 => h1
    intro result l1 t1 hsound
    exact meets_assign_bind (meets_pure hsound)

/-- A failed upgrade leaves the data root sound. -/
lemma meets_failUpgrade {α : Type} (err : Failure) (h : Recoverable P m t) :
    Ends g (fun _ _ t' => Sound P t')
      (failUpgrade err : Steps Progress α) m t := by
  refine meets_locals_bind (meets_raiseIf_bind (fun _ => h.sound) fun _ => ?_)
  refine meets_bind ((apart_quiet rfl).catching fun e =>
    apart_blockCompensation ordinary_inessential err e).onlyIf.same ?_
    fun e l1 t1 h1 => h.sound.congr h1.1
  rintro _ l1 t1 ⟨hsame1, -⟩
  refine meets_bind (meets_undo (h.congr rfl hsame1)) ?_ fun e l2 t2 h2 => h2
  intro errors l2 t2 hsound
  refine meets_bind (apart_writeJournal ordinary_inessential _ _).onlyIf.same ?_
    fun e l3 t3 h3 => hsound.congr h3.1
  rintro _ l3 t3 ⟨hsame3, -⟩
  have hsound3 := hsound.congr hsame3
  exact meets_raiseIf_bind (fun _ => hsound3) fun _ => meets_raise hsound3

lemma careful_congr {x : Choice} {c : Cmd} {s : World} (hsame : Same t t')
    (h : Careful t version x c s) : Careful t' version x c s := by
  unfold Careful Incomplete at h ⊢
  rw [hsame.core, hsame.metadata]
  exact h

lemma Same.of_files (h : t'.files = t.files) : Same t t' :=
  ⟨congrFun h _, fun _ => congrFun h _, fun _ => congrFun h _⟩

/-- An upgrade keeps the data root sound. -/
lemma meets_upgrade (hw : Sound P t) {request : UpgradeRequest}
    (hg : ∀ x c s, g x c s → Careful t request.toVersion x c s) :
    Ends g (fun _ _ t' => Sound P t') (upgrade P request) {} t := by
  refine meets_upgrade_of (fun _ t1 hfiles _ => hw.congr (.of_files hfiles)) ?_
  intro t1 hfiles _
  have hsame : Same t t1 := .of_files hfiles
  have hsettle : Ends g (fun _ _ t' => Sound P t')
      (catching (upgradeTransaction P request) failUpgrade) {} t1 := by
    refine meets_catching (meets_upgradeTransaction (hw.congr hsame) fun x c s hx =>
      careful_congr hsame (hg x c s hx)) (fun a l4 t4 h4 => h4.sound) ?_
    intro e l4 t4 hrecoverable
    exact meets_failUpgrade e hrecoverable
  refine meets_lastly hsettle ?_
  intro r l4 t4 hsound
  exact (meets_quiet (c := .release) rfl).weaken fun _ _ t5 h5 => hsound.congr h5.1

end Compensation

/-! ## Upgrades -/

/-- Whatever fails in an upgrade, the active version keeps its Core: if `active.json` is absent or
names a version whose directory holds its Core, so it is when the call returns or throws, unless a
file of the version was missing at first and the write of the active state throws although the new
state is in place, or the rename of the metadata of the active version is refused. -/
theorem upgrade_keeps_core (P : Platform) (request : UpgradeRequest) (w t : World)
    (r : Except Failure CallResult) (hw : Sound P w)
    (hrun : Settles (dataRoot.guard (Careful w request.toVersion)) (upgrade P request) {} w r t) :
    Sound P t := by
  obtain ⟨l, hsound⟩ := (meets_upgrade hw fun _ _ _ hx => hx).of_settles hrun
  exact hsound

/-! ### A first installation -/

/-- A digest of one repeated character. -/
def sampleDigest (c : Char) : String := String.ofList (List.replicate 64 c)

/-- A platform that tells empty files from others. -/
def samplePlatform : Platform where
  checksum value := if value = [] then sampleDigest '0' else sampleDigest 'a'
  target :=
    { id := "linux-x64"
      fileName := "agentbell-core"
      bridgeFileName := "agentbell-bridge" }
  windows := false
  now := "2026-01-01T00:00:00.000Z"

/-- A release of version `0.3.1`. -/
def sampleBundle : Bundle where
  core := some [1]
  bridge := some []
  coreChecksum := sampleDigest 'a'
  bridgeChecksum := sampleDigest '0'
  signatureStatus := technicalPreview
  manifestSchema := 1
  manifestVersion := "0.3.1"

/-- A data root without anything. -/
def emptyRoot : World where
  files _ := none

/-- Steps that work. -/
def smooth (n : Nat) : List Choice := List.replicate n .works

/-- The first installation of version `0.3.1`, up to the rename of the active state. -/
def sampleInstallation (id : String) : List Choice :=
  smooth 6 ++ [.named id] ++ smooth 20 ++ [.gives sampleBundle] ++ smooth 67

/-- Steps of writes work; the others may fail. -/
def plain (x : Choice) (c : Cmd) (w : World) : Bool :=
  c.write?.isNone ||
    match exec x c w with
    | some (.ok _, _) => true
    | _ => false

lemma careful_of_plain {w₀ : World} {version : String} {x : Choice} {c : Cmd} {w : World}
    (h : plain x c w = true) : Careful w₀ version x c w := by
  have hworks : ∀ write, c.write? = some write → ∀ e t, exec x c w ≠ some (.error e, t) := by
    intro write hwrite e t hexec
    simp [plain, hwrite, hexec] at h
  intro _
  refine ⟨fun state hwrite e t hexec => absurd hexec (hworks _ hwrite e t), ?_⟩
  rintro version value rfl _ text t hexec
  exact hworks _ rfl _ t hexec

/-- What the first installation activates. -/
def sampleState : ActiveState := upgradedState samplePlatform "0.3.1" "" sampleBundle 1 "t1"

/-- The first installation: the directory is synced after the rename of `active.json`, and that
fails, so that the version is removed although `active.json` names it. -/
theorem first_installation_loses_core : Sound samplePlatform emptyRoot ∧
      ∃ r t, Settles dataRoot (upgrade samplePlatform { toVersion := "0.3.1" }) {} emptyRoot r t ∧
        ¬ Sound samplePlatform t := by
  refine ⟨sound_of_absent rfl, ?_⟩
  obtain ⟨⟨⟨r, l⟩, t⟩, hrun, haccept⟩ := Prog.exists_run (M := dataRoot)
    (p := upgrade samplePlatform { toVersion := "0.3.1" } {}) (s := emptyRoot)
    (sampleInstallation "t1" ++ [.failsBefore ⟨false, "EIO: i/o error"⟩] ++ smooth 15)
    (fun o => o.2.files .active = some (.active sampleState) ∧ o.2.files (.core "0.3.1") = none)
    (by decide +kernel)
  obtain ⟨hactive, hcore⟩ := of_decide_eq_true haccept
  refine ⟨r, t, ⟨_, l, hrun⟩, fun hsound => ?_⟩
  have hsome := hsound.core_isSome ⟨sampleState, hactive, rfl⟩
  rw [show sampleState.activeVersion = "0.3.1" from rfl, hcore] at hsome
  cases hsome

/-- A release of version `0.3.2`. -/
def nextBundle : Bundle := { sampleBundle with manifestVersion := "0.3.2" }

/-- The upgrade to version `0.3.2`: the service does not start, and the upgrade is undone. -/
def failedUpgrade : List Choice :=
  smooth 4 ++ [.named "t2"] ++ smooth 21 ++ [.gives nextBundle] ++ smooth 70 ++
    [.failsBefore ⟨false, "the service did not start"⟩] ++ smooth 34

/-- The service does not start after an upgrade of the first installation, and the compensation
works: the version of before is active again and has its Core. -/
theorem failed_upgrade_keeps_core :
    ∃ w r t, w.files .active = some (.active sampleState) ∧ Sound samplePlatform w ∧
      Settles (dataRoot.guard (Careful w "0.3.2"))
        (upgrade samplePlatform { toVersion := "0.3.2" }) {} w r t ∧
      t.files .active = some (.active (restoredState sampleState 2 "t2")) ∧
      Sound samplePlatform t := by
  obtain ⟨⟨⟨r, l⟩, w⟩, ⟨⟨r', l'⟩, t⟩, hfirst, hsecond, haccept⟩ := Prog.exists_runs
    (M := dataRoot.checked plain) (p := upgrade samplePlatform { toVersion := "0.3.1" } {})
    (q := upgrade samplePlatform { toVersion := "0.3.2" } {}) (s := emptyRoot)
    (sampleInstallation "t1" ++ smooth 15) failedUpgrade
    (fun w o => w.files .active = some (.active sampleState) ∧
      o.2.files .active = some (.active (restoredState sampleState 2 "t2"))) (by decide +kernel)
  obtain ⟨hactive, hrestored⟩ := of_decide_eq_true haccept
  have hsound : Sound samplePlatform w :=
    upgrade_keeps_core samplePlatform { toVersion := "0.3.1" } emptyRoot w r (sound_of_absent rfl)
      ⟨_, l, Prog.run_guard (fun _ _ _ => careful_of_plain) hfirst⟩
  have hguard : Settles (dataRoot.guard (Careful w "0.3.2"))
      (upgrade samplePlatform { toVersion := "0.3.2" }) {} w r' t :=
    ⟨_, l', Prog.run_guard (fun _ _ _ => careful_of_plain) hsecond⟩
  exact ⟨w, r', t, hactive, hsound, hguard, hrestored,
    upgrade_keeps_core samplePlatform { toVersion := "0.3.2" } w t r' hsound hguard⟩

end AgentBell.Upgrade
