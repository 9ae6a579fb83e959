import AgentBell.Upgrade.Begun

/-!
# The installation of a version

A data root is sound when `active.json` is absent or names a version whose directory holds its Core.
The installation of a version keeps it sound, unless the metadata of the active version is missing
and cannot be moved into place.
-/

namespace AgentBell.Upgrade

open Interleaving

open Routine (raise raiseIf lift catching)

/-! ## Sound data roots -/

/-- The version of a state. -/
def Names (w : World) (version : String) : Prop :=
  ∃ state, w.files .active = some (.active state) ∧ state.activeVersion = version

/-- The directory of the version of a state holds a Core with the recorded digest. -/
def Holds (P : Platform) (w : World) (state : ActiveState) : Prop :=
  ∃ core, w.files (.core state.activeVersion) = some (.bytes core) ∧
    P.checksum core = state.checksum

/-- `active.json` is absent, or names a version whose directory holds a Core with the recorded
digest. -/
def Sound (P : Platform) (w : World) : Prop :=
  ∀ content, w.files .active = some content → ∃ state, content = .active state ∧ Holds P w state

/-- The directory of a version lacks its Core or its metadata. -/
def Incomplete (w : World) (version : String) : Prop :=
  w.files (.core version) = none ∨ w.files (.metadata version) = none

/-- Two data roots agree on the active state and on the versions. -/
structure Same (w t : World) : Prop where
  active : t.files .active = w.files .active
  core : ∀ version, t.files (.core version) = w.files (.core version)
  metadata : ∀ version, t.files (.metadata version) = w.files (.metadata version)

section Sound

variable {P : Platform} {w t s : World}

lemma Same.trans (h : Same w t) (h' : Same t s) : Same w s :=
  ⟨h'.active.trans h.active, fun v => (h'.core v).trans (h.core v),
    fun v => (h'.metadata v).trans (h.metadata v)⟩

lemma Holds.congr {state : ActiveState} (h : Holds P w state)
    (hcore : t.files (.core state.activeVersion) = w.files (.core state.activeVersion)) :
    Holds P t state := by
  obtain ⟨core, hfile, hchecksum⟩ := h
  exact ⟨core, hcore.trans hfile, hchecksum⟩

/-- A data root is sound when the active state is, or is none. -/
lemma sound_of_holds {state : ActiveState} (hfile : w.files .active = some (.active state))
    (h : Holds P w state) : Sound P w := by
  intro content hcontent
  exact ⟨state, Option.mem_unique hcontent hfile, h⟩

lemma sound_of_absent (h : w.files .active = none) : Sound P w := by
  intro content hcontent
  rw [h] at hcontent
  cases hcontent

/-- Soundness is kept when the active state is, and the Core of its version is. -/
lemma Sound.keep (h : Sound P w) (hactive : t.files .active = w.files .active)
    (hcore : ∀ version, Names w version → t.files (.core version) = w.files (.core version)) :
    Sound P t := by
  intro content hcontent
  rw [hactive] at hcontent
  obtain ⟨state, rfl, hholds⟩ := h content hcontent
  exact ⟨state, rfl, hholds.congr (hcore _ ⟨state, hcontent, rfl⟩)⟩

lemma Sound.congr (h : Sound P w) (hsame : Same w t) : Sound P t :=
  h.keep hsame.active fun version _ => hsame.core version

lemma names_congr {version : String} (hactive : t.files .active = w.files .active) :
    Names t version ↔ Names w version := by
  unfold Names
  rw [hactive]

/-- The Core of the active version is there. -/
lemma Sound.core_isSome {version : String} (h : Sound P w) (hnames : Names w version) :
    (w.files (.core version)).isSome := by
  obtain ⟨state, hfile, rfl⟩ := hnames
  obtain ⟨state', hstate, core, hcore, -⟩ := h _ hfile
  cases hstate
  rw [hcore]
  rfl

end Sound

/-- The files that are neither the active state nor part of a version. -/
def inessential : Set Path :=
  {path | path ≠ .active ∧ ∀ version, path ≠ .core version ∧ path ≠ .metadata version}

lemma ordinary_inessential : Ordinary inessential := by
  constructor <;> simp [inessential]

/-- A routine that writes to the other files only. -/
lemma Touches.same {ℓ α : Type} {g : Guard} {p : Steps ℓ α} {l : ℓ}
    {w : World} (hp : Touches inessential p) :
    Ends g (fun _ _ t => Same w t) p l w := by
  refine hp.meets.weaken fun _ _ t h => ⟨h.1 _ ?_, fun v => h.1 _ ?_, fun v => h.1 _ ?_⟩
  · simp [inessential]
  · simp [inessential]
  · simp [inessential]

/-! ## Conditions on the environment -/

/-- No step of the write of a new active state fails while the new state is in place. -/
def Untorn (x : Choice) (c : Cmd) (w : World) : Prop :=
  ∀ state, c.write? = some (.activation state) → ∀ e t, exec x c w = some (.error e, t) →
    t.files .active ≠ some (.active state)

/-- The metadata of the active version can be moved into place: the rename is not refused. -/
def Accepted (x : Choice) (c : Cmd) (w : World) : Prop :=
  ∀ version value, c = .replace (.metadata version value) → Names w version →
    ∀ text t, exec x (.replace (.metadata version value)) w ≠ some (.error (.refused text), t)

/-! ## The installation -/

section Install

variable {g : Guard} {ℓ : Type} {l : ℓ} {P : Platform} {w s : World}

/-- A check touches nothing and does not find anything missing. -/
lemma meets_check {label : String} :
    Ends g (fun r l' t => l' = l ∧ t = w ∧
      match r with
      | .ok _ => True
      | .error e => e ≠ .missing)
      (perform (.check label)) l w := by
  refine meets_step fun x r t hg hexec => ⟨rfl, ?_⟩
  rcases attempt_cases hexec with ⟨-, rfl, rfl⟩ | ⟨fault, -, rfl, rfl⟩ | ⟨fault, -, rfl, rfl⟩
  · exact ⟨rfl, trivial⟩
  · exact ⟨rfl, failure_ne_missing fault⟩
  · exact ⟨rfl, failure_ne_missing fault⟩

lemma asMetadata_ne_missing {version : String} {content : Content} {e : Failure}
    (h : asMetadata version content = .error e) : e ≠ .missing := by
  unfold asMetadata at h
  split at h
  · split at h
    · cases h
      simp
    · cases h
  · cases h
    simp

/-- The metadata of a version is missing only if one of its files is. -/
lemma meets_installedMetadata {version : String} :
    Ends g (fun r l' t => l' = l ∧ t = w ∧
      match r with
      | .ok _ => True
      | .error e => e = .missing → Incomplete w version)
      (installedMetadata P version) l w := by
  refine meets_bind meets_check ?_ ?_
  swap
  · rintro e l' t ⟨rfl, rfl, hmissing⟩
    exact ⟨rfl, rfl, fun h => absurd h hmissing⟩
  rintro a l' t ⟨rfl, rfl, -⟩
  refine meets_bind meets_read ?_ ?_
  swap
  · rintro e l1 t1 ⟨rfl, rfl, hmissing⟩
    exact ⟨rfl, rfl, fun h => .inr (hmissing h)⟩
  rintro document l1 t1 ⟨rfl, rfl, -⟩
  have hlift : Ends g (fun r l' t => l' = l1 ∧ t = t1 ∧
      ∀ e, r = .error e → e ≠ .missing) (lift (asMetadata version document)) l1 t1 :=
    meets_lift ⟨rfl, rfl, fun e he => asMetadata_ne_missing he⟩
  refine meets_bind hlift ?_ ?_
  swap
  · rintro e l2 t2 ⟨rfl, rfl, hmissing⟩
    exact ⟨rfl, rfl, fun h => absurd h (hmissing e rfl)⟩
  rintro metadata l2 t2 ⟨rfl, rfl, -⟩
  refine meets_bind meets_read ?_ ?_
  swap
  · rintro e l3 t3 ⟨rfl, rfl, hmissing⟩
    exact ⟨rfl, rfl, fun h => .inl (hmissing h)⟩
  rintro core l3 t3 ⟨rfl, rfl, -⟩
  have hraise : ∀ (bad : Prop) [Decidable bad] (text : String), Ends g
      (fun r l' t => l' = l3 ∧ t = t3 ∧ ∀ e, r = .error e → e ≠ .missing)
      (raiseIf bad (.other text)) l3 t3 := by
    intro bad _ text
    refine meets_raiseIf (fun _ => ⟨rfl, rfl, fun e he => ?_⟩) fun _ =>
      ⟨rfl, rfl, nofun⟩
    cases he
    simp
  refine meets_bind (hraise _ _) ?_ ?_
  swap
  · rintro e l4 t4 ⟨rfl, rfl, hmissing⟩
    exact ⟨rfl, rfl, fun h => absurd h (hmissing e rfl)⟩
  rintro _ l4 t4 ⟨rfl, rfl, -⟩
  refine meets_bind (hraise _ _) ?_ ?_
  · rintro _ l5 t5 ⟨rfl, rfl, -⟩
    exact meets_pure ⟨rfl, rfl, trivial⟩
  · rintro e l5 t5 ⟨rfl, rfl, hmissing⟩
    exact ⟨rfl, rfl, fun h => absurd h (hmissing e rfl)⟩

/-- A conditional exception that is not `ENOENT`. -/
lemma meets_raiseIf_other {bad : Prop} [Decidable bad] {text : String} :
    Ends g (fun r l' t => l' = l ∧ t = w ∧
      match r with
      | .ok _ => ¬ bad
      | .error e => e ≠ .missing)
      (raiseIf bad (.other text)) l w :=
  meets_raiseIf (fun _ => ⟨rfl, rfl, by simp⟩) fun h => ⟨rfl, rfl, h⟩

/-- A digest that is not empty is one of bytes. -/
lemma exists_bytes {content : Content} {checksum : String} (hhex : Relay.isLowerHex 64 checksum)
    (h : P.checksumOf content = checksum) :
    ∃ core, content = .bytes core ∧ P.checksum core = checksum := by
  cases content with
  | bytes core => exact ⟨core, rfl, h⟩
  | _ =>
    obtain rfl : "" = checksum := h
    exact absurd hhex (by decide)

variable {version id : String} {bundle : Bundle}

/-- The version that is already there: only its metadata may change, and it counts as missing only
if one of its files is and it is not the active one. -/
lemma meets_checkExisting (hw : Sound P w) (hhex : Relay.isLowerHex 64 bundle.coreChecksum)
    (hg : Incomplete w version → ∀ x c s, g x c s → Accepted x c s) :
    Ends g (fun r l' t => l' = l ∧ t.files .active = w.files .active ∧
      (∀ v, t.files (.core v) = w.files (.core v)) ∧
      match r with
      | .ok _ => ∃ core, w.files (.core version) = some (.bytes core) ∧
          P.checksum core = bundle.coreChecksum
      | .error e => e = .missing → Incomplete w version ∧ ¬ Names w version)
      (checkExisting P version bundle id) l w := by
  refine meets_bind meets_read ?_ ?_
  swap
  · rintro e l' t ⟨rfl, rfl, hmissing⟩
    refine ⟨rfl, rfl, fun _ => rfl, fun h => ⟨.inl (hmissing h), fun hnames => ?_⟩⟩
    have hsome := hw.core_isSome hnames
    rw [hmissing h] at hsome
    cases hsome
  rintro existing l' t ⟨rfl, rfl, hexisting⟩
  have hcore : t.files (.core version) = some existing := hexisting
  refine meets_bind meets_raiseIf_other ?_ ?_
  swap
  · rintro e l1 t1 ⟨rfl, rfl, hmissing⟩
    exact ⟨rfl, rfl, fun _ => rfl, fun h => absurd h hmissing⟩
  rintro _ l1 t1 ⟨rfl, rfl, hchecksum⟩
  obtain ⟨core, rfl, hbytes⟩ := exists_bytes hhex (not_not.mp hchecksum)
  have hcheck : Ends g (fun r l' t => l' = l1 ∧ t = t1 ∧ match r with
      | .ok _ => True
      | .error e => e = .missing → Incomplete t1 version)
      (do
        let cached ← installedMetadata P version
        raiseIf (¬ cached.agrees bundle)
          (.other ("Installed Core " ++ version ++ " conflicts with the release metadata.")))
      l1 t1 := by
    refine meets_bind meets_installedMetadata ?_ ?_
    · rintro cached l2 t2 ⟨rfl, rfl, -⟩
      refine meets_raiseIf_other.weaken ?_
      rintro (e | a) l3 t3 ⟨rfl, rfl, h⟩
      · exact ⟨rfl, rfl, fun heq => absurd heq h⟩
      · exact ⟨rfl, rfl, trivial⟩
    · rintro e l2 t2 ⟨rfl, rfl, h⟩
      exact ⟨rfl, rfl, h⟩
  refine meets_catching hcheck ?_ ?_
  · rintro a l2 t2 ⟨rfl, rfl, -⟩
    exact ⟨rfl, rfl, fun _ => rfl, core, hcore, hbytes⟩
  rintro e l2 t2 ⟨rfl, rfl, hincomplete⟩
  cases e with
  | missing =>
    refine (meets_atomicWrite (.metadata version (newMetadata P version bundle id)) t2).weaken ?_
    rintro r l3 t3 ⟨rfl, hending⟩
    have hframe := hending.frame
    refine ⟨rfl, hframe _ (by simp [Write.path]) (by simp) (by simp),
      fun v => hframe _ (by simp [Write.path]) (by simp) (by simp), ?_⟩
    cases r with
    | ok a => exact ⟨core, hcore, hbytes⟩
    | error e =>
      intro hmissing
      refine ⟨hincomplete rfl, fun hnames => ?_⟩
      obtain ⟨x, text, s, t', hs, hx, hexec⟩ := hending.2.1 hmissing
      have hactive : s.files .active = t2.files .active :=
        hs _ (by simp [Write.path]) (by simp) (by simp)
      exact hg (hincomplete rfl) x _ s hx version _ rfl ((names_congr hactive).mpr hnames) text t'
        hexec
  | refused text => exact meets_raise ⟨rfl, rfl, fun _ => rfl, by simp⟩
  | other text => exact meets_raise ⟨rfl, rfl, fun _ => rfl, by simp⟩
  | rejected text => exact meets_raise ⟨rfl, rfl, fun _ => rfl, by simp⟩
  | aggregate text => exact meets_raise ⟨rfl, rfl, fun _ => rfl, by simp⟩

/-- The files of the installation of a version. -/
def installationScope (version id : String) : Set Path :=
  {.core version, .metadata version, .stagedCore id, .stagedMetadata id, .temporary, .backup}

lemma apart_stageVersion {γ : Type} (aspect : ℓ → γ) (P : Platform) (bundle : Bundle) :
    Apart (installationScope version id) aspect
      (stageVersion P version bundle id : Steps ℓ Unit) := by
  refine (apart_perform ?_).bind fun _ =>
    (apart_perform ?_).bind fun _ =>
      (apart_quiet rfl).bind fun _ =>
        (apart_atomicWrite ?_ ?_ ?_).bind fun _ => (apart_atomicWrite ?_ ?_ ?_).bind fun _ =>
          (apart_perform ?_).bind fun _ => apart_quiet rfl
  all_goals simp [installationScope, Cmd.touched, Write.path]

/-- The staged files are moved into place. -/
lemma files_moveStaging (w : World) :
    (w.moveStaging id version).files (.core version) = w.files (.stagedCore id) := by
  simp [World.moveStaging, World.move, World.put, Function.update]

lemma touches_anything (c : Cmd) : Touches Set.univ (perform c : Steps ℓ (Reply c)) :=
  Routine.within_perform fun _ _ => trivial

/-- A staged version has the Core of the bundle. -/
lemma meets_stageVersion :
    Ends g (fun r _ t => ∀ a, r = .ok a →
      t.files (.core version) = some (.bytes (bundle.core.getD [])))
      (stageVersion P version bundle id) l w := by
  refine meets_bind (touches_anything (.removeVersion version)).meets ?_
    fun _ _ _ _ => by rintro _ ⟨⟩
  intro _ l1 t1 _
  refine meets_bind (touches_anything (.removeStaging id)).meets ?_
    fun _ _ _ _ => by rintro _ ⟨⟩
  intro _ l2 t2 _
  refine meets_bind (touches_anything (.makeStaging id)).meets ?_
    fun _ _ _ _ => by rintro _ ⟨⟩
  intro _ l3 t3 _
  refine meets_bind (meets_atomicWrite _ t3) ?_ (fun e l' t _ a h => by cases h)
  rintro _ l4 t4 ⟨-, _, _, hcore⟩
  refine meets_bind (meets_atomicWrite _ t4) ?_ (fun e l' t _ a h => by cases h)
  rintro _ l5 t5 ⟨-, _, _, hmetadata⟩
  have hstaged : t5.files (.stagedCore id) = some (.bytes (bundle.core.getD [])) :=
    (hmetadata.others _ (by simp [Write.path]) (by simp) (by simp)).trans hcore.file
  have hmove : Ends g (fun r _ t => ∀ a, r = .ok a →
      t.files (.core version) = some (.bytes (bundle.core.getD [])))
      (perform (.moveStaging id version)) l5 t5 := by
    refine meets_step fun x r t _ hexec a ha => ?_
    subst ha
    have hmove : moveStaging x id version t5 = some (.ok a, t) := hexec
    unfold moveStaging at hmove
    split at hmove
    · obtain ⟨-, ⟨-, h⟩ | ⟨_, -, h⟩⟩ := answer_cases hmove <;> cases h
    · rcases attempt_cases hmove with ⟨-, -, rfl⟩ | ⟨_, -, h, -⟩ | ⟨_, -, h, -⟩
      · rw [files_moveStaging, hstaged]
      · cases h
      · cases h
  refine meets_bind hmove ?_ fun _ _ _ _ => by rintro _ ⟨⟩
  intro _ l6 t6 hfile
  have hsync : Touches ∅ (perform .syncVersions : Steps ℓ Unit) := touches_quiet rfl
  refine hsync.meets.weaken ?_
  rintro r l7 t7 ⟨hfiles, -⟩ a -
  rw [hfiles _ (by simp)]
  exact hfile _ rfl

/-- Whether a version is there. -/
lemma meets_present (hw : Sound P w) (hhex : Relay.isLowerHex 64 bundle.coreChecksum)
    (hg : Incomplete w version → ∀ x c s, g x c s → Accepted x c s) :
    Ends g (fun r l' t => l' = l ∧ t.files .active = w.files .active ∧
      (∀ v, t.files (.core v) = w.files (.core v)) ∧
      match r with
      | .ok true => ∃ core, w.files (.core version) = some (.bytes core) ∧
          P.checksum core = bundle.coreChecksum
      | .ok false => Incomplete w version ∧ ¬ Names w version
      | .error _ => True)
      (catching (do
          checkExisting P version bundle id
          return true)
        fun
          | .missing => return false
          | err => raise err) l w := by
  refine meets_catching_map (meets_checkExisting hw hhex hg) ?_ ?_
  · rintro _ l' t ⟨rfl, hactive, hcores, hcore⟩
    exact ⟨rfl, hactive, hcores, hcore⟩
  · rintro e l' t ⟨rfl, hactive, hcores, hmissing⟩
    cases e with
    | missing => exact meets_pure ⟨rfl, hactive, hcores, hmissing rfl⟩
    | _ => exact meets_raise ⟨rfl, hactive, hcores, trivial⟩

/-- The installation of a version keeps the active state, the Cores of the other versions and that
of the active version.  Afterwards the version has the Core of the bundle; it is reported as new
only if one of its files was missing and it is not the active one. -/
lemma meets_installVersion (hw : Sound P w) (hhex : Relay.isLowerHex 64 bundle.coreChecksum)
    (hbundle : P.checksum (bundle.core.getD []) = bundle.coreChecksum)
    (hg : Incomplete w version → ∀ x c s, g x c s → Accepted x c s) :
    Ends g (fun r l' t => l' = l ∧ t.files .active = w.files .active ∧
      (∀ v, v ≠ version → t.files (.core v) = w.files (.core v)) ∧
      (Names w version → t.files (.core version) = w.files (.core version)) ∧
      ∀ new, r = .ok new → (∃ core, t.files (.core version) = some (.bytes core) ∧
          P.checksum core = bundle.coreChecksum) ∧
        (new = true → Incomplete w version ∧ ¬ Names w version))
      (installVersion P version bundle id) l w := by
  refine meets_bind meets_check ?_ ?_
  swap
  · rintro e l1 t1 ⟨rfl, rfl, -⟩
    exact ⟨rfl, rfl, fun _ _ => rfl, fun _ => rfl, nofun⟩
  rintro _ l1 t1 ⟨rfl, rfl, -⟩
  refine meets_bind (meets_present hw hhex hg) ?_ ?_
  swap
  · rintro e l2 t2 ⟨rfl, hactive, hcores, -⟩
    exact ⟨rfl, hactive, fun v _ => hcores v, fun _ => hcores version, nofun⟩
  rintro present l2 t2 ⟨rfl, hactive, hcores, hpresent⟩
  cases present with
  | true =>
    obtain ⟨core, hcore, hbytes⟩ := hpresent
    refine meets_pure ⟨rfl, hactive, fun v _ => hcores v, fun _ => hcores version, ?_⟩
    intro new hnew
    cases hnew
    exact ⟨⟨core, (hcores version).trans hcore, hbytes⟩, nofun⟩
  | false =>
    obtain ⟨hincomplete, hnames⟩ : Incomplete t1 version ∧ ¬ Names t1 version := hpresent
    have hstage : Apart (installationScope version id) (fun l : ℓ => l) _ :=
      apart_stageVersion _ P bundle
    refine meets_bind (hstage.steady.meets.both
      (hstage.touches.meets.both meets_stageVersion)) ?_ ?_
    · rintro a l3 t3 ⟨rfl, ⟨hfiles, -⟩, hcore⟩
      refine meets_pure ⟨rfl, ?_, ?_, fun h => absurd h hnames, ?_⟩
      · rw [hfiles _ (by simp [installationScope]), hactive]
      · intro v hv
        rw [hfiles _ (by simp [installationScope, hv]), hcores]
      · exact fun new _ => ⟨⟨_, hcore a rfl, hbundle⟩, fun _ => ⟨hincomplete, hnames⟩⟩
    · rintro e l3 t3 ⟨rfl, ⟨hfiles, -⟩, hcore⟩
      refine ⟨rfl, ?_, ?_, fun h => absurd h hnames, nofun⟩
      · rw [hfiles _ (by simp [installationScope]), hactive]
      · intro v hv
        rw [hfiles _ (by simp [installationScope, hv]), hcores]

end Install

end AgentBell.Upgrade
