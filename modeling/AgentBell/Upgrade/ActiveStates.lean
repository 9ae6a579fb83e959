import AgentBell.Installstate.State
import AgentBell.Upgrade.Generations

/-!
# The active states the bootstrap writes

Every active state the bootstrap writes is built by an upgrade, a repair, a rollback or a
compensation from versions, states, bundles and metadata it has checked.  The bridge has stricter
versions, asks for two different versions and for a target it knows, and looks at the digest of a
service bridge on every platform.
-/

namespace AgentBell.Upgrade

open Interleaving

open Routine (assign catching issues_raiseIf_bind issues_locals_bind issues_assign_bind
  issues_lift_bind within_assign within_locals within_pure within_perform within_raise
  within_raiseIf)

open Relay (isLowerHex)

open Installstate (hasPaddedNumber allowedTargets isTransactionID Accepts Shaped Suits)

/-! ## Targets and ids -/

/-- The platforms of the bootstrap, with the names and the file extension of their releases. -/
def targets : List ((String × String) × String × String × String) :=
  [(("win32", "x64"), "windows", "amd64", ".exe"), (("win32", "arm64"), "windows", "arm64", ".exe"),
    (("darwin", "x64"), "darwin", "amd64", ""), (("darwin", "arm64"), "darwin", "arm64", ""),
    (("linux", "x64"), "linux", "amd64", ""), (("linux", "arm64"), "linux", "arm64", "")]

/-- The release files of a platform. -/
def resolveTarget (platform architecture : String) : Except String Target :=
  match targets.lookup (platform, architecture) with
  | none => .error ("AgentBell Core does not support " ++ platform ++ "/" ++ architecture ++ ".")
  | some (os, arch, extension) =>
    .ok
      { id := os ++ "-" ++ arch
        fileName := "agentbell-" ++ os ++ "-" ++ arch ++ extension
        bridgeFileName := "agentbell-bridge-" ++ os ++ "-" ++ arch ++ extension
        serviceBridgeFileName :=
          if platform = "win32" then some ("agentbell-service-" ++ os ++ "-" ++ arch ++ extension)
          else none }

/-- The bridge knows the releases of the bootstrap. -/
lemma allowed_of_resolveTarget {platform architecture : String} {target : Target}
    (h : resolveTarget platform architecture = .ok target) : target.id ∈ allowedTargets := by
  have hknown : ∀ entry ∈ targets, entry.2.1 ++ "-" ++ entry.2.2.1 ∈ allowedTargets := by decide
  unfold resolveTarget at h
  split at h
  · cases h
  · rename_i os arch extension hlookup
    obtain rfl := Except.ok.inj h
    obtain ⟨before, after, htargets, -⟩ := List.lookup_eq_some_iff.mp hlookup
    exact hknown ((platform, architecture), os, arch, extension) (by simp [htargets])

/-- An id of a transaction: a time in milliseconds and twelve random bytes. -/
def Drawn (id : String) : Prop :=
  ∃ (now : Nat) (random : String), now < 10 ^ 16 ∧ isLowerHex 24 random = true ∧
    id = toString now ++ "-" ++ random

/-- The bridge takes the ids of the bootstrap. -/
lemma Drawn.isTransactionID {id : String} (h : Drawn id) :
    Installstate.isTransactionID id = true := by
  obtain ⟨now, random, hnow, hrandom, rfl⟩ := h
  obtain ⟨first, digits, hdigits⟩ :=
    List.exists_cons_of_ne_nil (Nat.toDigits_ne_nil (n := now) (b := 10))
  have hlength := Nat.toDigits_length 10 now 16 (by decide) hnow
  have hdigit : ∀ c ∈ first :: digits, c.isDigit = true := fun c hc =>
    Nat.isDigit_of_mem_toDigits (by decide) le_rfl (hdigits ▸ hc)
  have halphanum : ∀ c : Char, c.isDigit = true → c.isAlphanum = true := fun c hc => by
    simp [Char.isAlphanum, hc]
  have hhex : ∀ c ∈ "0123456789abcdef".toList, c.isAlphanum = true :=
    List.all_eq_true.mp (by decide +kernel)
  have htext : (toString now ++ "-" ++ random).toList =
      first :: (digits ++ '-' :: random.toList) := by
    simp [String.toList_append, hdigits]
  simp only [isLowerHex, Bool.and_eq_true, decide_eq_true_eq, List.all_eq_true,
    List.contains_iff_mem] at hrandom
  rw [hdigits, List.length_cons] at hlength
  have hsize : (digits ++ '-' :: random.toList).length ≤ 127 := by
    rw [List.length_append, List.length_cons, hrandom.1]
    omega
  have hrest : ∀ c ∈ digits ++ '-' :: random.toList,
      (c.isAlphanum || c = '.' || c = '_' || c = '-') = true := by
    intro c hc
    simp only [List.mem_append, List.mem_cons] at hc
    rcases hc with hc | rfl | hc
    · simp [halphanum c (hdigit c (List.mem_cons_of_mem _ hc))]
    · decide
    · simp [hhex c (hrandom.2 c hc)]
  unfold Installstate.isTransactionID
  rw [htext]
  simp only [Bool.and_eq_true, decide_eq_true_eq, List.all_eq_true]
  exact ⟨⟨halphanum first (hdigit first List.mem_cons_self), hsize⟩, hrest⟩

/-! ## How an active state is built -/

/-- A state that passes the check of the bootstrap. -/
def Recognised (state : ActiveState) : Prop := validateActiveState (.active state) = .ok state

/-- What a new active state is built from. -/
inductive Build where
  | upgrade (previousVersion toVersion : String) (bundle : Bundle) (generation : Nat)
      (id : String)
  | repair (active : ActiveState) (bundle : Bundle) (generation : Nat) (id : String)
  | rollback (selection : Selection) (id : String)
  | restore (previous : ActiveState) (generation : Nat) (id : String)

/-- The state that is built. -/
def Build.state (P : Platform) : Build → ActiveState
  | .upgrade previousVersion toVersion bundle generation id =>
    upgradedState P toVersion previousVersion bundle generation id
  | .repair active bundle generation id => repairedState active bundle generation id
  | .rollback selection id => rolledBackState P selection id
  | .restore previous generation id => restoredState previous generation id

/-- A rollback goes from a state that passes the check to another version. -/
structure Selection.Checked (selection : Selection) : Prop where
  current : Recognised selection.current
  selected : isVersion selection.selected = true
  differs : selection.selected ≠ selection.current.activeVersion
  checksum : isLowerHex 64 selection.installed.checksum = true

/-- What the bootstrap has checked of what it builds a state from. -/
def Build.Checked (P : Platform) : Build → Prop
  | .upgrade previousVersion toVersion bundle generation id =>
    (previousVersion = "" ∨ isVersion previousVersion = true) ∧ isVersion toVersion = true ∧
      previousVersion ≠ toVersion ∧ validateBundle P toVersion bundle = .ok () ∧
      1 ≤ generation ∧ Drawn id
  | .repair active bundle generation id =>
    Recognised active ∧ validateBundle P active.activeVersion bundle = .ok () ∧
      1 ≤ generation ∧ Drawn id
  | .rollback selection id => selection.Checked ∧ Drawn id
  | .restore previous _ id => Recognised previous ∧ Drawn id

/-- A state that is kept has versions without padded numbers, two different ones, and a target
the bridge knows. -/
def ActiveState.Fits (state : ActiveState) : Prop :=
  hasPaddedNumber state.activeVersion = false ∧
    (∀ version, state.previousVersion = some version →
      hasPaddedNumber version = false ∧ version ≠ state.activeVersion) ∧
    (∀ version, state.serviceVersion = some version → hasPaddedNumber version = false) ∧
    state.target ∈ allowedTargets

/-- What the bridge asks of what a state is built from. -/
def Build.Fit : Build → Prop
  | .upgrade previousVersion toVersion bundle _ _ =>
    hasPaddedNumber previousVersion = false ∧ hasPaddedNumber toVersion = false ∧
      ∀ digest, bundle.serviceChecksum = some digest → isLowerHex 64 digest = true
  | .repair active bundle _ _ => active.Fits ∧
      ∀ digest, bundle.serviceChecksum = some digest → isLowerHex 64 digest = true
  | .rollback selection _ =>
    hasPaddedNumber selection.selected = false ∧
      hasPaddedNumber selection.current.activeVersion = false ∧
      (supportsM2Runtime selection.selected = false →
        ∀ version, selection.current.serviceVersion = some version →
          hasPaddedNumber version = false)
  | .restore previous _ _ => previous.Fits

/-- What the check of the bootstrap comes to. -/
lemma recognised_iff {state : ActiveState} :
    Recognised state ↔ Shaped state ∧ state.generation ≤ maxSafeInteger ∧
      (∀ digest, state.serviceBridgeChecksum = some digest → isLowerHex 64 digest = true) ∧
      state.transactionID ≠ "" := by
  have hall : ∀ (x : Option String) (f : String → Bool),
      x.all f = true ↔ ∀ a, x = some a → f a = true := by
    intro x f
    cases x with
    | none => simp
    | some a => simp
  have hnone : (state.serviceVersion.isNone ↔ state.serviceChecksum.isNone) ↔
      state.serviceVersion.isNone = state.serviceChecksum.isNone := Bool.eq_iff_iff.symm
  refine Iff.trans (Ne.ite_eq_left_iff (by simp)) ?_
  rw [hall, hall, hall, hall, hnone]
  constructor
  · rintro ⟨h1, h2, h3, h4, h5, h6, h7, h8, h9, h10, h11⟩
    exact ⟨⟨h1, h3, h4, h5, h6, h7, h8, h9⟩, h2, h10, h11⟩
  · rintro ⟨⟨h1, h3, h4, h5, h6, h7, h8, h9⟩, h2, h10, h11⟩
    exact ⟨h1, h2, h3, h4, h5, h6, h7, h8, h9, h10, h11⟩

/-- The digests of a bundle that passes its check. -/
lemma digests_of_validateBundle {P : Platform} {version : String} {bundle : Bundle}
    (h : validateBundle P version bundle = .ok ()) :
    isLowerHex 64 bundle.coreChecksum = true ∧ isLowerHex 64 bundle.bridgeChecksum = true := by
  unfold validateBundle at h
  split at h
  · cases h
  split at h
  · cases h
  rename_i _ hcore
  split at h
  · cases h
  rename_i hbridge
  rw [not_not] at hcore hbridge
  exact ⟨hcore.1, hbridge.1⟩

section Accepted

variable {P : Platform}

/-- A state that is built from what was checked has the form the bootstrap checks. -/
lemma Build.shaped {build : Build} (h : build.Checked P) : Shaped (build.state P) := by
  cases build with
  | upgrade previousVersion toVersion bundle generation id =>
    obtain ⟨hprevious, hto, -, hbundle, hgeneration, -⟩ := h
    have hdigests := digests_of_validateBundle hbundle
    refine ⟨hgeneration, hto, fun version hversion => ?_, rfl, nofun, nofun, hdigests.1, hdigests.2⟩
    simp only [state, upgradedState] at hversion
    split at hversion
    · cases hversion
    · obtain rfl := Option.some.inj hversion
      exact hprevious.resolve_left ‹_›
  | repair active bundle generation id =>
    obtain ⟨hactive, hbundle, hgeneration, -⟩ := h
    have hshaped := (recognised_iff.mp hactive).1
    have hdigests := digests_of_validateBundle hbundle
    exact ⟨hgeneration, hshaped.activeVersion, hshaped.previousVersion, hshaped.together,
      hshaped.serviceVersion, hshaped.serviceChecksum, hdigests.1, hdigests.2⟩
  | rollback selection id =>
    obtain ⟨hselection, -⟩ := h
    have hshaped := (recognised_iff.mp hselection.current).1
    refine ⟨Nat.le_add_left _ _, hselection.selected, fun version hversion => ?_, ?_,
      fun version hversion => ?_, fun digest hdigest => ?_, hselection.checksum,
      hshaped.bridgeChecksum⟩
    · obtain rfl := Option.some.inj hversion
      exact hshaped.activeVersion
    · simp only [state, rolledBackState]
      split <;> rfl
    · simp only [state, rolledBackState] at hversion
      split at hversion
      · cases hversion
      · obtain rfl := Option.some.inj hversion
        cases hservice : selection.current.serviceVersion with
        | none => exact hshaped.activeVersion
        | some version => exact hshaped.serviceVersion version hservice
    · simp only [state, rolledBackState] at hdigest
      split at hdigest
      · cases hdigest
      · obtain rfl := Option.some.inj hdigest
        cases hservice : selection.current.serviceChecksum with
        | none => exact hshaped.checksum
        | some digest => exact hshaped.serviceChecksum digest hservice
  | restore previous generation id =>
    have hshaped := (recognised_iff.mp h.1).1
    exact ⟨Nat.le_add_left _ _, hshaped.activeVersion, hshaped.previousVersion,
      hshaped.together, hshaped.serviceVersion, hshaped.serviceChecksum, hshaped.checksum,
      hshaped.bridgeChecksum⟩

/-- The id of a state that is built is one the bootstrap has drawn. -/
lemma Build.drawn {build : Build} (h : build.Checked P) :
    isTransactionID (build.state P).transactionID = true := by
  cases build with
  | upgrade => exact h.2.2.2.2.2.isTransactionID
  | repair => exact h.2.2.2.isTransactionID
  | rollback => exact h.2.isTransactionID
  | restore => exact h.2.isTransactionID

/-- A digest of a bundle that is not empty. -/
lemma ne_empty_of_serviceChecksum {bundle : Bundle} {digest : String}
    (h : bundle.serviceChecksum = some digest) : digest ≠ "" := by
  have hfilter := (Option.filter_eq_some_iff.mp h).2
  simpa using hfilter

/-- The bridge asks of a state that is built what it asks of what the state is built from. -/
lemma Build.suits_iff (hP : P.target.id ∈ allowedTargets) {build : Build}
    (h : build.Checked P) : Suits (build.state P) ↔ build.Fit := by
  have hid := build.drawn h
  cases build with
  | upgrade previousVersion toVersion bundle generation id =>
    obtain ⟨-, -, hdiffers, -, -, -⟩ := h
    constructor
    · intro hsuits
      refine ⟨?_, hsuits.activeVersion, fun digest hdigest =>
        hsuits.serviceBridgeChecksum digest hdigest (ne_empty_of_serviceChecksum hdigest)⟩
      by_cases hempty : previousVersion = ""
      · subst hempty
        decide
      · exact (hsuits.previousVersion previousVersion (by simp [state, upgradedState, hempty])).1
    · rintro ⟨hprevious, hto, hdigest⟩
      refine ⟨hto, fun version hversion => ?_, nofun, hP, fun digest h _ => hdigest digest h, hid⟩
      simp only [state, upgradedState] at hversion
      split at hversion
      · cases hversion
      · obtain rfl := Option.some.inj hversion
        exact ⟨hprevious, hdiffers⟩
  | repair active bundle generation id =>
    have hactive := (recognised_iff.mp h.1).2.2.1
    constructor
    · intro hsuits
      refine ⟨⟨hsuits.activeVersion, hsuits.previousVersion, hsuits.serviceVersion,
        hsuits.target⟩, fun digest hdigest => ?_⟩
      exact hsuits.serviceBridgeChecksum digest (by simp [state, repairedState, hdigest])
        (ne_empty_of_serviceChecksum hdigest)
    · rintro ⟨⟨h1, h2, h3, h4⟩, hdigest⟩
      refine ⟨h1, h2, h3, h4, fun digest hor _ => ?_, hid⟩
      rcases Option.or_eq_some_iff.mp hor with hor | ⟨-, hor⟩
      · exact hdigest digest hor
      · exact hactive digest hor
  | rollback selection id =>
    obtain ⟨hselection, -⟩ := h
    have hrecognised := recognised_iff.mp hselection.current
    constructor
    · intro hsuits
      have hcurrent := (hsuits.previousVersion _ rfl).1
      refine ⟨hsuits.activeVersion, hcurrent, fun hruntime version hversion => ?_⟩
      exact hsuits.serviceVersion version (by simp [state, rolledBackState, hruntime, hversion])
    · rintro ⟨hselected, hcurrent, hservice⟩
      refine ⟨hselected, fun version hversion => ?_, fun version hversion => ?_, hP,
        fun digest hdigest _ => hrecognised.2.2.1 digest hdigest, hid⟩
      · obtain rfl := Option.some.inj hversion
        exact ⟨hcurrent, hselection.differs.symm⟩
      · simp only [state, rolledBackState] at hversion
        split at hversion
        · cases hversion
        · rename_i hruntime
          obtain rfl := Option.some.inj hversion
          cases hold : selection.current.serviceVersion with
          | none => exact hcurrent
          | some version => exact hservice (Bool.eq_false_iff.mpr hruntime) version hold
  | restore previous generation id =>
    have hprevious := (recognised_iff.mp h.1).2.2.1
    constructor
    · intro hsuits
      exact ⟨hsuits.activeVersion, hsuits.previousVersion, hsuits.serviceVersion, hsuits.target⟩
    · rintro ⟨h1, h2, h3, h4⟩
      exact ⟨h1, h2, h3, h4, fun digest hdigest _ => hprevious digest hdigest, hid⟩

end Accepted

/-! ## What the calls write -/

/-- What the operations may return: anything, but the ids are drawn as the bootstrap draws them. -/
def Answers : (c : Cmd) → Except Failure (Reply c) → Prop
  | .newID, .ok id => Drawn id
  | _, _ => True

/-- If an operation replaces the active state, the state is built from what was checked. -/
def WritesChecked (P : Platform) (c : Cmd) : Prop :=
  ∀ state, c = .replace (.activation state) ∨ c = .replace (.restoration state) →
    ∃ build : Build, build.Checked P ∧ state = build.state P

/-- A routine that writes only active states that are built from what was checked. -/
abbrev Checks (P : Platform) {ℓ α : Type} (post : Except Failure α → ℓ → Prop)
    (p : Steps ℓ α) (l : ℓ) : Prop :=
  Routine.Issues Answers (WritesChecked P) post p l

section Writes

variable {P : Platform} {ℓ α : Type}

/-- A routine that does not touch the active state. -/
lemma Touches.writesChecked {p : Steps ℓ α} (hp : Touches Upgrade.elsewhere p) :
    p.Within (WritesChecked P) := by
  refine Routine.Within.mono hp fun c hc state hstate => ?_
  have hactive : Path.active ∈ c.touched := by
    rcases hstate with rfl | rfl <;> simp [Cmd.touched, Write.path]
  exact absurd rfl (hc .active hactive)

/-- An operation that touches nothing. -/
lemma writesChecked_quiet {c : Cmd} (h : c.touched = []) : WritesChecked P c := by
  rintro state (rfl | rfl) <;> cases h

lemma issues_quiet_bind {l : ℓ} {post : Except Failure α → ℓ → Prop} {c : Cmd}
    {next : Reply c → Steps ℓ α} (hc : c.touched = [])
    (hok : ∀ a, Answers c (.ok a) → Checks P post (next a) l)
    (herror : ∀ e, post (.error e) l) : Checks P post (perform c >>= next) l :=
  Routine.issues_perform_bind (writesChecked_quiet hc) hok herror

/-- A write of a state that is built from what was checked. -/
lemma within_write {write : Write} {build : Build} (hbuild : build.Checked P)
    (hwrite : write = .activation (build.state P) ∨ write = .restoration (build.state P)) :
    (atomicWrite write : Steps ℓ Unit).Within (WritesChecked P) := by
  refine within_atomicWrite fun c hc state hstate => ⟨build, hbuild, ?_⟩
  rcases hstate with rfl | rfl
  · obtain rfl := Option.some.inj hc
    rcases hwrite with h | h
    · exact Write.activation.inj h
    · cases h
  · obtain rfl := Option.some.inj hc
    rcases hwrite with h | h
    · cases h
    · exact Write.restoration.inj h

end Writes

/-! ### What is read -/

section Reads

variable {P : Platform} {ℓ : Type} {l : ℓ}

lemma issues_loadActive :
    Checks P (fun r _ => ∀ state, r = .ok state → Recognised state) loadActive l := by
  refine issues_quiet_bind rfl (fun content _ => ?_) fun e => nofun
  have hvalid : ∀ state, validateActiveState content = .ok state → Recognised state := by
    intro state hstate
    obtain rfl := eq_active_of_valid hstate
    exact hstate
  cases hcontent : validateActiveState content with
  | ok state =>
    rintro _ ⟨⟩
    exact hvalid state hcontent
  | error e => exact nofun

lemma issues_loadOptionalActive : Checks P
      (fun r _ => ∀ state, r = .ok (some state) → Recognised state) loadOptionalActive l := by
  have hread : Checks P (fun r _ => ∀ state, r = .ok (some state) → Recognised state)
      (do return some (← loadActive)) l := by
    refine issues_loadActive.bind (fun state l' h => ?_) fun e l' _ => nofun
    rintro _ ⟨⟩
    exact h state rfl
  refine hread.catching (fun found l' h => h) fun e l' _ => ?_
  cases e with
  | missing => exact nofun
  | _ => exact nofun

lemma issues_installedMetadata (version : String) :
    Checks P (fun r _ => ∀ metadata, r = .ok metadata → isLowerHex 64 metadata.checksum = true)
      (installedMetadata P version) l := by
  refine issues_quiet_bind rfl (fun _ _ => ?_) fun e => nofun
  refine issues_quiet_bind rfl (fun _ _ => ?_) fun e => nofun
  refine issues_lift_bind (fun e _ => nofun) fun metadata _ => ?_
  refine issues_quiet_bind rfl (fun core _ => ?_) fun e => nofun
  refine issues_raiseIf_bind (fun _ => nofun) fun hdescribes => ?_
  refine issues_raiseIf_bind (fun _ => nofun) fun _ => ?_
  rintro _ ⟨⟩
  simp only [not_not, InstallMetadata.describes, Bool.and_eq_true] at hdescribes
  exact hdescribes.1.1.1.2

lemma issues_installedVersions (versions : List String) :
    Checks P (fun r _ => ∀ found, r = .ok found → ∀ version ∈ found, version ∈ versions)
      (installedVersions P versions) l := by
  induction versions generalizing l with
  | nil =>
    rintro _ ⟨⟩
    exact fun _ h => h
  | cons version versions ih =>
    have hone : Checks P (fun r _ => ∀ found, r = .ok found → ∀ other ∈ found, other = version)
        (catching (do
            let _ ← installedMetadata P version
            return [version]) fun _ => return []) l := by
      have hfound : Checks P (fun r _ => ∀ found, r = .ok found → ∀ other ∈ found, other = version)
          (do
            let _ ← installedMetadata P version
            return [version]) l := by
        refine (issues_installedMetadata version).bind (fun _ l' _ => ?_) fun e l' _ => nofun
        rintro _ ⟨⟩
        simp
      refine hfound.catching (fun found l' h => h) fun e l' _ => ?_
      rintro _ ⟨⟩
      simp
    refine hone.bind (fun found l1 hfound => ?_) fun e l' _ => nofun
    refine ih.bind (fun others l2 hothers => ?_) fun e l' _ => nofun
    rintro _ ⟨⟩ other hother
    rcases List.mem_append.mp hother with h | h
    · exact List.mem_cons.mpr (.inl (hfound found rfl other h))
    · exact List.mem_cons.mpr (.inr (hothers others rfl other h))

lemma issues_discoverLegacyInstall (fromVersion : Option String) :
    Checks P (fun r _ => ∀ version, r = .ok (some version) → isVersion version = true)
      (discoverLegacyInstall P fromVersion) l := by
  cases fromVersion with
  | some fromVersion =>
    refine issues_raiseIf_bind (fun _ => nofun) fun hversion => ?_
    refine (issues_installedMetadata fromVersion).bind (fun _ l' _ => ?_) fun e l' _ => nofun
    rintro _ ⟨⟩
    simpa using hversion
  | none =>
    refine issues_quiet_bind rfl (fun entries _ => ?_) fun e => nofun
    refine (issues_installedVersions _).bind (fun found l1 hfound => ?_) fun e l' _ => nofun
    have hversions : ∀ version ∈ found, isVersion version = true := fun version hversion =>
      (List.mem_filter.mp (hfound found rfl version hversion)).2
    match found, hversions with
    | [], _ => exact nofun
    | [version], hversions =>
      rintro _ ⟨⟩
      exact hversions version List.mem_cons_self
    | _ :: _ :: _, _ => exact nofun

lemma issues_currentInstall (request : UpgradeRequest) :
    Checks P (fun r _ => ∀ active legacy, r = .ok (active, legacy) →
        (∀ state, active = some state → Recognised state) ∧
        ∀ version, legacy = some version → isVersion version = true ∧ version ≠ request.toVersion)
      (currentInstall P request) l := by
  refine issues_loadOptionalActive.bind (fun found l1 hfound => ?_) fun e l' _ => nofun
  cases found with
  | some state =>
    refine issues_raiseIf_bind (fun _ => nofun) fun _ => ?_
    rintro _ _ ⟨⟩
    refine ⟨?_, nofun⟩
    rintro _ ⟨⟩
    exact hfound state rfl
  | none =>
    refine (issues_discoverLegacyInstall _).bind (fun legacy l2 hlegacy => ?_) fun e l' _ => nofun
    refine issues_raiseIf_bind (fun _ => nofun) fun _ => ?_
    rintro _ _ ⟨⟩
    refine ⟨nofun, fun version hversion => ?_⟩
    split at hversion
    · cases hversion
    · rename_i hne
      subst hversion
      exact ⟨hlegacy version rfl, fun h => hne (congrArg some h)⟩

lemma issues_resolveRollbackSelection (toVersion : Option String) :
    Checks P (fun r _ => ∀ selection, r = .ok selection → selection.Checked)
      (resolveRollbackSelection P toVersion) l := by
  refine issues_loadActive.bind (fun current l1 hcurrent => ?_) fun e l' _ _ h => by cases h
  split
  · exact fun _ h => by cases h
  · rename_i selected _
    refine issues_raiseIf_bind (fun _ _ h => by cases h) fun hselected => ?_
    refine issues_raiseIf_bind (fun _ _ h => by cases h) fun hdiffers => ?_
    have hselection : Checks P (fun r _ => ∀ selection, r = .ok selection → selection.Checked) (do
          let _ ← installedMetadata P current.activeVersion
          let installed ← installedMetadata P selected
          return (⟨current, selected, installed⟩ : Selection)) l1 := by
      refine (issues_installedMetadata _).bind (fun _ l2 _ => ?_) fun e l' _ _ h => by cases h
      refine (issues_installedMetadata _).bind (fun installed l3 hinstalled => ?_)
        fun e l' _ _ h => by cases h
      rintro _ ⟨⟩
      exact ⟨hcurrent current rfl, by simpa using hselected, hdiffers, hinstalled installed rfl⟩
    refine hselection.catching (fun selection l' h => h) fun e l' _ => ?_
    cases e with
    | missing => exact fun _ h => by cases h
    | _ => exact fun _ h => by cases h

end Reads

/-! ### What is noted -/

/-- What a new state is built from. -/
def Progress.origin (progress : Progress) :=
  (progress.active, progress.previousVersion, progress.repairingSameVersion, progress.identity)

lemma Apart.origin {α : Type} {scope : Set Path} {p : Steps Progress α}
    (hp : Apart scope Progress.fixed p) : Apart scope Progress.origin p :=
  hp.map fun fixed => (fixed.1.1, fixed.1.2.1, fixed.1.2.2.2.2.2.2, fixed.2)

/-- The state that is noted has passed the check, and the id was drawn. -/
structure Vetted (l : Progress) : Prop where
  active : ∀ state, l.active = some state → Recognised state
  drawn : ∀ id operation version, l.identity = some (id, operation, version) → Drawn id

/-- An upgrade has noted what it starts from. -/
structure Selected (toVersion : String) (l : Progress) : Prop extends Vetted l where
  current : ∀ state, l.active = some state → l.previousVersion = state.activeVersion
  fresh : l.active = none → (l.previousVersion = "" ∨ isVersion l.previousVersion = true) ∧
    l.previousVersion ≠ toVersion
  upgrading : l.repairingSameVersion = false

/-- An upgrade has found out whether it repairs the active version. -/
structure Chosen (toVersion : String) (l : Progress) : Prop extends Vetted l where
  repairing : l.repairingSameVersion = true →
    ∃ state, l.active = some state ∧ state.activeVersion = toVersion
  upgrading : l.repairingSameVersion = false →
    (l.previousVersion = "" ∨ isVersion l.previousVersion = true) ∧ l.previousVersion ≠ toVersion

/-- The transaction of an upgrade has begun. -/
structure Prepared (toVersion : String) (l : Progress) : Prop extends Chosen toVersion l where
  begun : l.identity.isSome = true

section Noted

variable {P : Platform} {toVersion : String} {l l' : Progress}

lemma origin_eq (h : l'.origin = l.origin) :
    l'.active = l.active ∧ l'.previousVersion = l.previousVersion ∧
      l'.repairingSameVersion = l.repairingSameVersion ∧ l'.identity = l.identity := by
  simpa [Progress.origin] using h

lemma Vetted.congr (h : Vetted l) (hl : l'.origin = l.origin) : Vetted l' := by
  obtain ⟨hactive, -, -, hidentity⟩ := origin_eq hl
  constructor
  · rw [hactive]
    exact h.active
  · rw [hidentity]
    exact h.drawn

lemma Chosen.congr (h : Chosen toVersion l) (hl : l'.origin = l.origin) : Chosen toVersion l' := by
  obtain ⟨hactive, hprevious, hrepairing, -⟩ := origin_eq hl
  refine ⟨h.toVetted.congr hl, ?_, ?_⟩
  · rw [hrepairing, hactive]
    exact h.repairing
  · rw [hrepairing, hprevious]
    exact h.upgrading

lemma Prepared.congr (h : Prepared toVersion l) (hl : l'.origin = l.origin) :
    Prepared toVersion l' := by
  refine ⟨h.toChosen.congr hl, ?_⟩
  rw [(origin_eq hl).2.2.2]
  exact h.begun

/-- The id of a transaction that has begun was drawn. -/
lemma Vetted.drawn_id (h : Vetted l) (hbegun : l.identity.isSome = true) : Drawn l.id := by
  unfold Progress.identity at hbegun
  cases htransaction : l.transaction with
  | none => simp [htransaction] at hbegun
  | some transaction =>
    have hid : l.id = transaction.id := by simp [Progress.id, htransaction]
    rw [hid]
    exact h.drawn transaction.id transaction.operation transaction.toVersion
      (by simp [Progress.identity, htransaction])

lemma one_le_nextGeneration (active : Option ActiveState) (legacy : Option String) :
    1 ≤ nextGeneration active legacy := by
  unfold nextGeneration
  split
  · omega
  · split <;> omega

/-- The state an upgrade or a repair switches to is built from what was checked. -/
lemma Prepared.exists_build (h : Prepared toVersion l) (hto : isVersion toVersion = true)
    {bundle : Bundle} (hbundle : validateBundle P toVersion bundle = .ok ())
    (legacy : Option String) :
    ∃ build : Build, build.Checked P ∧ nextActive P toVersion legacy bundle l = build.state P := by
  have hid := h.drawn_id h.begun
  have hgeneration := one_le_nextGeneration l.active legacy
  cases hrepairing : l.repairingSameVersion with
  | true =>
    obtain ⟨state, hactive, hversion⟩ := h.repairing hrepairing
    refine ⟨.repair state bundle (nextGeneration l.active legacy) l.id,
      ⟨h.active state hactive, by rw [hversion]; exact hbundle, hgeneration, hid⟩, ?_⟩
    simp [nextActive, Build.state, hactive, hrepairing]
  | false =>
    obtain ⟨hprevious, hdiffers⟩ := h.upgrading hrepairing
    refine ⟨.upgrade l.previousVersion toVersion bundle (nextGeneration l.active legacy) l.id,
      ⟨hprevious, hto, hdiffers, hbundle, hgeneration, hid⟩, ?_⟩
    simp [nextActive, Build.state, hrepairing]

/-! ### Upgrades -/

/-- A routine that leaves the active state and the notes alone. -/
lemma Apart.checks {α : Type} {p : Steps Progress α}
    (hp : Apart elsewhere Progress.fixed p) : Checks P (fun _ l' => l'.origin = l.origin) p l :=
  hp.touches.writesChecked.issues hp.origin.steady

lemma issues_selectPrevious (request : UpgradeRequest) (hto : isVersion request.toVersion = true) :
    Checks P (fun r l' => Vetted l' ∧
      ∀ legacy, r = .ok legacy → Selected request.toVersion l') (selectPrevious P request) {} := by
  have hinitial : Vetted {} := ⟨nofun, nofun⟩
  refine ((issues_currentInstall request).steady (reading_currentInstall P request).steady).bind
    ?_ ?_
  · rintro ⟨active, legacy⟩ l1 ⟨hfound, rfl⟩
    obtain ⟨hactive, hlegacy⟩ := hfound active legacy rfl
    have hselected : Selected request.toVersion { ({} : Progress) with
          active := active
          previousVersion := currentVersion active legacy
          previousCore := (active.map (·.activeVersion)).or legacy } := by
      refine ⟨⟨hactive, nofun⟩, ?_, ?_, rfl⟩
      · rintro state (rfl : active = some state)
        rfl
      · rintro (rfl : active = none)
        cases legacy with
        | none => exact ⟨.inl rfl, (Installstate.ne_empty_of_isVersion hto).symm⟩
        | some version =>
          exact ⟨.inr (hlegacy version rfl).1, (hlegacy version rfl).2⟩
    refine issues_assign_bind (issues_raiseIf_bind
      (fun _ => ⟨hselected.toVetted, nofun⟩) fun _ => ?_)
    exact ⟨hselected.toVetted, fun _ _ => hselected⟩
  · rintro e l1 ⟨-, rfl⟩
    exact ⟨hinitial, nofun⟩

lemma issues_reuseOrRepair (h : Selected toVersion l) :
    Checks P (fun r l' => Vetted l' ∧
      (r = .ok none → Chosen toVersion l')) (reuseOrRepair P toVersion) l := by
  have hkept : l.active = none ∨ (∃ state, l.active = some state ∧
      state.activeVersion ≠ toVersion) → Chosen toVersion l := by
    intro hcases
    refine ⟨h.toVetted, fun hrepairing => ?_, fun _ => ?_⟩
    · rw [h.upgrading] at hrepairing
      cases hrepairing
    · rcases hcases with hnone | ⟨state, hstate, hversion⟩
      · exact h.fresh hnone
      · have hshaped := (recognised_iff.mp (h.active state hstate)).1
        rw [h.current state hstate]
        exact ⟨.inr hshaped.activeVersion, hversion⟩
  have hreuse : ∀ state, l.active = some state → state.activeVersion = toVersion →
      Checks P (fun r l' => Vetted l' ∧ (r = .ok none → Chosen toVersion l')) (do
          let reused ← reuseActive P toVersion state
          assign fun progress => { progress with repairingSameVersion := reused.isNone }
          return reused) l := by
    intro state hstate hversion
    have hread : Checks P (fun _ l' => l'.origin = l.origin) (reuseActive P toVersion state) l :=
      (apart_reuseActive P toVersion state).checks
    refine hread.bind (fun reused l1 hl => ?_) fun e l1 hl => ⟨h.toVetted.congr hl, nofun⟩
    have hvetted := h.toVetted.congr hl
    have hnoted : Vetted { l1 with repairingSameVersion := reused.isNone } :=
      ⟨hvetted.active, hvetted.drawn⟩
    refine ⟨hnoted, fun hnone => ?_⟩
    obtain rfl : reused = none := Except.ok.inj hnone
    refine ⟨hnoted, fun _ => ⟨state, ?_, hversion⟩, nofun⟩
    exact (origin_eq hl).1.trans hstate
  refine issues_locals_bind ?_
  split
  · rename_i hactive
    exact ⟨h.toVetted, fun _ => hkept (.inl hactive)⟩
  · rename_i state hactive
    split
    · rename_i hversion
      exact hreuse state hactive hversion
    · rename_i hversion
      exact ⟨h.toVetted, fun _ => hkept (.inr ⟨state, hactive, hversion⟩)⟩

/-- The id of a new transaction is drawn. -/
lemma issues_newTransaction (h : Vetted l) (operation : Operation) (fromVersion : String) :
    Checks P (fun r l' => Vetted l' ∧ l'.stance = l.stance ∧
      (r = .ok () → l'.identity.isSome = true))
      (newTransaction P operation fromVersion toVersion) l := by
  refine issues_quiet_bind rfl (fun id hid => ?_) fun e => ⟨h, rfl, nofun⟩
  refine ⟨⟨h.active, fun id' operation' version' hidentity => ?_⟩, rfl, fun _ => rfl⟩
  obtain rfl : id = id' := (Prod.mk.inj (Option.some.inj hidentity)).1
  exact hid

lemma issues_beginUpgrade (h : Chosen toVersion l) :
    Checks P (fun r l' => Vetted l' ∧
      (r = .ok () → Prepared toVersion l')) (beginUpgrade P toVersion) l := by
  refine issues_locals_bind ?_
  refine (issues_newTransaction h.toVetted _ _).bind (fun _ l1 h1 => ?_)
    fun e l1 h1 => ⟨h1.1, nofun⟩
  obtain ⟨hvetted, hstance, hbegun⟩ := h1
  obtain ⟨hactive, hprevious, -, -, -, -, hrepairing⟩ := stance_eq hstance
  have hprepared : Prepared toVersion l1 := by
    refine ⟨⟨hvetted, ?_, ?_⟩, hbegun rfl⟩
    · rw [hrepairing, hactive]
      exact h.repairing
    · rw [hrepairing, hprevious]
      exact h.upgrading
  refine Routine.Issues.weaken (Apart.checks ?_) fun r l2 hl =>
    ⟨hprepared.toVetted.congr hl, fun _ => hprepared.congr hl⟩
  exact (apart_runPreflight ordinary_elsewhere _).onlyIf.bind fun _ =>
    (apart_writeJournal ordinary_elsewhere _ _).bind fun _ =>
      apart_writeJournal ordinary_elsewhere _ _

lemma issues_stageRelease (h : Prepared toVersion l) :
    Checks P (fun r l' => Vetted l' ∧ ∀ bundle, r = .ok bundle → Prepared toVersion l' ∧
        validateBundle P toVersion bundle = .ok ()) (stageRelease P toVersion) l := by
  have hfails : ∀ (e : Failure) l', l'.origin = l.origin → Vetted l' ∧
      ∀ bundle, (Except.error e : Except Failure Bundle) = .ok bundle → Prepared toVersion l' ∧
        validateBundle P toVersion bundle = .ok () :=
    fun e l' hl => ⟨h.toVetted.congr hl, nofun⟩
  refine issues_quiet_bind rfl (fun bundle _ => ?_) fun e => hfails e l rfl
  refine issues_lift_bind (fun e _ => hfails e l rfl) fun _ hbundle => ?_
  refine issues_locals_bind (issues_raiseIf_bind (fun _ => hfails _ l rfl) fun _ => ?_)
  refine (apart_writeJournal ordinary_elsewhere _ _).checks.bind (fun _ l1 hl1 => ?_)
    fun e l1 hl1 => hfails e l1 hl1
  have hinstall : Apart aside Progress.fixed _ := apart_installVersion P toVersion bundle l.id
  refine (Apart.checks ⟨hinstall.touches.mono fun _ h => h.1, hinstall.steady⟩).bind
    (fun _ l2 hl2 => ?_) fun e l2 hl2 => hfails e l2 (hl2.trans hl1)
  refine issues_assign_bind (issues_quiet_bind rfl
    (fun _ _ => ?_) fun e => hfails e _ (hl2.trans hl1))
  refine ⟨h.toVetted.congr (hl2.trans hl1), ?_⟩
  rintro _ ⟨⟩
  exact ⟨h.congr (hl2.trans hl1), hbundle⟩

lemma issues_commitActive {build : Build} (hchecked : build.Checked P) {state : ActiveState}
    (hstate : state = build.state P) (toVersion : String) :
    Checks P (fun _ l' => l'.origin = l.origin) (commitActive state toVersion) l := by
  have hwithin : (commitActive state toVersion).Within (WritesChecked P) :=
    (within_write hchecked (.inl (by rw [hstate]))).bind fun _ =>
      (within_assign _).bind fun _ =>
        (within_perform (writesChecked_quiet rfl)).bind fun _ =>
          (apart_writeJournal ordinary_elsewhere _ _).touches.writesChecked
  have hsteady : (commitActive state toVersion).Steady Progress.origin :=
    (steady_atomicWrite _).bind fun _ => (Routine.steady_assign (by exact fun _ => rfl)).bind
      fun _ => (Routine.steady_perform _).bind fun _ =>
        (apart_writeJournal ordinary_elsewhere _ _).origin.steady
  exact hwithin.issues hsteady

lemma issues_activate (h : Prepared toVersion l) (hto : isVersion toVersion = true)
    {bundle : Bundle} (hbundle : validateBundle P toVersion bundle = .ok ())
    (legacy : Option String) :
    Checks P (fun _ l' => Vetted l') (activate P toVersion legacy bundle) l := by
  refine (apart_readBridges P).checks.bind (fun _ l1 hl1 => ?_) fun e l1 hl1 => h.toVetted.congr hl1
  have hprepared := h.congr hl1
  refine issues_locals_bind ?_
  refine (apart_onlyFor fun core =>
    (apart_quiesceService P ordinary_elsewhere core).onlyIf).checks.bind (fun _ l2 hl2 => ?_)
      fun e l2 hl2 => hprepared.toVetted.congr hl2
  refine (apart_writeJournal ordinary_elsewhere _ _).checks.bind (fun _ l3 hl3 => ?_)
    fun e l3 hl3 => hprepared.toVetted.congr (hl3.trans hl2)
  refine ((apart_replaceBridges P ordinary_elsewhere bundle).map Prod.fst).checks.bind
    (fun _ l4 hl4 => ?_) fun e l4 hl4 => hprepared.toVetted.congr (hl4.trans (hl3.trans hl2))
  have hvetted := hprepared.toVetted.congr (hl4.trans (hl3.trans hl2))
  obtain ⟨build, hchecked, hstate⟩ := hprepared.exists_build hto hbundle legacy
  have hcommit := issues_commitActive (l := { l4 with
    attemptedGeneration := nextGeneration l1.active legacy }) hchecked hstate toVersion
  refine issues_assign_bind (hcommit.bind (fun _ l5 hl5 => ?_) fun e l5 hl5 => hvetted.congr hl5)
  exact hvetted.congr hl5

lemma issues_upgradeTransaction (request : UpgradeRequest)
    (hto : isVersion request.toVersion = true) :
    Checks P (fun _ l' => Vetted l') (upgradeTransaction P request) {} := by
  refine (issues_selectPrevious request hto).bind (fun legacy l1 h1 => ?_) fun e l1 h1 => h1.1
  refine (issues_reuseOrRepair (h1.2 legacy rfl)).bind (fun reused l2 h2 => ?_) fun e l2 h2 => h2.1
  cases reused with
  | some result => exact h2.1
  | none =>
    refine (issues_beginUpgrade (h2.2 rfl)).bind (fun _ l3 h3 => ?_) fun e l3 h3 => h3.1
    refine (issues_stageRelease (h3.2 rfl)).bind (fun bundle l4 h4 => ?_) fun e l4 h4 => h4.1
    obtain ⟨hprepared, hbundle⟩ := h4.2 bundle rfl
    exact issues_activate hprepared hto hbundle legacy

/-! ### Compensations -/

/-- A compensation puts back the state that was noted. -/
lemma within_restoreActive (h : Vetted l) (hbegun : l.identity.isSome = true) :
    (restoreActive l).Within (WritesChecked P) := by
  refine Routine.Within.bind ?_ fun _ => within_assign _
  cases hactive : l.active with
  | none => exact within_perform fun state hstate => by rcases hstate with h | h <;> cases h
  | some previous =>
    have hchecked : (Build.restore previous l.attemptedGeneration l.id).Checked P :=
      ⟨h.active previous hactive, h.drawn_id hbegun⟩
    exact (within_write hchecked (.inr rfl)).bind fun _ => within_assign _

lemma within_removeInstalled (version : String) :
    (removeInstalled version).Within (WritesChecked P) := by
  refine within_locals.bind fun recovery => ?_
  split
  · exact within_attemptStep (within_perform fun state hstate => by
      rcases hstate with h | h <;> cases h)
  · exact within_assign _

lemma within_compensateUpgrade (h : Vetted l) (hbegun : l.identity.isSome = true) :
    (compensateUpgrade l).Within (WritesChecked P) := by
  have hperform : ∀ c : Cmd, c.touched = [] →
      (perform c : Steps Recovery (Reply c)).Within (WritesChecked P) :=
    fun c hc => within_perform (writesChecked_quiet hc)
  have hbridge : ∀ (path : Path) (write : Content → Write) (previous : Option Content),
      path ≠ .active → (∀ content, (write content).path = path) →
      (restoreBridge path write previous : Steps Recovery Unit).Within
        (WritesChecked P) := by
    intro path write previous hpath hwrite
    have hapart : Apart elsewhere (fun l : Recovery => l) (restoreBridge path write previous) :=
      apart_restoreBridge hpath ordinary_elsewhere.temporary ordinary_elsewhere.backup hwrite
        previous
    exact hapart.touches.writesChecked
  refine (within_onlyFor fun core => within_onlyIf (within_attemptStep (hperform _ rfl))).bind
    fun _ => ?_
  refine (within_onlyIf (within_attemptStep (hbridge .bridge .bridge _ (by simp)
    fun _ => rfl))).bind fun _ => ?_
  refine (within_onlyIf (within_attemptStep (hbridge .serviceBridge .serviceBridge _ (by simp)
    fun _ => rfl))).bind fun _ => ?_
  refine (within_onlyIf (within_attemptStep (within_restoreActive h hbegun))).bind fun _ => ?_
  refine within_locals.bind fun _ => ?_
  refine (within_onlyFor fun core => within_onlyIf (within_attemptStep (hperform _ rfl))).bind
    fun _ => ?_
  refine (within_onlyFor fun version => within_onlyIf (within_removeInstalled version)).bind
    fun _ => ?_
  exact within_locals.bind fun _ => within_pure _

lemma within_undo (h : Vetted l) : (undo l).Within (WritesChecked P) := by
  unfold undo
  split
  · rename_i hcondition
    have hbegun : l.identity.isSome = true := by
      rw [Progress.identity, Option.isSome_map]
      exact hcondition.1
    exact (Routine.Within.enclosed (within_compensateUpgrade h hbegun) _).bind fun _ =>
      (within_assign _).bind fun _ => within_pure _
  · exact within_pure _

lemma issues_failUpgrade {α : Type} (h : Vetted l) (err : Failure) :
    Checks P (fun _ _ => True) (failUpgrade err : Steps Progress α) l := by
  refine issues_locals_bind (Routine.Within.issues_any ?_)
  refine (within_raiseIf _ _).bind fun _ => ?_
  refine ((apart_quiet rfl).catching fun e =>
    apart_blockCompensation ordinary_elsewhere err e).onlyIf.touches.writesChecked.bind fun _ => ?_
  refine (within_undo h).bind fun errors => ?_
  refine (apart_writeJournal ordinary_elsewhere _ _).onlyIf.touches.writesChecked.bind fun _ => ?_
  exact (within_raiseIf _ _).bind fun _ => within_raise _

/-- Every active state an upgrade writes is built from what was checked. -/
lemma issues_upgrade (request : UpgradeRequest) :
    Checks P (fun _ _ => True) (upgrade P request) {} := by
  refine issues_raiseIf_bind (fun _ => trivial) fun hto => ?_
  have hversion : isVersion request.toVersion = true := by simpa using hto
  refine issues_raiseIf_bind (fun _ => trivial) fun _ => ?_
  refine issues_raiseIf_bind (fun _ => trivial) fun _ => ?_
  refine issues_raiseIf_bind (fun _ => trivial) fun _ => ?_
  refine issues_quiet_bind rfl (fun _ _ => ?_) fun _ => trivial
  have hreading : Reading (currentInstall P request : Steps Progress _) :=
    reading_currentInstall P request
  have hscope : Touches elsewhere _ := hreading.touches.mono (Set.empty_subset _)
  refine (hscope.writesChecked.issues hreading.steady).bind ?_
    fun _ _ _ => trivial
  rintro ⟨current, legacy⟩ l1 rfl
  dsimp only
  split
  · exact Routine.Issues.weaken (Apart.checks ((apart_quiet rfl).onlyIf.bind fun _ =>
      apart_pure _)) fun _ _ _ => trivial
  · refine issues_quiet_bind rfl (fun _ _ => ?_) fun _ => trivial
    have hbody : Checks P (fun _ _ => True)
        (catching (upgradeTransaction P request) failUpgrade) {} :=
      (issues_upgradeTransaction request hversion).catching (fun _ _ _ => trivial)
        fun e l' h => issues_failUpgrade h e
    exact hbody.lastly fun r l' _ =>
      Routine.Within.issues_any (within_perform (writesChecked_quiet rfl))

/-! ### Rollbacks -/

lemma issues_compensateRollback (h : Vetted l) (hbegun : l.identity.isSome = true)
    {current : ActiveState} (hcurrent : Recognised current) (generation : Nat) (err : Failure) :
    Checks P (fun _ _ => True) (compensateRollback current generation err) l := by
  have hchecked : (Build.restore current generation l.id).Checked P :=
    ⟨hcurrent, h.drawn_id hbegun⟩
  have hrestore : (restorePrevious current generation l.id).Within (WritesChecked P) := by
    refine (within_attemptStep ((within_write hchecked (.inr rfl)).bind fun _ =>
      within_assign _)).bind fun _ => within_locals.bind fun _ => ?_
    exact (within_onlyIf (within_attemptStep (within_perform
      (writesChecked_quiet rfl)))).bind fun _ => within_locals.bind fun _ =>
        within_pure _
  refine issues_locals_bind (Routine.Within.issues_any ?_)
  refine (hrestore.enclosed _).bind fun _ => (within_assign _).bind fun _ => ?_
  exact (apart_writeJournal ordinary_elsewhere _ _).touches.writesChecked.bind fun _ =>
    (within_raiseIf _ _).bind fun _ => within_raise _

lemma issues_rollbackTransaction {selection : Selection} (h : Vetted l)
    (hbegun : l.identity.isSome = true) (hselection : selection.Checked) :
    Checks P (fun _ _ => True) (rollbackTransaction P selection) l := by
  have hkept : ∀ {l' : Progress}, l'.origin = l.origin →
      Vetted l' ∧ l'.identity.isSome = true := fun hl =>
    ⟨h.congr hl, by rw [(origin_eq hl).2.2.2]; exact hbegun⟩
  have hjournal : ∀ {l' : Progress} (status : Status), Checks P
      (fun _ l'' => l''.origin = l'.origin) (writeJournal status) l' := fun status =>
    (apart_writeJournal ordinary_elsewhere _ _).checks
  refine (apart_runPreflight ordinary_elsewhere _).checks.bind (fun _ l1 hl1 => ?_)
    fun _ _ _ => trivial
  refine (hjournal _).bind (fun _ l2 hl2 => ?_) fun _ _ _ => trivial
  refine (hjournal _).bind (fun _ l3 hl3 => ?_) fun _ _ _ => trivial
  refine issues_quiet_bind rfl (fun _ _ => ?_) fun _ => trivial
  refine issues_locals_bind ((hjournal _).bind (fun _ l4 hl4 => ?_) fun _ _ _ => trivial)
  have hl3 : l3.origin = l.origin := hl3.trans (hl2.trans hl1)
  have hchecked : (Build.rollback selection l3.id).Checked P :=
    ⟨hselection, (hkept hl3).1.drawn_id (hkept hl3).2⟩
  have hsteady : (atomicWrite (.activation (rolledBackState P selection l3.id))).Steady
      Progress.origin := steady_atomicWrite _
  refine ((within_write hchecked (.inl rfl)).issues hsteady).bind (fun _ l5 hl5 => ?_)
    fun _ _ _ => trivial
  have hlast := hkept (hl5.trans (hl4.trans hl3))
  have hrestart : Checks P (fun _ l' => l'.origin = l5.origin)
      (perform (.restart selection.current.activeVersion false)) l5 :=
    (apart_quiet rfl).checks
  have hswitched : Checks P (fun _ _ => True)
      (catching (perform (.restart selection.current.activeVersion false))
        (compensateRollback selection.current (selection.current.generation + 1))) l5 := by
    refine hrestart.catching (fun _ _ _ => trivial) fun e l6 hl6 => ?_
    exact issues_compensateRollback (hlast.1.congr hl6)
      (by rw [(origin_eq hl6).2.2.2]; exact hlast.2) hselection.current _ e
  refine hswitched.bind (fun _ l6 _ => Routine.Within.issues_any ?_) fun _ _ _ => trivial
  exact (apart_writeJournal ordinary_elsewhere _ _).touches.writesChecked.bind fun _ =>
    within_pure _

/-- Every active state a rollback writes is built from what was checked. -/
lemma issues_rollback (request : RollbackRequest) :
    Checks P (fun _ _ => True) (rollback P request) {} := by
  refine issues_quiet_bind rfl (fun _ _ => ?_) fun _ => trivial
  split
  · exact Routine.Issues.weaken (Apart.checks ((reading_resolveRollbackSelection P _).apart.bind
      fun _ => (apart_quiet rfl).bind fun _ => apart_pure _)) fun _ _ _ => trivial
  · refine issues_quiet_bind rfl (fun _ _ => ?_) fun _ => trivial
    have hselect : Checks P
        (fun r l' => ∀ selection, r = .ok selection → selection.Checked ∧ l' = {})
        (selectOrRelease P request.toVersion) ({} : Progress) := by
      refine ((issues_resolveRollbackSelection request.toVersion).steady
        (reading_resolveRollbackSelection P request.toVersion).steady).catching ?_
        fun e l1 _ => ?_
      · rintro selection l1 ⟨hselection, hl⟩ _ hr
        exact ⟨hselection _ hr, hl⟩
      · exact issues_quiet_bind rfl (fun _ _ _ h => by cases h) fun _ _ h => by cases h
    refine hselect.bind (fun selection l1 h1 => ?_) fun _ _ _ => trivial
    obtain ⟨hselection, rfl⟩ := h1 selection rfl
    have hinitial : Vetted {} := ⟨nofun, nofun⟩
    refine (issues_newTransaction hinitial .rollback _).bind (fun _ l2 h2 => ?_)
      fun _ _ _ => trivial
    have hbody : Checks P (fun _ _ => True)
        (catching (rollbackTransaction P selection) failRollback) l2 := by
      refine (issues_rollbackTransaction h2.1 (h2.2.2 rfl) hselection).catching
        (fun _ _ _ => trivial) fun e l3 _ => ?_
      exact Routine.Within.issues_any (within_locals.bind fun _ =>
        (apart_writeJournal ordinary_elsewhere _ _).onlyIf.touches.writesChecked.bind fun _ =>
          within_raise _)
    exact hbody.lastly fun r l' _ =>
      Routine.Within.issues_any (within_perform (writesChecked_quiet rfl))

end Noted

/-! ## What the bridge makes of it -/

/-- Every active state a call writes is built from what was checked, and the bridge accepts a state
that is built so just when no version has a padded number, a state that is kept names two different
versions and a target the bridge knows, and a bundle has no or a proper digest of a service
bridge. -/
theorem written_states_accepted_iff (P : Platform) (platform architecture : String)
    (hP : resolveTarget platform architecture = .ok P.target) :
    (∀ call : Call, Routine.Issues Answers (WritesChecked P) (fun _ _ => True)
      (call.script P) {}) ∧
    ∀ build : Build, build.Checked P → (Accepts (build.state P) ↔ build.Fit) := by
  refine ⟨fun call => ?_, fun build hchecked => ?_⟩
  · cases call with
    | upgrade request => exact issues_upgrade request
    | rollback request => exact issues_rollback request
  · rw [(Build.shaped hchecked).accepts_iff]
    exact Build.suits_iff (allowed_of_resolveTarget hP) hchecked

/-- A platform with the releases for it. -/
def linuxPlatform : Platform :=
  { samplePlatform with
    target :=
      { id := "linux-amd64"
        fileName := "agentbell-linux-amd64"
        bridgeFileName := "agentbell-bridge-linux-amd64" } }

/-- An id of a transaction. -/
def drawnID : String := "1767225600000-0123456789abcdef01234567"

lemma drawn_drawnID : Drawn drawnID :=
  ⟨1767225600000, "0123456789abcdef01234567", by decide, by decide, by decide +kernel⟩

/-- On this platform the state of a first installation is accepted. -/
theorem first_installation_accepted : resolveTarget "linux" "x64" = .ok linuxPlatform.target ∧
    (∀ call : Call, Routine.Issues Answers (WritesChecked linuxPlatform) (fun _ _ => True)
      (call.script linuxPlatform) {}) ∧
    Build.Checked linuxPlatform (.upgrade "" "0.3.1" sampleBundle 1 drawnID) ∧
    Accepts (Build.state linuxPlatform (.upgrade "" "0.3.1" sampleBundle 1 drawnID)) := by
  have htarget : resolveTarget "linux" "x64" = .ok linuxPlatform.target := by decide +kernel
  have hchecked : Build.Checked linuxPlatform (.upgrade "" "0.3.1" sampleBundle 1 drawnID) :=
    ⟨.inl rfl, by decide +kernel, by decide, by decide +kernel, le_rfl, drawn_drawnID⟩
  have hclaim := written_states_accepted_iff linuxPlatform "linux" "x64" htarget
  refine ⟨htarget, hclaim.1, hchecked, (hclaim.2 _ hchecked).mpr ⟨?_, ?_, nofun⟩⟩
  · decide +kernel
  · decide +kernel

/-- A release whose version has a padded number. -/
def paddedBundle : Bundle := { sampleBundle with manifestVersion := "1.0.0-01" }

/-- The bridge rejects the version of the active state of a data root. -/
def leavesRejected (w : World) : Bool :=
  match w.files .active with
  | some (.active state) => (Installstate.decode state).validate =
      .error "activeVersion must be a valid AgentBell semantic version"
  | _ => false

/-- An upgrade to a version of the bootstrap succeeds and leaves a state the bridge rejects. -/
theorem upgrade_left_rejected_state :
    resolveTarget "linux" "x64" = .ok linuxPlatform.target ∧ Drawn drawnID ∧
    ∃ result progress t state,
      ((Call.upgrade { toVersion := "1.0.0-01" }).script linuxPlatform {}).run dataRoot
        (smooth 6 ++ [.named drawnID] ++ smooth 20 ++ [.gives paddedBundle] ++ smooth 82)
        emptyRoot = some ((.ok result, progress), t) ∧
      t.files .active = some (.active state) ∧
      (Installstate.decode state).validate =
        .error "activeVersion must be a valid AgentBell semantic version" := by
  refine ⟨by decide +kernel, drawn_drawnID, ?_⟩
  have hrun : (((Call.upgrade { toVersion := "1.0.0-01" }).script linuxPlatform {}).run dataRoot
      (smooth 6 ++ [.named drawnID] ++ smooth 20 ++ [.gives paddedBundle] ++ smooth 82)
      emptyRoot).any (fun o => o.1.1.toOption.isSome && leavesRejected o.2) = true := by
    decide +kernel
  obtain ⟨⟨⟨r, progress⟩, t⟩, hresult, haccept⟩ := (Option.any_eq_true _ _).mp hrun
  obtain ⟨hreturned, hrejected⟩ := Bool.and_eq_true_iff.mp haccept
  cases r with
  | error e => cases hreturned
  | ok result =>
    unfold leavesRejected at hrejected
    split at hrejected
    · rename_i state hactive
      exact ⟨result, progress, t, state, hresult, hactive, of_decide_eq_true hrejected⟩
    · cases hrejected

end AgentBell.Upgrade
