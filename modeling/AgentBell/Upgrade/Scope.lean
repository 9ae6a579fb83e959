import AgentBell.Upgrade.Transaction
import AgentBell.Upgrade.Writes

/-!
# Which files a routine touches

A routine that touches only some files leaves all others as they are, in every environment.  Most
routines of the bootstrap only read; the others write to one file each.

For every routine it is said once which files it touches and which of its variables it keeps
(`Apart`).  The properties of upgrades take their frames from there: a file outside of the scope
is as it was, however the routine ends.
-/

namespace AgentBell.Upgrade

open Interleaving

open Routine (raise raiseIf locals assign within_pure within_perform within_raise within_raiseIf
  within_assign steady_pure steady_perform steady_raise)

section Within

variable {ℓ α : Type} {φ : Cmd → Prop}

/-- A routine that is run on a condition. -/
lemma within_onlyIf {action : Steps ℓ Unit} {condition : Bool} (h : action.Within φ) :
    Routine.Within φ (onlyIf condition action) := by
  unfold onlyIf
  split
  · exact h
  · exact within_pure ()

lemma within_onlyFor {action : α → Steps ℓ Unit} {value : Option α}
    (h : ∀ a, (action a).Within φ) : Routine.Within φ (onlyFor action value) := by
  cases value with
  | none => exact within_pure ()
  | some a => exact h a

/-- A step of a compensation issues what its callback issues. -/
lemma within_attemptStep {action : String} {callback : Steps Recovery Unit}
    (h : callback.Within φ) : Routine.Within φ (attemptStep action callback) :=
  (h.bind fun _ => within_assign _).catching fun _ => within_assign _

/-- An atomic write issues the steps of the write. -/
lemma within_atomicWrite {write : Write} (hstep : ∀ c : Cmd, c.write? = some write → φ c) :
    (atomicWrite write : Steps ℓ Unit).Within φ := by
  have hperform : ∀ c : Cmd, c.write? = some write → (perform c : Steps ℓ (Reply c)).Within φ :=
    fun c hc => within_perform (hstep c hc)
  have haside : ∀ e, Routine.Within φ (atomicWrite.replaceAside write e : Steps ℓ Unit) := by
    intro e
    cases e with
    | refused text =>
      refine (hperform (.setAside write) rfl).bind fun _ => Routine.Within.bind ?_ fun _ =>
        hperform (.removeBackup write) rfl
      exact (hperform (.replace write) rfl).catching fun _ =>
        (hperform (.putBack write) rfl).bind fun _ => within_raise _
    | _ => exact within_raise _
  refine (hperform (.temporary write .mkdir) rfl).bind fun _ =>
    (hperform (.create write) rfl).bind fun _ => Routine.Within.bind ?_ fun _ =>
      (hperform (.temporary write .chmod) rfl).bind fun _ => ?_
  · exact ((hperform (.fill write) rfl).bind fun _ =>
      hperform (.temporary write .sync) rfl).lastly (hperform (.temporary write .close) rfl)
  · refine Routine.Within.lastly ?_ ((hperform (.removeTemporary write) rfl).bind fun _ =>
      hperform (.removeBackup write) rfl)
    exact ((hperform (.replace write) rfl).catching haside).bind fun _ =>
      hperform (.sync write) rfl

end Within

section Touches

variable {ℓ α : Type} {scope : Set Path} {p : Steps ℓ α} {c : Cmd}
  {g : Guard} {l : ℓ} {w : World}

/-- The routine touches only files of a set. -/
def Touches (scope : Set Path) (p : Steps ℓ α) : Prop :=
  p.Within fun c => ∀ path ∈ c.touched, path ∈ scope

/-- An operation that touches nothing. -/
lemma touches_quiet (h : c.touched = []) : Touches scope (perform c : Steps ℓ (Reply c)) :=
  within_perform fun _ hpath => absurd (h ▸ hpath) List.not_mem_nil

/-- What touches files of a set touches files of a larger one. -/
lemma Touches.mono {scope' : Set Path} (hp : Touches scope p) (h : scope ⊆ scope') :
    Touches scope' p :=
  Routine.Within.mono hp fun _ hc path hpath => h (hc path hpath)

/-- What a routine does not touch stays as it is. -/
theorem Touches.meets (hp : Touches scope p) :
    Ends g (fun _ _ t => (∀ path ∉ scope, t.files path = w.files path) ∧
      (.active ∉ scope → t.activations = w.activations)) p l w := by
  refine Routine.Within.meets hp ?_ ⟨fun _ _ => rfl, fun _ => rfl⟩
  rintro x c s r t hscope ⟨hfiles, hactivations⟩ hexec
  have hagree := agree_of_exec (Machine.guard_exec.mp hexec).2
  refine ⟨fun path hpath => ?_, fun hactive => ?_⟩
  · rw [hagree.files path fun hmem => hpath (hscope path hmem)]
    exact hfiles path hpath
  · rw [hagree.activations fun hmem => hactive (hscope .active hmem)]
    exact hactivations hactive

/-- An operation that touches nothing leaves everything as it is. -/
lemma meets_still (h : c.touched = []) :
    Ends g (fun _ l' t => l' = l ∧ t.files = w.files ∧
      t.activations = w.activations) (perform c) l w := by
  refine meets_step fun x r t _ hexec => ⟨rfl, ?_⟩
  have hagree := agree_of_exec hexec
  rw [h] at hagree
  exact ⟨funext fun path => hagree.files path List.not_mem_nil, hagree.activations List.not_mem_nil⟩

end Touches

/-! ## What a routine notes -/

/-- What the handlers of a call go by. -/
def Progress.stance (progress : Progress) :=
  (progress.active, progress.previousVersion, progress.installedNew, progress.core,
    progress.activeWritten, progress.attemptedGeneration, progress.repairingSameVersion)

/-- Which transaction it is. -/
def Progress.identity (progress : Progress) : Option (String × Operation × String) :=
  progress.transaction.map fun transaction =>
    (transaction.id, transaction.operation, transaction.toVersion)

/-- What is noted once the transaction has begun, up to the activation. -/
def Progress.fixed (progress : Progress) := (progress.stance, progress.identity)

/-- A routine that touches only files of a set and keeps an aspect of its variables. -/
structure Apart {ℓ γ α : Type} (scope : Set Path) (aspect : ℓ → γ) (p : Steps ℓ α) :
    Prop where
  touches : Touches scope p
  steady : p.Steady aspect

section Apart

variable {ℓ γ δ α β : Type} {scope : Set Path} {aspect : ℓ → γ} {p : Steps ℓ α} {c : Cmd}

lemma apart_pure (a : α) : Apart scope aspect (pure a : Steps ℓ α) :=
  ⟨within_pure a, steady_pure a⟩

lemma apart_raise (e : Failure) : Apart scope aspect (raise e : Steps ℓ α) :=
  ⟨within_raise e, steady_raise e⟩

lemma apart_raiseIf (bad : Prop) [Decidable bad] (e : Failure) :
    Apart scope aspect (raiseIf bad e : Steps ℓ Unit) :=
  ⟨within_raiseIf bad e, Routine.steady_raiseIf bad e⟩

lemma apart_locals : Apart scope aspect (locals : Steps ℓ ℓ) :=
  ⟨Routine.within_locals, Routine.steady_locals⟩

lemma apart_assign {f : ℓ → ℓ} (h : ∀ l, aspect (f l) = aspect l) :
    Apart scope aspect (assign f) := ⟨within_assign f, Routine.steady_assign h⟩

/-- An operation changes no variables. -/
lemma apart_perform (h : ∀ path ∈ c.touched, path ∈ scope) :
    Apart scope aspect (perform c : Steps ℓ (Reply c)) :=
  ⟨within_perform h, steady_perform c⟩

/-- An operation that touches nothing may be part of any routine. -/
lemma apart_quiet (h : c.touched = []) : Apart scope aspect (perform c : Steps ℓ (Reply c)) :=
  ⟨touches_quiet h, steady_perform c⟩

/-- Both parts of a routine touch the files and keep the aspect. -/
lemma Apart.bind {f : α → Steps ℓ β} (hp : Apart scope aspect p)
    (hf : ∀ a, Apart scope aspect (f a)) : Apart scope aspect (p >>= f) :=
  ⟨hp.touches.bind fun a => (hf a).touches, hp.steady.bind fun a => (hf a).steady⟩

lemma Apart.catching {handler : Failure → Steps ℓ α} (hp : Apart scope aspect p)
    (hhandler : ∀ e, Apart scope aspect (handler e)) : Apart scope aspect (p.catching handler) :=
  ⟨hp.touches.catching fun e => (hhandler e).touches,
    hp.steady.catching fun e => (hhandler e).steady⟩

lemma Apart.onlyIf {action : Steps ℓ Unit} {condition : Bool}
    (h : Apart scope aspect action) : Apart scope aspect (onlyIf condition action) := by
  unfold Upgrade.onlyIf
  split
  · exact h
  · exact apart_pure ()

lemma apart_onlyFor {action : α → Steps ℓ Unit} {value : Option α}
    (h : ∀ a, Apart scope aspect (action a)) : Apart scope aspect (onlyFor action value) := by
  cases value with
  | none => exact apart_pure ()
  | some a => exact h a

/-- What depends on the aspect only is kept, too. -/
lemma Apart.map (h : Apart scope aspect p) (f : γ → δ) : Apart scope (fun l => f (aspect l)) p :=
  ⟨h.touches, h.steady.map f⟩

lemma Apart.stance {p : Steps Progress α} (h : Apart scope Progress.fixed p) :
    Apart scope Progress.stance p := h.map Prod.fst

/-- A routine that touches nothing and notes nothing. -/
abbrev Reading (p : Steps ℓ α) : Prop := Apart ∅ (fun l => l) p

/-- What only reads may be part of any routine. -/
lemma Reading.apart (h : Reading p) : Apart scope aspect p :=
  ⟨h.touches.mono (Set.empty_subset _), h.steady.map aspect⟩

/-- A routine that touches nothing and notes nothing leaves everything as it is. -/
lemma meets_reading {g : Guard} {l : ℓ} {w : World} (hp : Reading p) :
    Ends g (fun _ l' t => l' = l ∧ t.files = w.files ∧
      t.activations = w.activations) p l w := by
  refine (hp.steady.meets.both hp.touches.meets).weaken ?_
  rintro r l' t ⟨hl, hfiles, hactivations⟩
  exact ⟨hl, funext fun path => hfiles path (Set.notMem_empty path),
    hactivations (Set.notMem_empty _)⟩

/-- What comes after a routine that only reads starts from the same files. -/
lemma meets_reading_bind {g : Guard} {l : ℓ} {w t : World} {f : α → Steps ℓ β}
    {post : Except Failure β → ℓ → World → Prop} (hp : Reading p) (hfiles : t.files = w.files)
    (hactivations : t.activations = w.activations)
    (hf : ∀ a t', t'.files = w.files → t'.activations = w.activations → Ends g post (f a) l t')
    (hstop : ∀ e t', t'.files = w.files → t'.activations = w.activations → post (.error e) l t') :
    Ends g post (p >>= f) l t := by
  refine meets_bind (meets_reading hp) ?_ ?_
  · rintro a _ t' ⟨rfl, hfiles', hactivations'⟩
    exact hf a t' (hfiles'.trans hfiles) (hactivations'.trans hactivations)
  · rintro e _ t' ⟨rfl, hfiles', hactivations'⟩
    exact hstop e t' (hfiles'.trans hfiles) (hactivations'.trans hactivations)

end Apart

/-! ## Routines that only read -/

variable (P : Platform)

section Reads

variable {ℓ : Type} {scope : Set Path}

lemma reading_readOptional (path : Path) :
    Reading (readOptional path : Steps ℓ (Option Content)) := by
  refine ((apart_quiet rfl).bind fun _ => apart_pure _).catching fun e => ?_
  cases e with
  | missing => exact apart_pure _
  | _ => exact apart_raise _

lemma reading_loadActive : Reading (loadActive : Steps ℓ ActiveState) :=
  (apart_quiet rfl).bind fun _ => ⟨Routine.within_lift _, Routine.steady_lift _⟩

/-- A missing active state is no failure. -/
lemma reading_loadOptionalActive : Reading (loadOptionalActive : Steps ℓ (Option ActiveState)) := by
  refine (reading_loadActive.bind fun _ => apart_pure _).catching fun e => ?_
  cases e with
  | missing => exact apart_pure _
  | _ => exact apart_raise _

/-- The metadata of a version are read and compared with its Core. -/
lemma reading_installedMetadata (version : String) :
    Reading (installedMetadata P version : Steps ℓ InstallMetadata) := by
  refine (apart_quiet rfl).bind fun _ => (apart_quiet rfl).bind fun document => ?_
  refine Apart.bind ⟨Routine.within_lift _, Routine.steady_lift _⟩ fun metadata => ?_
  exact (apart_quiet rfl).bind fun core => (apart_raiseIf _ _).bind fun _ =>
    (apart_raiseIf _ _).bind fun _ => apart_pure _

lemma reading_installedIfAny (version : String) :
    Reading (installedIfAny P version : Steps ℓ (Option InstallMetadata)) := by
  refine ((reading_installedMetadata P version).bind fun _ => apart_pure _).catching fun e => ?_
  cases e with
  | missing => exact apart_pure _
  | _ => exact apart_raise _

lemma reading_installedVersions (versions : List String) :
    Reading (installedVersions P versions : Steps ℓ (List String)) := by
  induction versions with
  | nil => exact apart_pure _
  | cons version versions ih =>
    refine Apart.bind ?_ fun found => ih.bind fun others => apart_pure _
    exact ((reading_installedMetadata P version).bind fun _ => apart_pure _).catching
      fun _ => apart_pure _

/-- The version of an old installation is looked for. -/
lemma reading_discoverLegacyInstall (fromVersion : Option String) :
    Reading (discoverLegacyInstall P fromVersion : Steps ℓ (Option String)) := by
  cases fromVersion with
  | some version =>
    exact (apart_raiseIf _ _).bind fun _ => (reading_installedMetadata P version).bind fun _ =>
      apart_pure _
  | none =>
    refine (apart_quiet rfl).bind fun entries => ?_
    refine (reading_installedVersions P _).bind fun found => ?_
    split
    · exact apart_pure _
    · exact apart_pure _
    · exact apart_raise _

lemma reading_currentInstall (request : UpgradeRequest) :
    Reading (currentInstall P request : Steps ℓ (Option ActiveState × Option String)) := by
  refine reading_loadOptionalActive.bind fun active => ?_
  cases active with
  | some state => exact (apart_raiseIf _ _).bind fun _ => apart_pure _
  | none =>
    exact (reading_discoverLegacyInstall P _).bind fun legacy =>
      (apart_raiseIf _ _).bind fun _ => apart_pure _

/-- Both versions of a rollback are looked at. -/
lemma reading_resolveRollbackSelection (toVersion : Option String) :
    Reading (resolveRollbackSelection P toVersion : Steps ℓ Selection) := by
  refine reading_loadActive.bind fun current => ?_
  split
  · exact apart_raise _
  · refine (apart_raiseIf _ _).bind fun _ => (apart_raiseIf _ _).bind fun _ => ?_
    refine ((reading_installedMetadata P _).bind fun _ => (reading_installedMetadata P _).bind
      fun _ => apart_pure _).catching fun e => ?_
    cases e with
    | missing => exact apart_raise _
    | _ => exact apart_raise _

/-- The launchers are read and noted, which nothing else goes by. -/
lemma apart_readBridges : Apart scope Progress.fixed (readBridges P) := by
  refine (apart_quiet rfl).bind fun _ => (reading_readOptional _).apart.bind fun bridge => ?_
  refine (apart_assign (by exact fun _ => rfl)).bind fun _ => Apart.bind ?_ fun _ =>
    apart_assign (by exact fun _ => rfl)
  unfold readServiceBridge
  split
  · exact (reading_readOptional _).apart
  · exact apart_pure _

lemma apart_reuseActive (toVersion : String) (active : ActiveState) :
    Apart scope Progress.fixed (reuseActive P toVersion active) := by
  refine (reading_installedIfAny P toVersion).apart.bind fun installed => ?_
  cases installed with
  | none => exact apart_pure _
  | some metadata =>
    refine (apart_raiseIf _ _).bind fun _ => (apart_readBridges P).bind fun _ => ?_
    refine apart_locals.bind fun progress => ?_
    split
    · exact (apart_quiet rfl).bind fun _ => apart_pure _
    · exact apart_pure _

/-- Until the transaction has begun, nothing else is noted. -/
lemma apart_newTransaction (operation : Operation) (fromVersion toVersion : String) :
    Apart scope Progress.stance (newTransaction P operation fromVersion toVersion) :=
  (apart_quiet rfl).bind fun _ => apart_assign (by exact fun _ => rfl)

/-- The version that is there is noted before there is a transaction. -/
lemma apart_selectPrevious (request : UpgradeRequest) :
    Apart ∅ Progress.identity (selectPrevious P request) :=
  (reading_currentInstall P request).apart.bind fun _ =>
    (apart_assign (by exact fun _ => rfl)).bind fun _ =>
      (apart_raiseIf _ _).bind fun _ => apart_pure _

lemma apart_reuseOrRepair (toVersion : String) :
    Apart ∅ Progress.identity (reuseOrRepair P toVersion) := by
  refine apart_locals.bind fun progress => ?_
  split
  · exact apart_pure _
  · split
    · exact ((apart_reuseActive P toVersion _).map Prod.snd).bind fun _ =>
        (apart_assign (by exact fun _ => rfl)).bind fun _ => apart_pure _
    · exact apart_pure _

end Reads

/-! ## Routines that write -/

/-- A set that has all files but those of the versions and the active state. -/
structure Ordinary (scope : Set Path) : Prop where
  journal : ∀ id, .journal id ∈ scope
  bridge : .bridge ∈ scope
  serviceBridge : .serviceBridge ∈ scope
  temporary : .temporary ∈ scope
  backup : .backup ∈ scope

section Writes

variable {ℓ γ : Type} {aspect : ℓ → γ} {scope : Set Path} {write : Write}

/-- A step of a write touches the file of the write, the temporary file and the backup. -/
lemma mem_of_write {c : Cmd} (hc : c.write? = some write) (hpath : write.path ∈ scope)
    (htemporary : .temporary ∈ scope) (hbackup : .backup ∈ scope) :
    ∀ path ∈ c.touched, path ∈ scope := by
  cases c with
  | temporary _ _ => simp [Cmd.touched]
  | sync _ => simp [Cmd.touched]
  | create _ => simp [Cmd.touched, htemporary, hbackup]
  | fill _ => simp [Cmd.touched, htemporary]
  | removeBackup _ => simp [Cmd.touched, hbackup]
  | removeTemporary _ => simp [Cmd.touched, htemporary]
  | replace _ =>
    obtain rfl := Option.some.inj hc
    simp [Cmd.touched, htemporary, hpath]
  | setAside _ =>
    obtain rfl := Option.some.inj hc
    simp [Cmd.touched, hbackup, hpath]
  | putBack _ =>
    obtain rfl := Option.some.inj hc
    simp [Cmd.touched, hbackup, hpath]
  | _ => cases hc

/-- An atomic write touches its file, the temporary file and the backup, and has no variables. -/
lemma apart_atomicWrite (hpath : write.path ∈ scope) (htemporary : .temporary ∈ scope)
    (hbackup : .backup ∈ scope) : Apart scope aspect (atomicWrite write : Steps ℓ Unit) :=
  ⟨within_atomicWrite fun _ hc => mem_of_write hc hpath htemporary hbackup,
    steady_atomicWrite write⟩

/-- A launcher is written again, or removed when there was none. -/
lemma apart_restoreBridge {path : Path} {write : Content → Write} (hpath : path ∈ scope)
    (htemporary : .temporary ∈ scope) (hbackup : .backup ∈ scope)
    (hwrite : ∀ content, (write content).path = path) (previous : Option Content) :
    Apart scope aspect (restoreBridge path write previous : Steps ℓ Unit) := by
  cases previous with
  | none => exact apart_perform (by simp [Cmd.touched, hpath])
  | some content => exact apart_atomicWrite (by rw [hwrite]; exact hpath) htemporary hbackup

variable (hs : Ordinary scope)
include hs

/-- The journal is written with another status; which transaction it is stays. -/
lemma apart_writeJournal (status : Status) (error : String) :
    Apart scope Progress.fixed (writeJournal status error) := by
  refine (apart_assign fun l => ?_).bind fun _ => apart_locals.bind fun _ =>
    apart_onlyFor fun _ => apart_atomicWrite (hs.journal _) hs.temporary hs.backup
  unfold Progress.fixed Progress.identity Progress.stance Progress.marked
  rw [Option.map_map]
  rfl

/-- A failed preflight is noted in the journal. -/
lemma apart_runPreflight (version : String) : Apart scope Progress.fixed (runPreflight version) :=
  (apart_quiet rfl).catching fun _ => (apart_writeJournal hs _ _).bind fun _ => apart_raise _

lemma apart_beginUpgrade (toVersion : String) :
    Apart scope Progress.stance (beginUpgrade P toVersion) :=
  apart_locals.bind fun _ => (apart_newTransaction P _ _ _).bind fun _ =>
    (apart_runPreflight hs _).stance.onlyIf.bind fun _ =>
      (apart_writeJournal hs _ _).stance.bind fun _ => (apart_writeJournal hs _ _).stance

lemma apart_quiesceService (previousCore : String) :
    Apart scope Progress.fixed (quiesceService P previousCore) :=
  (apart_assign (by exact fun _ => rfl)).bind fun _ => (apart_writeJournal hs _ _).bind fun _ =>
    (apart_quiet rfl).bind fun _ => (apart_quiet rfl).bind fun _ => (apart_quiet rfl).onlyIf

/-- The launchers are replaced. -/
lemma apart_replaceBridges (bundle : Bundle) :
    Apart scope (fun l => (l.fixed, l.transaction)) (replaceBridges P bundle) :=
  (apart_atomicWrite hs.bridge hs.temporary hs.backup).bind fun _ =>
    (apart_assign (by exact fun _ => rfl)).bind fun _ => Apart.onlyIf
      ((apart_atomicWrite hs.serviceBridge hs.temporary hs.backup).bind fun _ =>
        apart_assign (by exact fun _ => rfl))

lemma apart_blockCompensation (err preflightError : Failure) :
    Apart scope Progress.stance (blockCompensation err preflightError) :=
  (apart_assign (by exact fun _ => rfl)).bind fun _ =>
    (apart_writeJournal hs _ _).stance.bind fun _ => apart_raise _

end Writes

end AgentBell.Upgrade
