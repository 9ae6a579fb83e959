import AgentBell.Upgrade.Install

/-!
# Upgrades, repairs and rollbacks

An upgrade downloads a bundle, installs the version, replaces the bridges and the active state and
restarts the service.  What it has done so far is kept in local variables, by which a failed
upgrade is compensated.  A rollback switches the active state to an installed version.
-/

namespace AgentBell.Upgrade

open Interleaving

open Routine (raise raiseIf lift locals assign catching lastly enclosed)

/-! ## The variables of a call -/

variable (P : Platform)

/-- The variables of a call that its handlers read. -/
structure Progress where
  transaction : Option Transaction := none
  active : Option ActiveState := none
  previousVersion : String := ""
  previousCore : Option String := none
  installedNew : Bool := false
  core : Option String := none
  previousBridge : Option Content := none
  bridgeChanged : Bool := false
  previousServiceBridge : Option Content := none
  serviceBridgeChanged : Bool := false
  serviceQuiesced : Bool := false
  activeWritten : Bool := false
  attemptedGeneration : Nat := 0
  repairingSameVersion : Bool := false

/-- A message, cut after 4096 characters. -/
def cut (text : String) : String := String.ofList (text.toList.take 4096)

/-- Run a routine under a condition. -/
def onlyIf {ℓ : Type} (condition : Bool) (action : Steps ℓ Unit) : Steps ℓ Unit :=
  if condition then action else return ()

/-- Run a routine for a value, if there is one. -/
def onlyFor {ℓ α : Type} (action : α → Steps ℓ Unit) : Option α → Steps ℓ Unit
  | some value => action value
  | none => return ()

/-- The variables after the status of the transaction was set. -/
def Progress.marked (progress : Progress) (status : Status) (error : String) : Progress :=
  { progress with transaction := progress.transaction.map fun transaction =>
      { transaction with status := status, error := cut error } }

/-- Set the status of the transaction and write it to the journal. -/
def writeJournal (status : Status) (error : String := "") : Steps Progress Unit := do
  assign fun progress => progress.marked status error
  let progress ← locals
  onlyFor (fun record => atomicWrite (.journal record)) progress.transaction

/-- Start a transaction. -/
def newTransaction (operation : Operation) (fromVersion toVersion : String) :
    Steps Progress Unit := do
  let id ← perform .newID
  assign fun progress => { progress with
    transaction := some
      { id := id
        operation := operation
        status := .preparing
        fromVersion := fromVersion
        toVersion := toVersion
        target := P.target.id } }

/-- The status of the transaction, if there is one. -/
def Progress.status (progress : Progress) : Option Status := progress.transaction.map (·.status)

/-- The id of the transaction. -/
def Progress.id (progress : Progress) : String :=
  (progress.transaction.map (·.id)).getD ""

/-- The rollback preflight of a transaction; its rejection goes to the journal. -/
def runPreflight (version : String) : Steps Progress Unit :=
  catching (perform (.preflight version)) fun err => do
    writeJournal .preflightRejected err.text
    raise err

/-! ## Compensations -/

/-- The variables of a compensation. -/
structure Recovery where
  steps : List CompensationStep := []
  errors : List Failure := []
  restoredActive : Option ActiveState := none
  activeRestored : Bool := false

/-- Run a step of a compensation; its failure is noted. -/
def attemptStep (action : String) (callback : Steps Recovery Unit) : Steps Recovery Unit :=
  catching (do
      callback
      assign fun recovery => { recovery with
        steps := recovery.steps ++ [{ action := action, status := .completed }] })
    fun err => assign fun recovery => { recovery with
      steps := recovery.steps ++
        [{ action := action, status := .failed, error := cut err.text }]
      errors := recovery.errors ++ [err] }

/-- Put back what a bridge was before. -/
def restoreBridge {ℓ : Type} (path : Path) (write : Content → Write) :
    Option Content → Steps ℓ Unit
  | none => perform (.remove path)
  | some previous => atomicWrite (write previous)

/-- The active state that a compensation restores. -/
def restoredState (previous : ActiveState) (generation : Nat) (transactionID : String) :
    ActiveState :=
  { previous with generation := generation + 1, transactionID := transactionID }

/-- Put back what the active state was before. -/
def restoreActive (progress : Progress) : Steps Recovery Unit := do
  replaceOrRemove progress.active
  assign fun recovery => { recovery with activeRestored := true }
where
  /-- Write the state of before, or remove the file if there was none. -/
  replaceOrRemove : Option ActiveState → Steps Recovery Unit
    | some previous => do
      let restored := restoredState previous progress.attemptedGeneration progress.id
      atomicWrite (.restoration restored)
      assign fun recovery => { recovery with restoredActive := some restored }
    | none => perform (.remove .active)

/-- Remove the version that was installed, unless it may still be the active one. -/
def removeInstalled (version : String) : Steps Recovery Unit := do
  let recovery ← locals
  if recovery.activeRestored then
    attemptStep "remove-staged-version" (perform (.removeVersion version))
  else
    assign fun recovery => { recovery with
      steps := recovery.steps ++
        [{ action := "remove-staged-version", status := .skipped,
           error := "active state was not restored; activated Core was retained" }] }

/-- Undo an upgrade, step by step. -/
def compensateUpgrade (progress : Progress) : Steps Recovery (Compensation × List Failure) := do
  onlyFor (fun previousCore => onlyIf progress.serviceQuiesced
      (attemptStep "quiesce-attempted-service" (perform (.quiesce
        (if progress.activeWritten then progress.core.getD previousCore else previousCore) true))))
    progress.previousCore
  onlyIf progress.bridgeChanged
    (attemptStep "restore-bridge" (restoreBridge .bridge .bridge progress.previousBridge))
  onlyIf progress.serviceBridgeChanged
    (attemptStep "restore-service-bridge"
      (restoreBridge .serviceBridge .serviceBridge progress.previousServiceBridge))
  onlyIf progress.activeWritten (attemptStep "restore-active" (restoreActive progress))
  let recovery ← locals
  onlyFor (fun previousCore =>
      onlyIf ((progress.activeWritten || progress.serviceQuiesced) && recovery.activeRestored)
        (attemptStep "restart-previous-service" (perform (.restart previousCore true))))
    progress.previousCore
  onlyFor (fun version => onlyIf progress.installedNew (removeInstalled version)) progress.core
  let recovery ← locals
  return (⟨if recovery.errors = [] then .completed else .failed, recovery.steps⟩, recovery.errors)

/-- The texts of failures, with semicolons between them. -/
def joined (errors : List Failure) : String := String.intercalate "; " (errors.map Failure.text)

/-- The text of a failure with those of its compensation. -/
def withCompensation (err : Failure) (errors : List Failure) : String :=
  if errors = [] then err.text else err.text ++ "; compensation: " ++ joined errors

/-! ## Upgrades -/

/-- What `upgrade` is called with. -/
structure UpgradeRequest where
  toVersion : String
  fromVersion : Option String := none
  channel : String := "stable"
  dryRun : Bool := false
  deriving DecidableEq, Repr

/-- What a call returns. -/
structure CallResult where
  dryRun : Bool := false
  reused : Bool := false
  repaired : Bool := false
  activeVersion : String
  previousVersion : String
  generation : Nat := 0
  transactionID : String := ""
  deriving DecidableEq, Repr

/-- The active state and the version that was installed before there was one. -/
def currentInstall {ℓ : Type} (request : UpgradeRequest) :
    Steps ℓ (Option ActiveState × Option String) := do
  match ← loadOptionalActive with
  | some active => do
    raiseIf request.fromVersion.isSome
      (.other "--from is only valid when migrating a legacy installation.")
    return (some active, none)
  | none => do
    let legacy ← discoverLegacyInstall P request.fromVersion
    raiseIf (legacy = some request.toVersion ∧ request.fromVersion.isSome)
      (.other "--from must differ from --to.")
    return (none, if legacy = some request.toVersion then none else legacy)

/-- The version that is in use, empty if there is none. -/
def currentVersion (active : Option ActiveState) (legacy : Option String) : String :=
  match active with
  | some state => state.activeVersion
  | none => legacy.getD ""

/-- Note what an upgrade starts from. -/
def selectPrevious (request : UpgradeRequest) : Steps Progress (Option String) := do
  let (active, legacy) ← currentInstall P request
  assign fun progress => { progress with
    active := active
    previousVersion := currentVersion active legacy
    previousCore := (active.map (·.activeVersion)).or legacy }
  raiseIf (active.any fun state => state.target ≠ "" && state.target ≠ P.target.id)
    (.other ("Active target " ++ ((active.map (·.target)).getD "") ++ " does not match " ++
      P.target.id ++ "."))
  return legacy

/-- Read the bridge of the service, which is the other bridge where it has none of its own. -/
def readServiceBridge (bridge : Option Content) : Steps Progress (Option Content) :=
  if P.target.serviceBridgeFileName.isSome then readOptional .serviceBridge else return bridge

/-- Read the bridges and note what they are. -/
def readBridges : Steps Progress Unit := do
  perform (.check "stable bridge directory")
  let bridge ← readOptional .bridge
  assign fun progress => { progress with previousBridge := bridge }
  let serviceBridge ← readServiceBridge P bridge
  assign fun progress => { progress with previousServiceBridge := serviceBridge }

/-- Whether the bridges are those of the active state. -/
def bridgesReady (active : ActiveState) (progress : Progress) : Bool :=
  progress.previousBridge.any (fun bridge => P.checksumOf bridge = active.bridgeChecksum) &&
    (P.target.serviceBridgeFileName.isNone ||
      progress.previousServiceBridge.any fun bridge =>
        some (P.checksumOf bridge) = active.serviceBridgeChecksum)

/-- Whether metadata is that of the active state. -/
def InstallMetadata.matches (metadata : InstallMetadata) (active : ActiveState) : Bool :=
  !metadata.legacy && metadata.checksum = active.checksum &&
    metadata.bridgeChecksum = some active.bridgeChecksum &&
    metadata.serviceBridgeChecksum = active.serviceBridgeChecksum

/-- Use a version that is already active; otherwise it has to be repaired. -/
def reuseActive (toVersion : String) (active : ActiveState) :
    Steps Progress (Option CallResult) := do
  match ← installedIfAny P toVersion with
  | none => return none
  | some metadata => do
    raiseIf (¬ metadata.matches active)
      (.other ("Active AgentBell version " ++ toVersion ++ " conflicts with its install metadata."))
    readBridges P
    let progress ← locals
    if bridgesReady P active progress then do
      perform (.restart toVersion false)
      return some
        { reused := true
          activeVersion := toVersion
          previousVersion := active.previousVersion.getD ""
          generation := active.generation
          transactionID := active.transactionID }
    else return none

/-- The result of an upgrade to the version that is already active, if nothing is to be done. -/
def reuseOrRepair (toVersion : String) : Steps Progress (Option CallResult) := do
  let progress ← locals
  match progress.active with
  | none => return none
  | some active =>
    if active.activeVersion = toVersion then do
      let reused ← reuseActive P toVersion active
      assign fun progress => { progress with repairingSameVersion := reused.isNone }
      return reused
    else return none

/-- Start the transaction of an upgrade. -/
def beginUpgrade (toVersion : String) : Steps Progress Unit := do
  let progress ← locals
  newTransaction P (if progress.repairingSameVersion then .repair else .upgrade)
    progress.previousVersion toVersion
  onlyIf (progress.previousVersion ≠ "") (runPreflight progress.previousVersion)
  writeJournal .preflightPassed
  writeJournal .downloading

/-- Whether a bundle is another one than the active version was installed from. -/
def Bundle.conflicts (bundle : Bundle) (active : ActiveState) : Bool :=
  bundle.coreChecksum ≠ active.checksum || bundle.bridgeChecksum ≠ active.bridgeChecksum ||
    bundle.serviceBridgeChecksum ≠ active.serviceBridgeChecksum

/-- Download a bundle and install the version. -/
def stageRelease (toVersion : String) : Steps Progress Bundle := do
  let bundle ← perform (.download toVersion)
  lift (validateBundle P toVersion bundle)
  let progress ← locals
  raiseIf (progress.repairingSameVersion ∧ progress.active.any bundle.conflicts)
    (.other ("Release v" ++ toVersion ++ " conflicts with the active install checksums."))
  writeJournal .staging
  let installedNew ← installVersion P toVersion bundle progress.id
  assign fun progress => { progress with installedNew := installedNew, core := some toVersion }
  perform (.smoke toVersion)
  return bundle

/-- Stop the service that runs from the old version. -/
def quiesceService (previousCore : String) : Steps Progress Unit := do
  assign fun progress => { progress with serviceQuiesced := true }
  writeJournal .quiescingService
  perform (.quiesce previousCore false)
  perform (.cleanupResidues false)
  onlyIf P.target.serviceBridgeFileName.isSome (perform (.cleanupResidues true))

/-- Replace the bridges. -/
def replaceBridges (bundle : Bundle) : Steps Progress Unit := do
  atomicWrite (.bridge (.bytes (bundle.bridge.getD [])))
  assign fun progress => { progress with bridgeChanged := true }
  onlyIf P.target.serviceBridgeFileName.isSome (do
    atomicWrite (.serviceBridge (.bytes (bundle.serviceBridge.getD [])))
    assign fun progress => { progress with serviceBridgeChanged := true })

/-- The generation of the next active state. -/
def nextGeneration (active : Option ActiveState) (legacy : Option String) : Nat :=
  match active with
  | some state => state.generation + 1
  | none => if legacy.isSome then 2 else 1

/-- The digest of the service bridge of a bundle, if it is not empty. -/
def Bundle.serviceChecksum (bundle : Bundle) : Option String :=
  bundle.serviceBridgeChecksum.filter fun checksum => checksum ≠ ""

/-- The active state after a repair. -/
def repairedState (active : ActiveState) (bundle : Bundle) (generation : Nat) (id : String) :
    ActiveState :=
  { active with
    generation := generation
    checksum := bundle.coreChecksum
    bridgeChecksum := bundle.bridgeChecksum
    serviceBridgeChecksum := bundle.serviceChecksum.or active.serviceBridgeChecksum
    transactionID := id }

/-- The active state after an upgrade. -/
def upgradedState (toVersion previousVersion : String) (bundle : Bundle)
    (generation : Nat) (id : String) : ActiveState where
  generation := generation
  activeVersion := toVersion
  previousVersion := if previousVersion = "" then none else some previousVersion
  target := P.target.id
  checksum := bundle.coreChecksum
  bridgeChecksum := bundle.bridgeChecksum
  serviceBridgeChecksum := bundle.serviceChecksum
  transactionID := id

/-- The active state a transaction switches to. -/
def nextActive (toVersion : String) (legacy : Option String) (bundle : Bundle)
    (progress : Progress) : ActiveState :=
  match progress.active, progress.repairingSameVersion with
  | some active, true =>
    repairedState active bundle (nextGeneration progress.active legacy) progress.id
  | _, _ => upgradedState P toVersion progress.previousVersion bundle
      (nextGeneration progress.active legacy) progress.id

/-- Switch the active state, restart the service and commit. -/
def commitActive (state : ActiveState) (toVersion : String) : Steps Progress Unit := do
  atomicWrite (.activation state)
  assign fun progress => { progress with activeWritten := true }
  perform (.restart toVersion false)
  writeJournal .committed

/-- Switch to the installed version. -/
def activate (toVersion : String) (legacy : Option String) (bundle : Bundle) :
    Steps Progress CallResult := do
  readBridges P
  let progress ← locals
  onlyFor (fun previousCore => onlyIf P.windows (quiesceService P previousCore))
    progress.previousCore
  writeJournal .activating
  replaceBridges P bundle
  let generation := nextGeneration progress.active legacy
  assign fun progress => { progress with attemptedGeneration := generation }
  commitActive (nextActive P toVersion legacy bundle progress) toVersion
  return {
    repaired := progress.repairingSameVersion
    activeVersion := toVersion
    previousVersion :=
      if progress.repairingSameVersion then (progress.active.bind (·.previousVersion)).getD ""
      else progress.previousVersion
    generation := generation
    transactionID := progress.id }

/-- The transaction of an upgrade. -/
def upgradeTransaction (request : UpgradeRequest) : Steps Progress CallResult := do
  let legacy ← selectPrevious P request
  match ← reuseOrRepair P request.toVersion with
  | some result => return result
  | none => do
    beginUpgrade P request.toVersion
    let bundle ← stageRelease P request.toVersion
    activate P request.toVersion legacy bundle

/-- Report that the preflight of a compensation was rejected. -/
def blockCompensation (err preflightError : Failure) : Steps Progress Unit := do
  assign fun progress => { progress with
    transaction := progress.transaction.map fun transaction => { transaction with
      compensation := some ⟨.blocked, [{
        action := "post-failure-rollback-preflight"
        status := .failed
        error := cut preflightError.text }]⟩ } }
  writeJournal .compensationBlocked
    (err.text ++ "; rollback preflight: " ++ preflightError.text)
  raise (.aggregate
    "AgentBell upgrade failed and automatic rollback was blocked by preflight.")

/-- Whether an upgrade has changed anything. -/
def Progress.changed (progress : Progress) : Bool :=
  progress.bridgeChanged || progress.serviceBridgeChanged || progress.serviceQuiesced ||
    progress.activeWritten

/-- The status of a failed upgrade. -/
def failedStatus (progress : Progress) (errors : List Failure) : Status :=
  if progress.changed then if errors = [] then .rolledBack else .compensationFailed else .failed

/-- Undo what a failed upgrade has changed and note it in the transaction. -/
def undo (progress : Progress) : Steps Progress (List Failure) :=
  if progress.transaction.isSome ∧ (progress.changed ∨ progress.installedNew) then do
    let (compensation, errors) ← enclosed (compensateUpgrade progress)
      { activeRestored := !progress.activeWritten }
    assign fun progress => { progress with
      transaction := progress.transaction.map fun transaction =>
        { transaction with compensation := some compensation } }
    return errors
  else return []

/-- Handle the failure of an upgrade. -/
def failUpgrade {α : Type} (err : Failure) : Steps Progress α := do
  let progress ← locals
  raiseIf (progress.status = some .preflightRejected) err
  onlyIf (progress.transaction.isSome && progress.activeWritten && progress.previousVersion ≠ "")
    (catching (perform (.preflight progress.previousVersion)) (blockCompensation err))
  let errors ← undo progress
  onlyIf (progress.status.any fun status =>
      !([.rolledBack, .committed, .preflightRejected, .compensationBlocked].contains status))
    (writeJournal (failedStatus progress errors) (withCompensation err errors))
  raiseIf (errors ≠ []) (.aggregate ("AgentBell upgrade failed (" ++ err.text ++
    ") and compensation was incomplete."))
  raise err

/-- The result of a dry run. -/
def dryRunUpgrade (active : Option ActiveState) (legacy : Option String) (toVersion : String) :
    Steps Progress CallResult := do
  onlyIf (currentVersion active legacy ≠ "") (perform (.preflight (currentVersion active legacy)))
  return {
    dryRun := true
    activeVersion := toVersion
    previousVersion := currentVersion active legacy }

/-- Upgrade to a version, or repair the version that is active. -/
def upgrade (request : UpgradeRequest) : Steps Progress CallResult := do
  assertVersion request.toVersion
  raiseIf (request.fromVersion.any fun version => !isVersion version)
    (.other ("Invalid AgentBell version: " ++ request.fromVersion.getD ""))
  raiseIf (request.fromVersion = some request.toVersion) (.other "--from must differ from --to.")
  raiseIf (¬ ["stable", "next"].contains request.channel)
    (.other ("Unsupported AgentBell release channel: " ++ request.channel))
  perform (.check "AgentBell data root")
  let (current, legacy) ← currentInstall P request
  if request.dryRun then dryRunUpgrade current legacy request.toVersion
  else do
    perform .acquire
    lastly (catching (upgradeTransaction P request) failUpgrade) (perform .release)

/-! ## Rollbacks -/

/-- What `rollback` is called with. -/
structure RollbackRequest where
  toVersion : Option String := none
  dryRun : Bool := false
  deriving DecidableEq, Repr

/-- What a rollback goes from and to. -/
structure Selection where
  current : ActiveState
  selected : String
  installed : InstallMetadata

/-- Choose the version of a rollback. -/
def resolveRollbackSelection {ℓ : Type} (toVersion : Option String) : Steps ℓ Selection := do
  let current ← loadActive
  -- An empty text counts as no text, as it does for `||`.
  match (toVersion.filter (· ≠ "")).or current.previousVersion with
  | none => raise (.other "No previous AgentBell version is available.")
  | some selected => do
    assertVersion selected
    raiseIf (selected = current.activeVersion)
      (.other ("AgentBell " ++ selected ++ " is already active."))
    catching (do
        let _ ← installedMetadata P current.activeVersion
        let installed ← installedMetadata P selected
        return ⟨current, selected, installed⟩)
      fun
        | .missing => raise (.other ("AgentBell " ++ selected ++ " is not installed."))
        | err => raise err

/-- Whether a version can run the service. -/
def supportsM2Runtime (version : String) : Bool :=
  match leadingNumber version.toList with
  | none => false
  | some (major, rest) =>
    match (withoutDot rest).bind leadingNumber with
    | none => false
    | some (minor, rest) =>
      ((withoutDot rest).bind leadingNumber).isSome &&
        (0 < numberOf major || 3 ≤ numberOf minor)

/-- The active state a rollback switches to. -/
def rolledBackState (selection : Selection) (id : String) : ActiveState where
  generation := selection.current.generation + 1
  activeVersion := selection.selected
  previousVersion := some selection.current.activeVersion
  serviceVersion := if supportsM2Runtime selection.selected then none
    else some (selection.current.serviceVersion.getD selection.current.activeVersion)
  serviceChecksum := if supportsM2Runtime selection.selected then none
    else some (selection.current.serviceChecksum.getD selection.current.checksum)
  target := P.target.id
  checksum := selection.installed.checksum
  bridgeChecksum := selection.current.bridgeChecksum
  serviceBridgeChecksum := selection.current.serviceBridgeChecksum
  transactionID := id

/-- Undo a rollback. -/
def restorePrevious (current : ActiveState) (generation : Nat) (id : String) :
    Steps Recovery (Compensation × List Failure) := do
  let restored := restoredState current generation id
  attemptStep "restore-active" (do
    atomicWrite (.restoration restored)
    assign fun recovery => { recovery with restoredActive := some restored })
  let recovery ← locals
  onlyIf recovery.restoredActive.isSome
    (attemptStep "restart-previous-service" (perform (.restart current.activeVersion true)))
  let recovery ← locals
  return (⟨if recovery.errors = [] then .completed else .failed, recovery.steps⟩, recovery.errors)

/-- Handle the failure of the restart after a rollback. -/
def compensateRollback (current : ActiveState) (generation : Nat) (err : Failure) :
    Steps Progress Unit := do
  let progress ← locals
  let (compensation, errors) ← enclosed (restorePrevious current generation progress.id) {}
  assign fun progress => { progress with
    transaction := progress.transaction.map fun transaction =>
      { transaction with compensation := some compensation } }
  writeJournal (if errors = [] then .rolledBack else .compensationFailed)
    (withCompensation err errors)
  raiseIf (errors ≠ []) (.aggregate ("AgentBell rollback failed (" ++ err.text ++
    ") and compensation was incomplete."))
  raise err

/-- The transaction of a rollback. -/
def rollbackTransaction (selection : Selection) : Steps Progress CallResult := do
  runPreflight selection.selected
  writeJournal .preflightPassed
  writeJournal .smoke
  perform (.smoke selection.selected)
  let progress ← locals
  writeJournal .activating
  atomicWrite (.activation (rolledBackState P selection progress.id))
  catching (perform (.restart selection.current.activeVersion false))
    (compensateRollback selection.current (selection.current.generation + 1))
  writeJournal .committed
  return {
    activeVersion := selection.selected
    previousVersion := selection.current.activeVersion
    generation := selection.current.generation + 1
    transactionID := progress.id }

/-- Handle the failure of a rollback. -/
def failRollback {α : Type} (err : Failure) : Steps Progress α := do
  let progress ← locals
  onlyIf (progress.status.any fun status =>
      !([.rolledBack, .committed, .preflightRejected, .compensationFailed].contains status))
    (writeJournal .failed err.text)
  raise err

/-- The result of a dry run. -/
def dryRunRollback (toVersion : Option String) : Steps Progress CallResult := do
  let selection ← resolveRollbackSelection P toVersion
  perform (.preflight selection.selected)
  return {
    dryRun := true
    activeVersion := selection.selected
    previousVersion := selection.current.activeVersion }

/-- Choose the version of a rollback; the lock is given back if that fails. -/
def selectOrRelease (toVersion : Option String) : Steps Progress Selection :=
  catching (resolveRollbackSelection P toVersion) fun err => do
    perform .release
    raise err

/-- Switch back to an installed version. -/
def rollback (request : RollbackRequest) : Steps Progress CallResult := do
  perform (.check "AgentBell data root")
  if request.dryRun then dryRunRollback P request.toVersion
  else do
    perform .acquire
    let selection ← selectOrRelease P request.toVersion
    newTransaction P .rollback selection.current.activeVersion selection.selected
    lastly (catching (rollbackTransaction P selection) failRollback) (perform .release)

end AgentBell.Upgrade
