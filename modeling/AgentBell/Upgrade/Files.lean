import AgentBell.Interleaving.Routine
import AgentBell.Upgrade.Sidecar

/-!
# The files of a data root

The bootstrap keeps the versions of the Core, the active state, the bridges and a journal of its
transactions under one data root.  Every operation on them may fail before or after it took effect.
An operation on a file that is not there fails with `ENOENT`, and no other failure carries that
code.

The names of the temporary file and of its backup are drawn anew for every write, so there is one
place for each of them, which a write finds empty.
-/

namespace AgentBell.Upgrade

open Interleaving

open Relay (Bytes isLowerHex)

/-! ## What the files hold -/

/-- The files of a release for a platform. -/
structure Target where
  id : String
  fileName : String
  bridgeFileName : String
  serviceBridgeFileName : Option String := none
  deriving DecidableEq, Repr

/-- The document in `active.json`. -/
structure ActiveState where
  generation : Nat
  activeVersion : String
  previousVersion : Option String := none
  serviceVersion : Option String := none
  target : String
  checksum : String
  serviceChecksum : Option String := none
  bridgeChecksum : String
  serviceBridgeChecksum : Option String := none
  transactionID : String
  deriving DecidableEq, Repr

/-- What a transaction does. -/
inductive Operation where
  | upgrade
  | repair
  | rollback
  deriving DecidableEq, Repr

/-- How far a transaction is. -/
inductive Status where
  | preparing
  | preflightRejected
  | preflightPassed
  | downloading
  | staging
  | quiescingService
  | smoke
  | activating
  | committed
  | rolledBack
  | compensationFailed
  | compensationBlocked
  | failed
  deriving DecidableEq, Repr

/-- How a compensation or one of its steps ended. -/
inductive StepStatus where
  | running
  | completed
  | failed
  | skipped
  | blocked
  deriving DecidableEq, Repr

/-- A step of a compensation. -/
structure CompensationStep where
  action : String
  status : StepStatus
  error : String := ""
  deriving DecidableEq, Repr

/-- The record of a compensation. -/
structure Compensation where
  status : StepStatus
  steps : List CompensationStep
  deriving DecidableEq, Repr

/-- A transaction, as the journal records it. -/
structure Transaction where
  id : String
  operation : Operation
  status : Status
  fromVersion : String
  toVersion : String
  target : String
  error : String := ""
  compensation : Option Compensation := none
  deriving DecidableEq, Repr

/-- The document in the `install.json` of a version.  A document without a schema version is one
of the time before there were bridges. -/
structure InstallMetadata where
  schemaVersion : Option Nat
  version : String
  target : String
  fileName : String
  checksum : String
  bridgeFileName : Option String := none
  bridgeChecksum : Option String := none
  serviceBridgeFileName : Option String := none
  serviceBridgeChecksum : Option String := none
  installedAt : String
  signatureStatus : String
  transactionID : Option String := none
  deriving DecidableEq, Repr

/-- What a file holds; everything that is none of the documents is `other`. -/
inductive Content where
  | bytes (value : Bytes)
  | active (state : ActiveState)
  | journal (record : Transaction)
  | metadata (value : InstallMetadata)
  | other
  deriving DecidableEq, Repr

/-- The files of the data root. -/
inductive Path where
  | active
  | journal (id : String)
  | core (version : String)
  | metadata (version : String)
  | stagedCore (id : String)
  | stagedMetadata (id : String)
  | bridge
  | serviceBridge
  | temporary
  | backup
  deriving DecidableEq, Repr

/-- The writes of the bootstrap, with what they write. -/
inductive Write where
  | journal (record : Transaction)
  | activation (state : ActiveState)
  | restoration (state : ActiveState)
  | metadata (version : String) (value : InstallMetadata)
  | stagedCore (id : String) (core : Bytes)
  | stagedMetadata (id : String) (value : InstallMetadata)
  | bridge (value : Content)
  | serviceBridge (value : Content)
  deriving DecidableEq, Repr

/-- The file a write replaces. -/
def Write.path : Write → Path
  | .journal record => .journal record.id
  | .activation _ => .active
  | .restoration _ => .active
  | .metadata version _ => .metadata version
  | .stagedCore id _ => .stagedCore id
  | .stagedMetadata id _ => .stagedMetadata id
  | .bridge _ => .bridge
  | .serviceBridge _ => .serviceBridge

/-- What a write puts into the file. -/
def Write.content : Write → Content
  | .journal record => .journal record
  | .activation state => .active state
  | .restoration state => .active state
  | .metadata _ value => .metadata value
  | .stagedCore _ core => .bytes core
  | .stagedMetadata _ value => .metadata value
  | .bridge value => value
  | .serviceBridge value => value

/-! ## Failures -/

/-- An exception, by what the bootstrap tells apart: `ENOENT`, the codes of a refused rename, other
errors, a rejected rollback preflight, and the report of an incomplete or blocked compensation. -/
inductive Failure where
  | missing
  | refused (text : String)
  | other (text : String)
  | rejected (text : String)
  | aggregate (text : String)
  deriving DecidableEq, Repr

/-- The message of an exception. -/
def Failure.text : Failure → String
  | .missing => "ENOENT: no such file or directory"
  | .refused text => text
  | .other text => text
  | .rejected text => text
  | .aggregate text => text

/-- Why the environment lets an operation fail: with one of the codes of a refused rename, or with
another code. -/
structure Fault where
  refused : Bool
  text : String
  deriving DecidableEq, Repr

/-- The exception for a fault. -/
def Fault.failure (fault : Fault) : Failure :=
  if fault.refused then .refused fault.text else .other fault.text

/-- What a downloaded bundle holds. -/
structure Bundle where
  core : Option Bytes
  bridge : Option Bytes
  serviceBridge : Option Bytes := none
  coreChecksum : String
  bridgeChecksum : String
  serviceBridgeChecksum : Option String := none
  signatureStatus : String
  manifestSchema : Nat
  manifestVersion : String
  deriving DecidableEq, Repr

/-! ## Operations -/

/-- The steps on a temporary file that leave its content alone. -/
inductive TemporaryStep where
  | mkdir
  | sync
  | close
  | chmod
  deriving DecidableEq, Repr

/-- The operations of the bootstrap that may fail. -/
inductive Cmd where
  | check (label : String)
  | acquire
  | release
  | read (path : Path)
  | list
  | newID
  | preflight (version : String)
  | download (version : String)
  | smoke (version : String)
  | quiesce (version : String) (compensation : Bool)
  | restart (version : String) (compensation : Bool)
  | cleanupResidues (service : Bool)
  | temporary (write : Write) (step : TemporaryStep)
  | create (write : Write)
  | fill (write : Write)
  | replace (write : Write)
  | setAside (write : Write)
  | putBack (write : Write)
  | removeBackup (write : Write)
  | sync (write : Write)
  | removeTemporary (write : Write)
  | remove (path : Path)
  | removeVersion (version : String)
  | removeStaging (id : String)
  | makeStaging (id : String)
  | moveStaging (id version : String)
  | syncVersions
  deriving DecidableEq, Repr

/-- What an operation returns. -/
def Reply : Cmd → Type
  | .read _ => Content
  | .list => List String
  | .newID => String
  | .download _ => Bundle
  | _ => Unit

/-- What the environment decides about an operation. -/
inductive Choice where
  | works
  | failsBefore (fault : Fault)
  | failsAfter (fault : Fault)
  | failsHalfway (core metadata : Bool) (fault : Fault)
  | rejects (text : String)
  | gives (bundle : Bundle)
  | named (id : String)
  deriving DecidableEq, Repr

/-- The data root.  `activations` records every state that `active.json` was replaced with. -/
structure World where
  files : Path → Option Content
  versions : List String := []
  used : List String := []
  activations : List (Nat × String) := []

/-- Put something into a file, or nothing. -/
def World.put (w : World) (path : Path) (content : Option Content) : World :=
  { w with files := Function.update w.files path content }

/-- Move a file to another place. -/
def World.move (w : World) (source destination : Path) : World :=
  (w.put destination (w.files source)).put source none

/-- Record a state that `active.json` was replaced with. -/
def World.activated (w : World) (write : Write) : World :=
  match write with
  | .activation state =>
    { w with activations := w.activations ++ [(state.generation, state.transactionID)] }
  | .restoration state =>
    { w with activations := w.activations ++ [(state.generation, state.transactionID)] }
  | _ => w

/-- The directory of a version without its Core, its metadata, or both. -/
def World.removeParts (w : World) (version : String) (core metadata : Bool) : World :=
  let w := if core then w.put (.core version) none else w
  if metadata then w.put (.metadata version) none else w

/-- The directory of a version is gone. -/
def World.removeVersion (w : World) (version : String) : World :=
  { w.removeParts version true true with versions := w.versions.filter fun v => v ≠ version }

/-- The staged files of a transaction become a version. -/
def World.moveStaging (w : World) (id version : String) : World :=
  { (w.move (.stagedCore id) (.core version)).move (.stagedMetadata id) (.metadata version) with
    versions := w.versions ++ [version] }

/-- An operation that works, or fails before or after it took effect. -/
def attempt (x : Choice) (done w : World) : Option (Except Failure Unit × World) :=
  match x with
  | .works => some (.ok (), done)
  | .failsBefore fault => some (.error fault.failure, w)
  | .failsAfter fault => some (.error fault.failure, done)
  | _ => none

/-- An operation on a file that fails with `ENOENT` when the file is not there. -/
def attemptOn (x : Choice) (source : Path) (done w : World) :
    Option (Except Failure Unit × World) :=
  if (w.files source).isSome then attempt x done w
  else
    match x with
    | .works => some (.error .missing, w)
    | .failsBefore fault => some (.error fault.failure, w)
    | _ => none

/-- An operation that only returns something, or fails. -/
def answer {α : Type} (x : Choice) (reply : Except Failure α) (w : World) :
    Option (Except Failure α × World) :=
  match x with
  | .works => some (reply, w)
  | .failsBefore fault => some (.error fault.failure, w)
  | _ => none

/-- What a read returns. -/
def World.readFile (w : World) (path : Path) : Except Failure Content :=
  match w.files path with
  | some content => .ok content
  | none => .error .missing

/-- Draw a new id for a transaction. -/
def drawID (x : Choice) (w : World) : Option (Except Failure String × World) :=
  match x with
  | .named id =>
    if id ∈ w.used ∨ (w.files (.journal id)).isSome then none
    else some (.ok id, { w with used := id :: w.used })
  | _ => none

/-- The rollback preflight passes, is rejected, or fails. -/
def runRollbackPreflight (x : Choice) (w : World) : Option (Except Failure Unit × World) :=
  match x with
  | .rejects text => some (.error (.rejected text), w)
  | x => answer x (.ok ()) w

/-- Download a bundle. -/
def downloadBundle (x : Choice) (w : World) : Option (Except Failure Bundle × World) :=
  match x with
  | .gives bundle => some (.ok bundle, w)
  | .failsBefore fault => some (.error fault.failure, w)
  | _ => none

/-- Remove the directory of a version, perhaps only half of it. -/
def removeVersion (x : Choice) (version : String) (w : World) :
    Option (Except Failure Unit × World) :=
  match x with
  | .failsHalfway core metadata fault =>
    some (.error fault.failure, w.removeParts version core metadata)
  | x => attempt x (w.removeVersion version) w

/-- Move the staged files of a transaction into place, unless there is something. -/
def moveStaging (x : Choice) (id version : String) (w : World) :
    Option (Except Failure Unit × World) :=
  if (w.files (.core version)).isSome ∨ (w.files (.metadata version)).isSome then
    answer x (.error (.refused "ENOTEMPTY: directory not empty")) w
  else attempt x (w.moveStaging id version) w

/-- What an operation does to the data root. -/
def exec (x : Choice) : (c : Cmd) → World → Option (Except Failure (Reply c) × World)
  | .check _, w => attempt x w w
  | .acquire, w => attempt x w w
  | .release, w => attempt x w w
  | .read path, w => answer x (w.readFile path) w
  | .list, w => answer x (.ok w.versions) w
  | .newID, w => drawID x w
  | .preflight _, w => runRollbackPreflight x w
  | .download _, w => downloadBundle x w
  | .smoke _, w => attempt x w w
  | .quiesce _ _, w => attempt x w w
  | .restart _ _, w => attempt x w w
  | .cleanupResidues _, w => attempt x w w
  | .temporary _ _, w => attempt x w w
  | .create _, w => attempt x ((w.put .temporary (some .other)).put .backup none) w
  | .fill write, w => attempt x (w.put .temporary (some write.content)) w
  | .replace write, w =>
    attemptOn x .temporary ((w.move .temporary write.path).activated write) w
  | .setAside write, w => attemptOn x write.path (w.move write.path .backup) w
  | .putBack write, w => attemptOn x .backup (w.move .backup write.path) w
  | .removeBackup _, w => attempt x (w.put .backup none) w
  | .sync _, w => attempt x w w
  | .removeTemporary _, w => attempt x (w.put .temporary none) w
  | .remove path, w => attempt x (w.put path none) w
  | .removeVersion version, w => removeVersion x version w
  | .removeStaging id, w =>
    attempt x ((w.put (.stagedCore id) none).put (.stagedMetadata id) none) w
  | .makeStaging _, w => attempt x w w
  | .moveStaging id version, w => moveStaging x id version w
  | .syncVersions, w => attempt x w w

/-- The data root as a machine. -/
def dataRoot : Machine Cmd (fun c => Except Failure (Reply c)) World Choice where
  exec := exec

/-- A routine of the bootstrap with variables of a type. -/
abbrev Steps (ℓ α : Type) := Interleaving.Routine Cmd Reply ℓ Failure α

/-- Which operations may go which way in which data root. -/
abbrev Guard := Choice → Cmd → World → Prop

/-- A routine whose operations go as they may ends so. -/
abbrev Ends {ℓ α : Type} (g : Guard) (post : Except Failure α → ℓ → World → Prop)
    (p : Steps ℓ α) (l : ℓ) (w : World) : Prop :=
  Meets (dataRoot.guard g) post p l w

/-- Issue an operation. -/
abbrev perform {ℓ : Type} (c : Cmd) : Steps ℓ (Reply c) := Interleaving.Routine.perform c

/-! ## Atomic writes -/

section Writes

variable {ℓ : Type}

open Routine (raise catching lastly)

/-- Replace a file by way of a temporary file.  If the rename is refused, the old file is set aside
first, and put back when the second rename fails as well. -/
def atomicWrite (write : Write) : Steps ℓ Unit := do
  perform (.temporary write .mkdir)
  perform (.create write)
  lastly (do
      perform (.fill write)
      perform (.temporary write .sync))
    (perform (.temporary write .close))
  perform (.temporary write .chmod)
  lastly (do
      catching (perform (.replace write)) fun err => replaceAside err
      perform (.sync write))
    (do
      perform (.removeTemporary write)
      perform (.removeBackup write))
where
  /-- What is done when the rename throws. -/
  replaceAside : Failure → Steps ℓ Unit
    | .refused _ => do
      perform (.setAside write)
      catching (perform (.replace write)) fun err => do
        perform (.putBack write)
        raise err
      perform (.removeBackup write)
    | err => raise err

/-- Read a file that may be missing. -/
def readOptional (path : Path) : Steps ℓ (Option Content) :=
  catching (do return some (← perform (.read path))) fun
    | .missing => return none
    | err => raise err

end Writes

/-! ## The active state -/

/-- Whether a number has no leading zero. -/
def isPlainNumber (digits : List Char) : Bool := digits = ['0'] || digits.head? ≠ some '0'

/-- Whether a text matches `versionPattern`. -/
def isVersion (text : String) : Bool :=
  (do
    let (major, rest) ← leadingNumber text.toList
    let (minor, rest) ← leadingNumber (← withoutDot rest)
    let (patch, rest) ← leadingNumber (← withoutDot rest)
    let (_, rest) ← optionalPart '-' rest
    if isPlainNumber major ∧ isPlainNumber minor ∧ isPlainNumber patch ∧ rest = [] then some ()
    else none).isSome

/-- The largest integer that is exact in the language. -/
def maxSafeInteger : Nat := 2 ^ 53 - 1

/-- Whether a document is a valid active state. -/
def validateActiveState : Content → Except Failure ActiveState
  | .active state =>
    if 1 ≤ state.generation ∧ state.generation ≤ maxSafeInteger ∧ isVersion state.activeVersion ∧
        state.previousVersion.all isVersion ∧
        (state.serviceVersion.isNone ↔ state.serviceChecksum.isNone) ∧
        state.serviceVersion.all isVersion ∧ state.serviceChecksum.all (isLowerHex 64) ∧
        isLowerHex 64 state.checksum ∧ isLowerHex 64 state.bridgeChecksum ∧
        state.serviceBridgeChecksum.all (isLowerHex 64) ∧ state.transactionID ≠ "" then
      .ok state
    else .error (.other "Invalid AgentBell active state.")
  | _ => .error (.other "Invalid AgentBell active state.")

section Active

variable {ℓ : Type}

open Routine (raise lift catching)

/-- Read the active state. -/
def loadActive : Steps ℓ ActiveState := do
  let content ← perform (.read .active)
  lift (validateActiveState content)

/-- Read the active state, which may be missing. -/
def loadOptionalActive : Steps ℓ (Option ActiveState) :=
  catching (do return some (← loadActive)) fun
    | .missing => return none
    | err => raise err

end Active

end AgentBell.Upgrade
