import AgentBell.Upgrade.Files

/-!
# Installed versions

A version of the Core lies in a directory of its own, with a file that says what it is.  A new
version is staged under the name of its transaction and moved into place as a whole.
-/

namespace AgentBell.Upgrade

open Interleaving

open Routine (raise raiseIf lift catching)

open Relay (Bytes isLowerHex)

/-- What a call takes from its platform: the digest, the release files, the kind of system and the
time as text. -/
structure Platform where
  checksum : Bytes → String
  target : Target
  windows : Bool
  now : String

/-- The digest of what a file holds. -/
def Platform.checksumOf (P : Platform) : Content → String
  | .bytes value => P.checksum value
  | _ => ""

/-- The signature status of the releases the bootstrap accepts. -/
def technicalPreview : String := "technical-preview"

/-- The check of a downloaded bundle. -/
def validateBundle (P : Platform) (version : String) (bundle : Bundle) : Except Failure Unit :=
  if bundle.core.isNone ∨ bundle.bridge.isNone then
    .error (.other "Release bundle must contain Core and bridge bytes.")
  else if ¬ (isLowerHex 64 bundle.coreChecksum ∧
      bundle.core.map P.checksum = some bundle.coreChecksum) then
    .error (.other "Core SHA-256 mismatch.")
  else if ¬ (isLowerHex 64 bundle.bridgeChecksum ∧
      bundle.bridge.map P.checksum = some bundle.bridgeChecksum) then
    .error (.other "Bridge SHA-256 mismatch.")
  else if P.target.serviceBridgeFileName.isSome ∧ ¬ (bundle.serviceBridge.isSome ∧
      bundle.serviceBridgeChecksum.any (isLowerHex 64) ∧
      bundle.serviceBridge.map P.checksum = bundle.serviceBridgeChecksum) then
    .error (.other "Service bridge SHA-256 mismatch.")
  else if bundle.signatureStatus ≠ technicalPreview ∨ bundle.manifestSchema ≠ 1 ∨
      bundle.manifestVersion ≠ version then
    .error (.other "Release bundle manifest is invalid.")
  else .ok ()

/-- The metadata a transaction writes for a version. -/
def newMetadata (P : Platform) (version : String) (bundle : Bundle) (transactionID : String) :
    InstallMetadata where
  schemaVersion := some 1
  version := version
  target := P.target.id
  fileName := P.target.fileName
  checksum := bundle.coreChecksum
  bridgeFileName := some P.target.bridgeFileName
  bridgeChecksum := some bundle.bridgeChecksum
  serviceBridgeFileName := P.target.serviceBridgeFileName
  serviceBridgeChecksum :=
    if P.target.serviceBridgeFileName.isSome then bundle.serviceBridgeChecksum else none
  installedAt := P.now
  signatureStatus := bundle.signatureStatus
  transactionID := some transactionID

/-- Whether metadata is of the time before there were bridges. -/
def InstallMetadata.legacy (metadata : InstallMetadata) : Bool := metadata.schemaVersion.isNone

/-- Whether old metadata has fields of the new kind. -/
def InstallMetadata.unknownFields (metadata : InstallMetadata) : Bool :=
  metadata.legacy && (metadata.bridgeFileName.isSome || metadata.bridgeChecksum.isSome ||
    metadata.serviceBridgeFileName.isSome || metadata.serviceBridgeChecksum.isSome ||
    metadata.transactionID.isSome)

/-- Whether metadata describes the Core of a version. -/
def InstallMetadata.describes (P : Platform) (version : String) (core : Content)
    (metadata : InstallMetadata) : Bool :=
  (metadata.legacy || metadata.schemaVersion = some 1) && metadata.version = version &&
    metadata.target = P.target.id && metadata.fileName = P.target.fileName &&
    isLowerHex 64 metadata.checksum && P.checksumOf core = metadata.checksum &&
    metadata.signatureStatus = technicalPreview && metadata.installedAt ≠ ""

/-- Whether the bridges of new metadata are those of the platform. -/
def InstallMetadata.bridgesFit (P : Platform) (metadata : InstallMetadata) : Bool :=
  metadata.bridgeFileName = some P.target.bridgeFileName &&
    metadata.bridgeChecksum.any (isLowerHex 64) &&
    (metadata.serviceBridgeFileName.isNone = metadata.serviceBridgeChecksum.isNone) &&
    (metadata.serviceBridgeFileName.isNone ||
      (metadata.serviceBridgeFileName = P.target.serviceBridgeFileName &&
        metadata.serviceBridgeChecksum.any (isLowerHex 64))) &&
    (P.target.serviceBridgeFileName.isSome ||
      (metadata.serviceBridgeFileName.isNone && metadata.serviceBridgeChecksum.isNone)) &&
    metadata.transactionID.any fun id => id ≠ ""

/-- Take a document as the metadata of a version. -/
def asMetadata (version : String) : Content → Except Failure InstallMetadata
  | .metadata metadata =>
    if metadata.unknownFields then
      .error (.other ("AgentBell " ++ version ++ " install metadata has unknown fields."))
    else .ok metadata
  | _ => .error (.other ("AgentBell " ++ version ++ " install metadata must be an object."))

section Routines

variable {ℓ : Type}

/-- Read and check the metadata of an installed version. -/
def installedMetadata (P : Platform) (version : String) : Steps ℓ InstallMetadata := do
  perform (.check "managed version directory")
  let document ← perform (.read (.metadata version))
  let metadata ← lift (asMetadata version document)
  let core ← perform (.read (.core version))
  raiseIf (¬ metadata.describes P version core)
    (.other ("Installed AgentBell version " ++ version ++ " is invalid."))
  raiseIf (¬ metadata.legacy ∧ ¬ metadata.bridgesFit P)
    (.other ("Installed AgentBell version " ++ version ++ " is invalid."))
  return metadata

/-- The metadata of a version, if it is installed. -/
def installedIfAny (P : Platform) (version : String) : Steps ℓ (Option InstallMetadata) :=
  catching (do return some (← installedMetadata P version)) fun
    | .missing => return none
    | err => raise err

/-- The versions among the given ones that are installed. -/
def installedVersions (P : Platform) : List String → Steps ℓ (List String)
  | [] => return []
  | version :: rest => do
    let found ← catching (do
        let _ ← installedMetadata P version
        return [version])
      fun _ => return []
    let others ← installedVersions P rest
    return found ++ others

/-- Fail for a text that is not a version. -/
def assertVersion (version : String) : Steps ℓ Unit :=
  raiseIf (¬ isVersion version) (.other ("Invalid AgentBell version: " ++ version))

/-- The version that was installed before there was an active state. -/
def discoverLegacyInstall (P : Platform) :
    Option String → Steps ℓ (Option String)
  | some fromVersion => do
    assertVersion fromVersion
    let _ ← installedMetadata P fromVersion
    return some fromVersion
  | none => do
    let entries ← perform .list
    match ← installedVersions P (entries.filter isVersion) with
    | [] => return none
    | [version] => return some version
    | _ => raise (.other ("Multiple legacy AgentBell versions are installed; " ++
        "rerun upgrade with --from <version>."))

/-- Whether metadata is what a bundle would be installed with. -/
def InstallMetadata.agrees (metadata : InstallMetadata) (bundle : Bundle) : Bool :=
  !metadata.legacy && metadata.checksum = bundle.coreChecksum &&
    metadata.bridgeChecksum = some bundle.bridgeChecksum &&
    metadata.serviceBridgeChecksum = bundle.serviceBridgeChecksum

/-- Check that a version that is already there is the one of the bundle, and write its metadata if
there is none. -/
def checkExisting (P : Platform) (version : String) (bundle : Bundle) (transactionID : String) :
    Steps ℓ Unit := do
  let existing ← perform (.read (.core version))
  raiseIf (P.checksumOf existing ≠ bundle.coreChecksum)
    (.other ("Installed Core " ++ version ++ " conflicts with the release checksum."))
  catching (do
      let cached ← installedMetadata P version
      raiseIf (¬ cached.agrees bundle)
        (.other ("Installed Core " ++ version ++ " conflicts with the release metadata.")))
    fun
      | .missing => atomicWrite (.metadata version (newMetadata P version bundle transactionID))
      | err => raise err

/-- Stage a version and move it into place. -/
def stageVersion (P : Platform) (version : String) (bundle : Bundle) (transactionID : String) :
    Steps ℓ Unit := do
  perform (.removeVersion version)
  perform (.removeStaging transactionID)
  perform (.makeStaging transactionID)
  atomicWrite (.stagedCore transactionID (bundle.core.getD []))
  atomicWrite (.stagedMetadata transactionID (newMetadata P version bundle transactionID))
  perform (.moveStaging transactionID version)
  perform .syncVersions

/-- Install a version unless it is already there.  Whatever throws `ENOENT` while the existing
version is checked makes it count as missing. -/
def installVersion (P : Platform) (version : String) (bundle : Bundle) (transactionID : String) :
    Steps ℓ Bool := do
  perform (.check "managed version directory")
  let present ← catching (do
      checkExisting P version bundle transactionID
      return true)
    fun
      | .missing => return false
      | err => raise err
  if present then return false
  else do
    stageVersion P version bundle transactionID
    return true

end Routines

end AgentBell.Upgrade
