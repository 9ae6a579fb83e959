import Mathlib.Data.List.AList
import AgentBell.Interleaving.Program
import AgentBell.Relay.Protocol

/-!
# Pairing codes

The pairing store: a record is created under the hash of its code in `pending`, `Claim` moves it
to `inflight` under a lease, `Release` moves it back and `Commit` moves it to `history`.  Each
operation is a program over single file-system steps, in the order of the code.  A write or a
move may fail before or after it took effect.

The storage lock of a record is taken or not taken as the environment decides, and the clock
shows any time.  The store also records which process wrote the last claim of a code.
-/

namespace AgentBell.Relay

open Interleaving

/-! ## Records and codes -/

/-- What a pairing code allows. -/
structure PairingPolicy where
  teamID : String
  allowedSources : List String
  allowedRuntimes : List String
  deriving DecidableEq, Repr

/-- A pairing record as it is stored. -/
structure PairingRecord where
  version : Int
  id : String
  codeHash : String
  policy : PairingPolicy
  createdAt : Time
  expiresAt : Time
  claimID : String := ""
  leaseUntil : Time := 0
  peerID : String := ""
  consumedAt : Time := 0
  deriving DecidableEq, Repr

/-- A claim: the claimed record and the id of the claim. -/
structure PairingClaim where
  record : PairingRecord
  claimID : String
  deriving DecidableEq, Repr

/-- Why an operation on the pairing store fails. -/
inductive PairingError where
  | invalidCode
  | notFound
  | claimed
  | expired
  | consumed
  | other (text : String)
  deriving DecidableEq, Repr

/-- The version of stored records. -/
def pairingVersion : Int := 1

/-- The shortest lifetime of a code. -/
def minimumPairingTTL : Duration := 2 * minute

/-- The longest lifetime of a code. -/
def maximumPairingTTL : Duration := 30 * minute

/-- The characters of a code. -/
def isPairingChar (c : Char) : Bool := "0123456789ABCDEFGHJKMNPQRSTVWXYZ".toList.contains c

/-- Whether a text consists of groups of eight characters, each after a dash. -/
def isPairingGroups : Nat → List Char → Bool
  | 0, text => text.isEmpty
  | groups + 1, '-' :: rest =>
    (rest.take 8).length = 8 && (rest.take 8).all isPairingChar &&
      isPairingGroups groups (rest.drop 8)
  | _, _ => false

/-- Whether a text is a code. -/
def isPairingCode (text : String) : Bool :=
  match text.toList with
  | 'A' :: 'G' :: 'B' :: 'R' :: rest => isPairingGroups 4 rest
  | _ => false

/-- The hash of a code and the id of its record. -/
def pairingIdentity (P : Primitives) (code : String) : Except PairingError (String × String) :=
  let canonical := P.upper (trimSpace code)
  if isPairingCode canonical then
    .ok ("sha256:" ++ P.sha256 (utf8 canonical), P.sha256 (utf8 canonical))
  else .error .invalidCode

/-- The check of a list of allowed values. -/
def validatePairingValues (label : String) (values : List String) (allowed : String → Bool) :
    Except String Unit := validateValues label values allowed

/-- The check of a policy. -/
def PairingPolicy.validate (policy : PairingPolicy) : Except String Unit := do
  validateIdentifier "teamId" policy.teamID
  validatePairingValues "allowedSources" policy.allowedSources Event.isKnownSource
  validatePairingValues "allowedRuntimes" policy.allowedRuntimes
    fun value => Event.isKnownRuntime value && value ≠ "host"

/-- The checks on a record that was read. -/
def PairingRecord.check (record : PairingRecord) : Except String Unit := do
  failIf (record.version ≠ pairingVersion ∨ record.id.utf8ByteSize ≠ 64 ∨
      record.codeHash ≠ "sha256:" ++ record.id ∨ record.createdAt.isZero ∨
      record.expiresAt.isZero ∨ ¬ record.createdAt < record.expiresAt ∨
      decide (record.claimID = "") ≠ record.leaseUntil.isZero ∨
      decide (record.peerID = "") ≠ record.consumedAt.isZero)
    "invalid persisted relay pairing record"
  record.policy.validate

/-! ## The store and its commands -/

/-- The directories of the store. -/
inductive PairingDirectory where
  | pending
  | inflight
  | history
  deriving DecidableEq, Repr

/-- The pairing store, together with a record of which process wrote the last claim of a
code. -/
structure PairingStore where
  records : AList (fun _ : PairingDirectory × String => PairingRecord) := ∅
  claimants : AList (fun _ : String => Nat) := ∅

/-- One step of a pairing operation. -/
inductive PairingCmd where
  | clock
  | newCode
  | randomHex
  | lock (id : String)
  | unlock (id : String)
  | read (directory : PairingDirectory) (id : String)
  | stat (directory : PairingDirectory) (id : String)
  | create (id : String) (record : PairingRecord)
  | write (directory : PairingDirectory) (id : String) (record : PairingRecord)
  | writeClaim (process : Nat) (directory : PairingDirectory) (id : String)
      (record : PairingRecord)
  | move (source destination : PairingDirectory) (id : String)

/-- How the creation of a record ends. -/
inductive CreateResult where
  | created
  | exists
  | failed
  deriving DecidableEq, Repr

/-- The replies of the commands. -/
@[reducible] def PairingReply : PairingCmd → Type
  | .clock => Time
  | .newCode => String
  | .randomHex => String
  | .lock _ => Bool
  | .unlock _ => Unit
  | .read _ _ => Except PairingError (Option PairingRecord)
  | .stat _ _ => Bool
  | .create _ _ => CreateResult
  | .write _ _ _ => Bool
  | .writeClaim _ _ _ _ => Bool
  | .move _ _ _ => Bool

/-- What the environment decides at a command. -/
inductive PairingChoice where
  | works
  | failsBefore
  | failsAfter
  | time (now : Time)
  | text (value : String)

/-- The store after a record was written. -/
def PairingStore.put (s : PairingStore) (directory : PairingDirectory) (id : String)
    (record : PairingRecord) : PairingStore :=
  { s with records := s.records.insert (directory, id) record }

/-- The store after a record was moved, if it was there. -/
def PairingStore.move (s : PairingStore) (source destination : PairingDirectory) (id : String) :
    Option PairingStore :=
  (s.records.lookup (source, id)).map fun record =>
    { s with records := (s.records.erase (source, id)).insert (destination, id) record }

/-- What a command does. -/
def pairingExec (x : PairingChoice) :
    (c : PairingCmd) → PairingStore → Option (PairingReply c × PairingStore)
  | .clock, s =>
    match x with
    | .time now => some (now, s)
    | _ => none
  | .newCode, s =>
    match x with
    | .text value => some (value, s)
    | _ => none
  | .randomHex, s =>
    match x with
    | .text value => some (value, s)
    | _ => none
  | .lock _, s =>
    match x with
    | .works => some (true, s)
    | .failsBefore => some (false, s)
    | _ => none
  | .unlock _, s => some ((), s)
  | .read directory id, s =>
    match x with
    | .works => some (.ok (s.records.lookup (directory, id)), s)
    | .failsBefore => some (.error (.other "read relay pairing record"), s)
    | _ => none
  | .stat directory id, s => some (decide ((directory, id) ∈ s.records), s)
  | .create id record, s =>
    match x with
    | .works =>
      if (PairingDirectory.pending, id) ∈ s.records then some (.exists, s)
      else some (.created, s.put .pending id record)
    | .failsBefore => some (.failed, s)
    | .failsAfter =>
      if (PairingDirectory.pending, id) ∈ s.records then some (.exists, s)
      else some (.failed, s.put .pending id record)
    | _ => none
  | .write directory id record, s =>
    match x with
    | .works => some (true, s.put directory id record)
    | .failsBefore => some (false, s)
    | .failsAfter => some (false, s.put directory id record)
    | _ => none
  | .writeClaim process directory id record, s =>
    match x with
    | .works => some (true, { s.put directory id record with
        claimants := s.claimants.insert record.id process })
    | .failsBefore => some (false, s)
    | .failsAfter => some (false, s.put directory id record)
    | _ => none
  | .move source destination id, s =>
    match x with
    | .works =>
      match s.move source destination id with
      | some moved => some (true, moved)
      | none => some (false, s)
    | .failsBefore => some (false, s)
    | .failsAfter => some (false, (s.move source destination id).getD s)
    | _ => none

/-- The machine of the pairing store. -/
def pairingMachine : Machine PairingCmd PairingReply PairingStore PairingChoice := ⟨pairingExec⟩

/-- A program over the commands of the pairing store. -/
abbrev PairingProg := Prog PairingCmd PairingReply

/-- The program that issues one command. -/
abbrev onPairing (c : PairingCmd) : PairingProg (PairingReply c) := Prog.issue c

/-! ## The operations -/

/-- Read and check a record. -/
def readPairing (directory : PairingDirectory) (id : String) :
    PairingProg (Except PairingError (Option PairingRecord)) := do
  match ← onPairing (.read directory id) with
  | .error err => return .error err
  | .ok none => return .ok none
  | .ok (some record) =>
    match record.check with
    | .error message => return .error (.other message)
    | .ok () => return .ok (some record)

/-- Try new codes until one is not taken. -/
def createRecord (P : Primitives) (policy : PairingPolicy) (ttl : Duration) (now : Time) :
    Nat → PairingProg (Except PairingError (String × PairingRecord))
  | 0 => return .error (.other "could not generate a unique relay pairing code")
  | tries + 1 => do
    let code ← onPairing .newCode
    match pairingIdentity P code with
    | .error err => return .error err
    | .ok (codeHash, id) =>
      let record : PairingRecord :=
        { version := pairingVersion
          id := id
          codeHash := codeHash
          policy := policy
          createdAt := now
          expiresAt := now + ttl }
      match ← onPairing (.create id record) with
      | .created => return .ok (code, record)
      | .exists => createRecord P policy ttl now tries
      | .failed => return .error (.other "write relay pairing record")

/-- Create a record for a new code. -/
def create (P : Primitives) (policy : PairingPolicy) (ttl : Duration) (now : Time) :
    PairingProg (Except PairingError (String × PairingRecord)) :=
  match policy.validate with
  | .error message => return .error (.other message)
  | .ok () =>
    if ttl < minimumPairingTTL ∨ maximumPairingTTL < ttl then
      return .error (.other "relay pairing TTL must be between 2m0s and 30m0s")
    else if now.isZero then return .error (.other "relay pairing creation time is required")
    else createRecord P policy ttl now 8

/-- The record a claim is made on: one whose lease is over, or one nobody has claimed. -/
def claimableRecord (codeHash id : String) (now : Time) :
    PairingProg (Except PairingError PairingRecord) := do
  match ← readPairing .inflight id with
  | .error err => return .error err
  | .ok (some record) =>
    if record.codeHash ≠ codeHash then return .error .notFound
    else if now < record.leaseUntil then return .error .claimed
    else return .ok record
  | .ok none =>
    match ← readPairing .pending id with
    | .error err => return .error err
    | .ok none => return .error .notFound
    | .ok (some record) =>
      if record.codeHash ≠ codeHash then return .error .notFound
      else return .ok record

/-- Write a claim to the file a record is in, and move it to `inflight`. -/
def writeClaim (process : Nat) (id : String) (record : PairingRecord) :
    PairingProg (Except PairingError PairingClaim) := do
  let source : PairingDirectory := if ← onPairing (.stat .inflight id) then .inflight else .pending
  if ← onPairing (.writeClaim process source id record) then
    if source = .inflight then return .ok ⟨record, record.claimID⟩
    else if ← onPairing (.move .pending .inflight id) then return .ok ⟨record, record.claimID⟩
    else return .error (.other "move relay pairing record")
  else
    return .error (.other "write relay pairing record")

/-- The part of `Claim` that runs under the storage lock. -/
def claimLocked (process : Nat) (codeHash id : String) (now : Time) (lease : Duration) :
    PairingProg (Except PairingError PairingClaim) := do
  match ← readPairing .history id with
  | .error err => return .error err
  | .ok (some _) => return .error .consumed
  | .ok none =>
    match ← claimableRecord codeHash id now with
    | .error err => return .error err
    | .ok record =>
      if ¬ now < record.expiresAt then return .error .expired
      else
        let claimID ← onPairing .randomHex
        writeClaim process id { record with claimID := claimID, leaseUntil := now + lease }

/-- Claim a code for a while. -/
def claim (P : Primitives) (process : Nat) (code : String) (now : Time) (lease : Duration) :
    PairingProg (Except PairingError PairingClaim) :=
  if now.isZero then return .error (.other "relay pairing claim time is required")
  else if lease ≤ 0 ∨ maximumPairingTTL < lease then
    return .error (.other "relay pairing claim lease is invalid")
  else
    match pairingIdentity P code with
    | .error err => return .error err
    | .ok (codeHash, id) => do
      if ← onPairing (.lock id) then
        let result ← claimLocked process codeHash id now lease
        onPairing (.unlock id)
        return result
      else
        return .error (.other "timed out waiting for relay storage lock")

/-- The record of a claim that still stands, under the storage lock. -/
def claimedRecord (claim : PairingClaim) : PairingProg (Except PairingError PairingRecord) := do
  match ← readPairing .inflight claim.record.id with
  | .error err => return .error err
  | .ok (some record) =>
    if record.claimID ≠ claim.claimID then return .error .claimed
    else return .ok record
  | .ok none =>
    match ← readPairing .history claim.record.id with
    | .error err => return .error err
    | .ok (some _) => return .error .consumed
    | .ok none => return .error .notFound

/-- Write the record of a claim and move it on. -/
def finishClaim (record : PairingRecord) (destination : PairingDirectory) :
    PairingProg (Except PairingError Unit) := do
  if ← onPairing (.write .inflight record.id record) then
    if ← onPairing (.move .inflight destination record.id) then return .ok ()
    else return .error (.other "move relay pairing record")
  else
    return .error (.other "write relay pairing record")

/-- Work on the record of a claim under the storage lock. -/
def withClaim (claim : PairingClaim)
    (work : PairingRecord → PairingProg (Except PairingError Unit)) :
    PairingProg (Except PairingError Unit) :=
  if claim.record.id = "" ∨ claim.claimID = "" then
    return .error (.other "relay pairing claim is invalid")
  else do
    if ← onPairing (.lock claim.record.id) then
      match ← claimedRecord claim with
      | .error err =>
        onPairing (.unlock claim.record.id)
        return .error err
      | .ok record =>
        let result ← work record
        onPairing (.unlock claim.record.id)
        return result
    else
      return .error (.other "timed out waiting for relay storage lock")

/-- Give a claim back. -/
def release (claim : PairingClaim) (now : Time) : PairingProg (Except PairingError Unit) :=
  if now.isZero then return .error (.other "relay pairing release time is required")
  else withClaim claim fun record =>
    finishClaim { record with claimID := "", leaseUntil := 0 } .pending

/-- Use up a claimed code. -/
def commit (claim : PairingClaim) (peerID : String) (now : Time) :
    PairingProg (Except PairingError Unit) :=
  if now.isZero then return .error (.other "relay pairing commit time is required")
  else
    match validateIdentifier "peer id" peerID with
    | .error message => return .error (.other message)
    | .ok () => withClaim claim fun record =>
        if ¬ now < record.expiresAt then return .error .expired
        else finishClaim
          { record with claimID := "", leaseUntil := 0, peerID := peerID, consumedAt := now }
          .history

end AgentBell.Relay
