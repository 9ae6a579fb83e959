import AgentBell.Interleaving.System
import AgentBell.Relay.Ingress
import AgentBell.Relay.Pairing
import AgentBell.RemoteConfig.Relay

/-!
# The relay runtime

Running relays with their copies of the peers, `relay.json` and the map each of them keeps in
memory, and the calls that work on them: serving with the configured peers, accepting a request,
enrolling a peer with a pairing code, and the commands that create pairing codes, write the
configuration and revoke a peer.  Every call is a program over single steps, and the calls of all
processes are interleaved in any way.

`relay.json` is changed under a lock file that holds the token of a process.  A process takes the
lock when there is none, or takes it over when it finds it stale; the code calls a lock stale
after two minutes, so a takeover may happen at any time.  A publication of `relay.json` may fail
before or after it took effect.
-/

namespace AgentBell.App

open Interleaving

open Relay (Bytes Primitives PairingProg PairingClaim PairingError)

open RemoteConfig (Libraries RelayConfig PeerChange PeerResult RelayError RelaySnapshot
  applyPeerChange relaySnapshot)

/-! ## The store and its commands -/

variable (L : Libraries)

/-- An acknowledgement that was returned, with the peer it was returned to and the keys whose
revocation had been reported when the peer was looked up. -/
structure Accepted where
  request : Relay.IngressRequest
  ack : Relay.IngressACK
  peer : Relay.Peer
  revokedBefore : List Bytes

/-- What the calls work on: `relay.json` and its lock, the pairing store, the map of each running
relay, and the state directory.  It also records the keys whose revocation was written, those
whose revocation was reported, and the acknowledgements that were returned. -/
structure Store where
  relay : Option RelayConfig := none
  holder : Option Nat := none
  pairings : Relay.PairingStore := {}
  runtimes : Nat → AList (fun _ : String => Relay.Peer) := fun _ => ∅
  ingress : Relay.Store := {}
  cut : List Bytes := []
  revoked : List Bytes := []
  accepted : List Accepted := []

/-- One step of a call.  A step inside a transaction on `relay.json` carries the token of the
process; a publication that revokes a peer carries its key. -/
inductive Cmd where
  | acquire (token : Nat)
  | ownsLock (token : Nat)
  | removeLock (token : Nat)
  | load (token : Option Nat)
  | save (token : Nat) (config : RelayConfig) (revokes : Option Bytes)
  | pairing (c : Relay.PairingCmd)
  | ingress (c : Relay.Cmd)
  | lookupPeer (runtime : Nat) (keyID : String)
  | setPeer (runtime : Nat) (peer : Relay.Peer)
  | setPeers (runtime : Nat) (peers : List Relay.Peer)
  | reportRevoked (key : Bytes)
  | reportAccepted (entry : Accepted)

/-- The replies of the commands.  A look-up of a peer also records the revocations reported so
far. -/
@[reducible] def Reply : Cmd → Type
  | .acquire _ => Bool
  | .ownsLock _ => Bool
  | .removeLock _ => Unit
  | .load _ => Except RelayError RelayConfig
  | .save _ _ _ => Bool
  | .pairing c => Relay.PairingReply c
  | .ingress c => Relay.Reply c
  | .lookupPeer _ _ => Option Relay.Peer × List Bytes
  | .setPeer _ _ => Unit
  | .setPeers _ _ => Unit
  | .reportRevoked _ => Unit
  | .reportAccepted _ => Unit

/-- What the environment decides at a command. -/
inductive Choice where
  | works
  | takesOver
  | failsBefore
  | failsAfter
  | pairing (x : Relay.PairingChoice)
  | ingress (x : Relay.Choice)

/-- Read and check `relay.json`. -/
def loadRelay : Option RelayConfig → Except RelayError RelayConfig
  | none => .error .notFound
  | some config =>
    match config.validate L with
    | .error message => .error (.other ("validate relay.json: " ++ message))
    | .ok () => .ok config

/-- The map of the peers of a list; a later peer replaces an earlier one of the same id. -/
def peerMap (peers : List Relay.Peer) : AList (fun _ : String => Relay.Peer) :=
  peers.foldl (fun entries peer => entries.insert peer.id peer) ∅

/-- The store after the map of a relay was changed. -/
def Store.setRuntime (s : Store) (runtime : Nat) (peers : AList (fun _ : String => Relay.Peer)) :
    Store :=
  { s with runtimes := Function.update s.runtimes runtime peers }

/-- The store after the configuration was published. -/
def Store.publish (s : Store) (config : RelayConfig) (revokes : Option Bytes) : Store :=
  { s with relay := some config, cut := revokes.toList ++ s.cut }

/-- What a command does. -/
def exec (x : Choice) : (c : Cmd) → Store → Option (Reply c × Store)
  | .acquire token, s =>
    match x with
    | .works => if s.holder = none then some (true, { s with holder := some token }) else none
    | .takesOver => if s.holder = none then none else some (true, { s with holder := some token })
    | .failsBefore => some (false, s)
    | .failsAfter => if s.holder = none then some (false, { s with holder := some token }) else none
    | _ => none
  | .ownsLock token, s =>
    match x with
    | .works => some (decide (s.holder = some token), s)
    | .failsBefore => some (false, s)
    | _ => none
  | .removeLock _, s =>
    match x with
    | .works => some ((), { s with holder := none })
    | .failsBefore => some ((), s)
    | _ => none
  | .load _, s =>
    match x with
    | .works => some (loadRelay L s.relay, s)
    | .failsBefore => some (.error (.other "open relay.json"), s)
    | _ => none
  | .save _ config revokes, s =>
    match x with
    | .works => some (true, s.publish config revokes)
    | .failsBefore => some (false, s)
    | .failsAfter => some (false, s.publish config revokes)
    | _ => none
  | .pairing c, s =>
    match x with
    | .pairing y => (Relay.pairingExec y c s.pairings).map fun result =>
        (result.1, { s with pairings := result.2 })
    | _ => none
  | .ingress c, s =>
    match x with
    | .ingress y => (Relay.exec y c s.ingress).map fun result =>
        (result.1, { s with ingress := result.2 })
    | _ => none
  | .lookupPeer runtime keyID, s => some (((s.runtimes runtime).lookup keyID, s.revoked), s)
  | .setPeer runtime peer, s =>
    some ((), s.setRuntime runtime ((s.runtimes runtime).insert peer.id peer))
  | .setPeers runtime peers, s => some ((), s.setRuntime runtime (peerMap peers))
  | .reportRevoked key, s => some ((), { s with revoked := key :: s.revoked })
  | .reportAccepted entry, s => some ((), { s with accepted := entry :: s.accepted })

/-- The machine of the relays. -/
def machine : Machine Cmd Reply Store Choice := ⟨exec L⟩

/-- A program over the commands of the relays. -/
abbrev RelayProg := Prog Cmd Reply

/-- The program that issues one command. -/
abbrev perform (c : Cmd) : RelayProg (Reply c) := Prog.issue c

/-- A program of the pairing store as part of a call. -/
def onPairings {α : Type} (p : PairingProg α) : RelayProg α := p.embed Cmd.pairing fun _ r => r

/-- A program of the ingress as part of a call. -/
def onIngress {α : Type} (p : Relay.IngressProg α) : RelayProg α :=
  p.embed Cmd.ingress fun _ r => r

/-! ## Transactions on the configuration -/

section Transactions

variable (L : Libraries)

/-- Read the configuration with its revision. -/
def list (token : Option Nat) : RelayProg (Except RelayError RelaySnapshot) := do
  match ← perform (.load token) with
  | .error err => return .error err
  | .ok config => return .ok (relaySnapshot L config)

/-- The key of the peer a change revokes. -/
def revokedKey (change : PeerChange) (config : RelayConfig) : Option Bytes :=
  match change.action with
  | .revoke =>
    (config.peers.find? fun peer => peer.id = Relay.trimSpace change.peerID).bind
      fun peer => L.decodeBase64 peer.publicKey
  | _ => none

/-- Remove the lock, if it still holds the own token, and return. -/
def releasing {α : Type} (process : Nat) (result : α) : RelayProg α := do
  if ← perform (.ownsLock process) then
    perform (.removeLock process)
    return result
  else
    return result

/-- The part of `Apply` that runs under the lock. -/
def applyLocked (process : Nat) (change : PeerChange) :
    RelayProg (Except RelayError PeerResult) := do
  match ← list L (some process) with
  | .error err => releasing process (.error err)
  | .ok before =>
    match applyPeerChange L before change with
    | .error err => releasing process (.error err)
    | .ok result =>
      if ← perform (.save process result.after.config (revokedKey L change before.config)) then
        match ← list L (some process) with
        | .error err => releasing process (.error err)
        | .ok after => releasing process (.ok { result with after := after })
      else
        releasing process (.error (.other "publish relay.json"))

/-- Apply a change to the configuration. -/
def apply (process : Nat) (change : PeerChange) : RelayProg (Except RelayError PeerResult) := do
  if change.dryRun then
    match ← list L none with
    | .error err => return .error err
    | .ok before => return applyPeerChange L before change
  else if ← perform (.acquire process) then applyLocked L process change
  else return .error (.other "timed out waiting for relay config lock")

/-- The part of `Initialize` that runs under the lock. -/
def initializeLocked (process : Nat) (value : RelayConfig) :
    RelayProg (Except RelayError RelaySnapshot) := do
  match ← perform (.load (some process)) with
  | .ok _ => releasing process (.error .relayExists)
  | .error .notFound =>
    if ← perform (.save process value none) then
      let result ← list L (some process)
      releasing process result
    else
      releasing process (.error (.other "publish relay.json"))
  | .error err => releasing process (.error err)

/-- Write the first configuration. -/
def initializeRelay (process : Nat) (value : RelayConfig) (dryRun : Bool) :
    RelayProg (Except RelayError RelaySnapshot) :=
  match value.validate L with
  | .error message => return .error (.other message)
  | .ok () => do
    if dryRun then return .ok (relaySnapshot L value)
    else if ← perform (.acquire process) then initializeLocked L process value
    else return .error (.other "timed out waiting for relay config lock")

end Transactions

/-! ## Enrollment -/

/-- A request to enroll a peer with a pairing code. -/
structure PairEnrollmentRequest where
  code : String
  peerID : String
  originID : String
  publicKey : Bytes
  deriving DecidableEq, Repr

/-- The answer to an enrollment. -/
structure PairEnrollmentResult where
  peerID : String
  teamID : String
  allowedSources : List String
  allowedRuntimes : List String
  deriving DecidableEq, Repr

/-- Why an enrollment fails. -/
inductive EnrollError where
  | pairing (err : PairingError)
  | relay (err : RelayError)
  | other (text : String)
  deriving DecidableEq, Repr

/-- What a host connector expects of the pairing policy; empty texts expect nothing. -/
structure Expected where
  teamID : String := ""
  runtime : String := ""
  deriving DecidableEq, Repr

/-- The id of the peer of a public key: sixteen bytes of its hash. -/
def relayPeerID (P : Primitives) (publicKey : Bytes) : String :=
  "peer_" ++ String.ofList
    ((P.sha256 (Relay.utf8 "agentbell-relay-peer-v1" ++ publicKey)).toList.take 32)

/-- The peer of the ingress for a configured one. -/
def configuredRelayPeer (configured : RemoteConfig.Peer) : Except String Relay.Peer :=
  match L.decodeBase64 configured.publicKey with
  | none => .error "relay peer public key is invalid"
  | some publicKey => do
    failIf (publicKey.length ≠ RemoteConfig.publicKeySize) "relay peer public key is invalid"
    Relay.validateEach
      (fun scope => failIf (scope ≠ "ingest") ("unsupported relay peer scope " ++ quoted scope))
      configured.scopes
    let peer : Relay.Peer :=
      { id := configured.id
        teamID := configured.teamID
        originID := configured.originID
        publicKey := publicKey
        scopes := configured.scopes.map fun _ => Relay.scopeIngest
        allowedSources := configured.allowedSources
        allowedRuntimes := configured.allowedRuntimes
        revoked := configured.revoked }
    peer.validate
    return peer

/-- Whether the peer of an id among the peers is exactly the one that is being enrolled. -/
def containsExactEnrollmentPeer (peers : List RemoteConfig.Peer) (expected : RemoteConfig.Peer) :
    Bool :=
  match peers.find? fun candidate => candidate.id = expected.id with
  | none => false
  | some candidate =>
    candidate.enrollmentID = expected.enrollmentID && candidate.teamID = expected.teamID &&
      candidate.originID = expected.originID && candidate.publicKey = expected.publicKey &&
      !candidate.revoked && candidate.scopes = expected.scopes &&
      candidate.allowedSources = expected.allowedSources &&
      candidate.allowedRuntimes = expected.allowedRuntimes

/-- Whether the policy of a claimed code is what a host connector expects. -/
def Expected.meets (expected : Expected) (policy : Relay.PairingPolicy) : Bool :=
  (expected.teamID = "" || policy.teamID = expected.teamID) &&
    (expected.runtime = "" || policy.allowedRuntimes.contains expected.runtime)

/-- The peer that is enrolled with a claimed code. -/
def enrolledPeer (claim : PairingClaim) (request : PairEnrollmentRequest) : RemoteConfig.Peer where
  id := request.peerID
  enrollmentID := claim.record.id
  teamID := claim.record.policy.teamID
  originID := request.originID
  publicKey := L.encodeBase64 request.publicKey
  scopes := ["ingest"]
  allowedSources := claim.record.policy.allowedSources
  allowedRuntimes := claim.record.policy.allowedRuntimes

/-- The change that adds a peer. -/
def addChange (peer : RemoteConfig.Peer) : PeerChange := { action := .add, peer := some peer }

/-- The change that takes the added peer back, if nothing else has changed since. -/
def removeChange (peerID : String) (added : PeerResult) : PeerChange :=
  { action := .remove, peerID := peerID, expectedRevision := added.after.revision }

section Enroll

variable (P : Primitives) (L : Libraries)

/-- Give a claim back and return an error. -/
def releaseClaim {α : Type} (claim : PairingClaim) (err : EnrollError) :
    RelayProg (Except EnrollError α) := do
  let now ← onPairings (Relay.onPairing .clock)
  let _ ← onPairings (Relay.release claim now)
  return .error err

/-- Remove the peer again that this enrollment has added. -/
def compensate (process : Nat) (configured : RemoteConfig.Peer) :
    Option PeerResult → RelayProg Unit
  | none => return ()
  | some added => do
    let _ ← apply L process (removeChange configured.id added)
    return ()

/-- The end of an enrollment: use up the code and put the peer into the map. -/
def completeEnrollment (process runtime : Nat) (claim : PairingClaim)
    (request : PairEnrollmentRequest) (configured : RemoteConfig.Peer)
    (added : Option PeerResult) : RelayProg (Except EnrollError PairEnrollmentResult) := do
  let now ← onPairings (Relay.onPairing .clock)
  match ← onPairings (Relay.commit claim request.peerID now) with
  | .error err =>
    compensate L process configured added
    releaseClaim claim (.pairing err)
  | .ok () =>
    match configuredRelayPeer L configured with
    | .error message => return .error (.other message)
    | .ok peer =>
      perform (.setPeer runtime peer)
      return .ok ⟨configured.id, configured.teamID, configured.allowedSources,
        configured.allowedRuntimes⟩

/-- Add the peer of a claimed code to the configuration. -/
def enrollClaimed (process runtime : Nat) (claim : PairingClaim) (request : PairEnrollmentRequest) :
    RelayProg (Except EnrollError PairEnrollmentResult) := do
  let configured := enrolledPeer L claim request
  match ← apply L process (addChange configured) with
  | .ok added => completeEnrollment L process runtime claim request configured (some added)
  | .error .peerExists =>
    match ← list L none with
    | .error err => releaseClaim claim (.relay err)
    | .ok snapshot =>
      if containsExactEnrollmentPeer snapshot.config.peers configured then
        completeEnrollment L process runtime claim request configured none
      else
        releaseClaim claim (.relay .peerExists)
  | .error err => releaseClaim claim (.relay err)

/-- Enroll a peer with a pairing code. -/
def enroll (process runtime : Nat) (expected : Expected) (request : PairEnrollmentRequest) :
    RelayProg (Except EnrollError PairEnrollmentResult) :=
  if request.peerID ≠ relayPeerID P request.publicKey then
    return .error (.other "relay enrollment is unavailable")
  else do
    let now ← onPairings (Relay.onPairing .clock)
    match ← onPairings (Relay.claim P process request.code now (2 * minute)) with
    | .error err => return .error (.pairing err)
    | .ok claim =>
      if expected.meets claim.record.policy then enrollClaimed L process runtime claim request
      else releaseClaim claim (.other "pairing policy does not match the host connector")

end Enroll

/-! ## The calls -/

/-- The peers of the ingress for the configured ones. -/
def configuredPeers : List RemoteConfig.Peer → Except String (List Relay.Peer)
  | [] => .ok []
  | configured :: rest => do
    let peer ← configuredRelayPeer L configured
    let peers ← configuredPeers rest
    return peer :: peers

/-- Serve with the configured peers: read `relay.json` and fill the map. -/
def serve (runtime : Nat) : RelayProg (Except EnrollError Unit) := do
  match ← perform (.load none) with
  | .error err => return .error (.relay err)
  | .ok config =>
    if ¬ config.listener.enabled then return .error (.other "relay listener is disabled")
    else
      match configuredPeers L config.peers with
      | .error message => return .error (.other message)
      | .ok peers =>
        perform (.setPeers runtime peers)
        return .ok ()

/-- Accept a request in a running relay.  An acknowledgement that is returned is recorded. -/
def accept (P : Primitives) (runtime : Nat) (settings : Relay.Settings) (fuel : Nat)
    (request : Relay.IngressRequest) (now : Time) :
    RelayProg (Except Relay.IngressError Relay.IngressACK) :=
  if request.complete then do
    let (found, revokedBefore) ← perform (.lookupPeer runtime request.keyID)
    match ← onIngress (Relay.acceptFrom P settings fuel request found now), found with
    | .ok ack, some peer =>
      perform (.reportAccepted ⟨request, ack, peer, revokedBefore⟩)
      return .ok ack
    | result, _ => return result
  else return .error (.other "relay ingress request is incomplete")

/-- The change that revokes a peer. -/
def revokeChange (peerID : String) (dryRun : Bool) : PeerChange :=
  { action := .revoke, peerID := peerID, dryRun := dryRun }

/-- Revoke a peer.  A revocation that is reported as done is recorded. -/
def revoke (process : Nat) (peerID : String) (dryRun : Bool) :
    RelayProg (Except RelayError PeerResult) := do
  match ← apply L process (revokeChange peerID dryRun) with
  | .error err => return .error err
  | .ok result =>
    match dryRun, revokedKey L (revokeChange peerID dryRun) result.before.config with
    | false, some key =>
      perform (.reportRevoked key)
      return .ok result
    | _, _ => return .ok result

/-- The calls of the processes. -/
inductive Call where
  | configure (value : RelayConfig) (dryRun : Bool)
  | createPairing (policy : Relay.PairingPolicy) (ttl : Duration) (now : Time)
  | serve (runtime : Nat)
  | accept (runtime : Nat) (settings : Relay.Settings) (fuel : Nat)
      (request : Relay.IngressRequest) (now : Time)
  | enroll (runtime : Nat) (expected : Expected) (request : PairEnrollmentRequest)
  | revoke (peerID : String) (dryRun : Bool)

/-- The program of a call.  The command that configures a relay writes no peers. -/
def body (P : Primitives) (L : Libraries) (process : Nat) : Call → Unit → RelayProg Unit
  | .configure value dryRun, _ => do
    let _ ← initializeRelay L process { value with slice := some [] } dryRun
    return ()
  | .createPairing policy ttl now, _ => do
    let _ ← onPairings (Relay.create P policy ttl now)
    return ()
  | .serve runtime, _ => do
    let _ ← serve L runtime
    return ()
  | .accept runtime settings fuel request now, _ => do
    let _ ← accept P runtime settings fuel request now
    return ()
  | .enroll runtime expected request, _ => do
    let _ ← enroll P L process runtime expected request
    return ()
  | .revoke peerID dryRun, _ => do
    let _ ← revoke L process peerID dryRun
    return ()

/-- Any number of processes and requests around one `relay.json`. -/
def relay (P : Primitives) (L : Libraries) : Protocol Cmd Reply Store Choice Call Unit Nat where
  machine := machine L
  may := fun _ _ _ _ => true
  body := body P L
  fresh := ()

/-- A configuration of these processes. -/
abbrev RelayState := Config Cmd Reply Store Call Unit Nat

/-- A given `relay.json`, or none, before any process starts. -/
def relayStart (initial : Option RelayConfig) : RelayState :=
  { store := { relay := initial }, procs := fun _ => none }

end AgentBell.App
