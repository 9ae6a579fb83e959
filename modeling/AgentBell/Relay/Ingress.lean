import AgentBell.Queue.Operations
import AgentBell.Relay.Protocol

/-!
# Relay ingress

`Ingress.Accept` with the stores it works on: the nonce records, the pending and the committed
receipts, and the local queue.  A record is published by linking a synced temporary file to its
path, which fails when the path exists; a link may also fail for other reasons, before or after
it took effect.  Nonce records and pending receipts may be removed again, committed receipts
never are.

A receipt lock is taken or not taken as the environment decides: nothing is assumed about who
else holds it.
-/

namespace AgentBell.Relay

open Interleaving

/-! ## Records -/

variable (P : Primitives)

/-- The state of a receipt. -/
inductive ReceiptState where
  | pending
  | committed
  deriving DecidableEq, Repr

/-- A receipt as it is stored. -/
structure Receipt where
  version : Int
  id : String
  teamID : String
  originID : String
  deliveryKey : String
  bodyDigest : String
  state : ReceiptState
  localQueueID : String := ""
  createdAt : Time
  committedAt : Time := 0
  deriving DecidableEq, Repr

/-- The version of stored receipts. -/
def receiptVersion : Int := 1

/-- Whether a receipt read from the committed directory, or just written there, allows an
acknowledgement. -/
def Receipt.ackEligible (receipt : Receipt) (durablyCommitted : Bool) : Bool :=
  receipt.version = receiptVersion && receipt.state = .committed && receipt.localQueueID ≠ "" &&
    !receipt.committedAt.isZero && durablyCommitted

/-- The checks on a receipt that was read. -/
def Receipt.persisted (expectedState : ReceiptState) (receipt : Receipt) : Bool :=
  receipt.version = receiptVersion && receipt.id ≠ "" && receipt.state = expectedState &&
    receipt.teamID ≠ "" && receipt.originID ≠ "" && receipt.deliveryKey ≠ "" &&
    receipt.bodyDigest ≠ "" && !receipt.createdAt.isZero &&
    (expectedState ≠ .committed || receipt.ackEligible true)

/-- A nonce record. -/
structure NonceRecord where
  version : Int
  seenAt : Time
  expiresAt : Time
  deriving DecidableEq, Repr

/-- The version of stored nonce records. -/
def nonceRecordVersion : Int := 1

/-- A nonce file: its record, if its content can be decoded, and when it was last changed. -/
structure NonceFile where
  record : Option NonceRecord
  modTime : Time
  deriving DecidableEq, Repr

/-- The shortest time a nonce is remembered. -/
def minimumNonceRetention : Duration := 10 * minute

/-- A request as the transport hands it to the ingress. -/
structure IngressRequest where
  keyID : String
  method : String
  target : String
  sentAt : Time
  nonce : String
  exactBody : Bytes
  signature : Bytes
  deriving DecidableEq, Repr

/-- The acknowledgement of a request. -/
structure IngressACK where
  receiptID : String
  localQueueID : String
  duplicate : Bool
  deriving DecidableEq, Repr

/-- Why a request is not acknowledged.  A request that used up its budget of rounds is
`unfinished`. -/
inductive IngressError where
  | unknownPeer
  | nonceReplay
  | receiptConflict
  | other (text : String)
  | unfinished
  deriving DecidableEq, Repr

/-! ## The store and its commands -/

/-- The state directory of a relay, together with a record of the acknowledgements that were
returned. -/
structure Store where
  queue : Queue.Store := {}
  nonces : AList (fun _ : String => NonceFile) := ∅
  pending : AList (fun _ : String => Receipt) := ∅
  committed : AList (fun _ : String => Receipt) := ∅
  acks : List (IngressRequest × IngressACK) := []

/-- How the publication of a record ends. -/
inductive LinkResult where
  | linked
  | exists
  | failed
  deriving DecidableEq, Repr

/-- One step of a request on the state directory. -/
inductive Cmd where
  | queue (c : Queue.Cmd)
  | linkNonce (path : String) (record : NonceRecord)
  | readNonce (path : String)
  | removeNonce (path : String)
  | listNonces
  | lock (id : String)
  | unlock (id : String)
  | readCommitted (id : String)
  | linkCommitted (id : String) (receipt : Receipt)
  | readPending (id : String)
  | linkPending (id : String) (receipt : Receipt)
  | removePending (id : String)
  | answer (request : IngressRequest) (ack : IngressACK)

/-- The replies of the commands. -/
@[reducible] def Reply : Cmd → Type
  | .queue c => Queue.Reply c
  | .linkNonce _ _ => LinkResult
  | .readNonce _ => Option NonceFile
  | .removeNonce _ => Unit
  | .listNonces => List String
  | .lock _ => Bool
  | .unlock _ => Unit
  | .readCommitted _ => Option Receipt
  | .linkCommitted _ _ => LinkResult
  | .readPending _ => Option Receipt
  | .linkPending _ _ => LinkResult
  | .removePending _ => Bool
  | .answer _ _ => Unit

/-- What the environment decides at a command: a choice of the queue, whether a step works, or
that it fails before or after it took effect. -/
inductive Choice where
  | queue (x : Queue.Choice)
  | works
  | failsBefore
  | failsAfter
  | order (names : List String)

/-- Publish a record under a path. -/
def link {α : Type} (files : AList (fun _ : String => α)) (path : String) (value : α) :
    Choice → Option (LinkResult × AList (fun _ : String => α))
  | .works =>
    if path ∈ files then some (.exists, files) else some (.linked, files.insert path value)
  | .failsBefore => some (.failed, files)
  | .failsAfter =>
    if path ∈ files then some (.exists, files) else some (.failed, files.insert path value)
  | _ => none

/-- What a command does. -/
def exec (x : Choice) : (c : Cmd) → Store → Option (Reply c × Store)
  | .queue c, s =>
    match x with
    | .queue y => (Queue.exec y c s.queue).map fun result =>
        (result.1, { s with queue := result.2 })
    | _ => none
  | .linkNonce path record, s =>
    (link s.nonces path ⟨some record, record.seenAt⟩ x).map fun result =>
      (result.1, { s with nonces := result.2 })
  | .readNonce path, s => some (s.nonces.lookup path, s)
  | .removeNonce path, s => some ((), { s with nonces := s.nonces.erase path })
  | .listNonces, s =>
    match x with
    | .order names => if names.Perm s.nonces.keys then some (names, s) else none
    | _ => none
  | .lock _, s =>
    match x with
    | .works => some (true, s)
    | .failsBefore | .failsAfter => some (false, s)
    | _ => none
  | .unlock _, s => some ((), s)
  | .readCommitted id, s => some (s.committed.lookup id, s)
  | .linkCommitted id receipt, s =>
    (link s.committed id receipt x).map fun result => (result.1, { s with committed := result.2 })
  | .readPending id, s => some (s.pending.lookup id, s)
  | .linkPending id receipt, s =>
    (link s.pending id receipt x).map fun result => (result.1, { s with pending := result.2 })
  | .removePending id, s =>
    match x with
    | .works => some (true, { s with pending := s.pending.erase id })
    | .failsBefore => some (false, s)
    | .failsAfter => some (false, { s with pending := s.pending.erase id })
    | _ => none
  | .answer request ack, s => some ((), { s with acks := (request, ack) :: s.acks })

/-- The machine of the state directory. -/
def machine : Machine Cmd Reply Store Choice := ⟨exec⟩

/-- A program over the commands of the state directory. -/
abbrev IngressProg := Prog Cmd Reply

/-- The program that issues one command. -/
abbrev perform (c : Cmd) : IngressProg (Reply c) := Prog.issue c

/-- A program of the local queue as part of a request. -/
def onQueue {α : Type} (p : Queue.QueueProg α) : IngressProg α :=
  p.embed Cmd.queue fun _ r => r

/-! ## Nonces -/

/-- The bytes that are hashed for the path of a nonce record. -/
def nonceInput (peerID nonce : String) : Bytes := utf8 (peerID ++ "\x00" ++ nonce)

/-- The path of a nonce record. -/
def noncePath (peerID nonce : String) : String :=
  P.sha256 (nonceInput peerID nonce) ++ ".json"

/-- Whether a nonce file has expired.  A file that cannot be decoded expires by the time it was
last changed. -/
def NonceFile.expired (retention : Duration) (now : Time) (file : NonceFile) : Bool :=
  match file.record with
  | some record =>
    if record.version = nonceRecordVersion ∧ ¬ record.expiresAt.isZero then
      record.expiresAt ≤ now
    else file.modTime + retention ≤ now
  | none => file.modTime + retention ≤ now

/-- Reserve a nonce, dropping an expired reservation of it. -/
def reserveNonce (path : String) (retention : Duration) (now : Time) :
    Nat → IngressProg (Except IngressError Bool)
  | 0 => return .error .unfinished
  | fuel + 1 => do
    match ← perform (.linkNonce path ⟨nonceRecordVersion, now, now + retention⟩) with
    | .linked => return .ok true
    | .failed => return .error (.other "reserve nonce")
    | .exists =>
      match ← perform (.readNonce path) with
      | none =>
        perform (.removeNonce path)
        reserveNonce path retention now fuel
      | some file =>
        if file.expired retention now then
          perform (.removeNonce path)
          reserveNonce path retention now fuel
        else
          return .ok false

/-- The checks of `NonceStore.Accept` on its arguments. -/
def checkNonce (peerID nonce : String) (retention : Duration) (now : Time) :
    Except IngressError Unit :=
  match validateIdentifier "peer id" peerID with
  | .error message => .error (.other message)
  | .ok () =>
    match validateNonce nonce with
    | .error message => .error (.other message)
    | .ok () =>
      if now.isZero then .error (.other "nonce acceptance time is required")
      else if ¬ Queue.Time.encodable now ∨ ¬ Queue.Time.encodable (now + retention) then
        .error (.other "reserve nonce")
      else .ok ()

/-- Accept a nonce once: `false` when it is already used. -/
def acceptNonce (fuel : Nat) (retention : Duration) (peerID nonce : String)
    (now : Time) : IngressProg (Except IngressError Bool) :=
  match checkNonce peerID nonce retention now with
  | .error err => return .error err
  | .ok () => reserveNonce (noncePath P peerID nonce) retention now fuel

/-- Remove the expired nonces of a list. -/
def cleanupNonces (retention : Duration) (now : Time) (removed : Nat) :
    List String → IngressProg (Except IngressError Nat)
  | [] => return .ok removed
  | path :: rest => do
    let expired := match ← perform (.readNonce path) with
      | none => true
      | some file => file.expired retention now
    if expired then
      perform (.removeNonce path)
      cleanupNonces retention now (removed + 1) rest
    else
      cleanupNonces retention now removed rest

/-- Remove all expired nonces. -/
def cleanup (retention : Duration) (now : Time) : IngressProg (Except IngressError Nat) :=
  if now.isZero then return .error (.other "nonce cleanup time is required")
  else do
    let paths ← perform .listNonces
    cleanupNonces retention now 0 paths

/-! ## Receipts -/

/-- The error of a stored receipt that does not pass its checks. -/
def invalidReceipt : IngressError := .other "invalid persisted relay receipt"

/-- Read the committed receipt of an id. -/
def readCommitted (id : String) : IngressProg (Except IngressError (Option Receipt)) := do
  match ← perform (.readCommitted id) with
  | none => return .ok none
  | some receipt =>
    if receipt.persisted .committed then return .ok (some receipt)
    else return .error invalidReceipt

/-- Read the pending receipt of an id. -/
def readPending (id : String) : IngressProg (Except IngressError (Option Receipt)) := do
  match ← perform (.readPending id) with
  | none => return .ok none
  | some receipt =>
    if receipt.persisted .pending then return .ok (some receipt)
    else return .error invalidReceipt

/-- The committed receipt of a body, when there is one for exactly this body. -/
def lookupCommitted (exactBody : Bytes) : IngressProg (Except IngressError (Option Receipt)) :=
  match decode P exactBody with
  | .error message => return .error (.other message)
  | .ok envelope => do
    match ← readCommitted
        (receiptID P envelope.teamID envelope.origin.id envelope.delivery.key) with
    | .error err => return .error err
    | .ok none => return .ok none
    | .ok (some receipt) =>
      if receipt.bodyDigest ≠ bodyDigest P exactBody then return .error .receiptConflict
      else return .ok (some receipt)

/-- The pending receipt of a new delivery. -/
def newReceipt (envelope : Envelope) (exactBody : Bytes) (now : Time) : Receipt where
  version := receiptVersion
  id := receiptID P envelope.teamID envelope.origin.id envelope.delivery.key
  teamID := envelope.teamID
  originID := envelope.origin.id
  deliveryKey := envelope.delivery.key
  bodyDigest := bodyDigest P exactBody
  state := .pending
  createdAt := now

/-- The committed form of a receipt. -/
def Receipt.commit (receipt : Receipt) (localQueueID : String) (now : Time) : Receipt :=
  { receipt with state := .committed, localQueueID := localQueueID, committedAt := now }

/-- The notification a relayed envelope is queued as. -/
def localNotification (envelope : Envelope) : Notification :=
  { envelope.event with idempotencyKey := envelope.delivery.key }

/-- Find or write the pending receipt of a delivery.  The flag says whether it was there. -/
def preparePending (envelope : Envelope) (exactBody : Bytes) (now : Time) :
    IngressProg (Except IngressError (Receipt × Bool)) := do
  let fresh := newReceipt P envelope exactBody now
  match ← readPending fresh.id with
  | .error err => return .error err
  | .ok (some pending) =>
    if pending.bodyDigest ≠ bodyDigest P exactBody then return .error .receiptConflict
    else return .ok (pending, true)
  | .ok none =>
    if Queue.Time.encodable now then
      match ← perform (.linkPending fresh.id fresh) with
      | .linked => return .ok (fresh, false)
      | _ => return .error (.other "persist pending relay receipt")
    else
      return .error (.other "persist pending relay receipt")

/-- Publish the committed receipt of a pending one, or take the one that is there. -/
def publishCommitted (id : String) (exactBody : Bytes) (committed : Receipt) :
    IngressProg (Except IngressError Receipt) := do
  if Queue.Time.encodable committed.committedAt then
    match ← perform (.linkCommitted id committed) with
    | .linked => return .ok committed
    | .failed => return .error (.other "commit relay receipt")
    | .exists =>
      match ← readCommitted id with
      | .error err => return .error err
      | .ok none => return .error (.other "file does not exist")
      | .ok (some existing) =>
        if existing.bodyDigest ≠ bodyDigest P exactBody then return .error .receiptConflict
        else return .ok existing
  else
    return .error (.other "commit relay receipt")

/-- The part of `CommitIngress` that runs under the receipt lock. -/
def commitLocked (fuel : Nat) (envelope : Envelope) (exactBody : Bytes)
    (now : Time) : IngressProg (Except IngressError (Receipt × Bool)) := do
  let id := receiptID P envelope.teamID envelope.origin.id envelope.delivery.key
  match ← readCommitted id with
  | .error err => return .error err
  | .ok (some existing) =>
    if existing.bodyDigest ≠ bodyDigest P exactBody then return .error .receiptConflict
    else return .ok (existing, true)
  | .ok none =>
    match ← preparePending P envelope exactBody now with
    | .error err => return .error err
    | .ok (pending, duplicate) =>
      match ← onQueue (Queue.enqueue (fun key => P.sha256 (utf8 key)) fuel
          (localNotification envelope) now) with
      | none => return .error .unfinished
      | some (.error message) => return .error (.other ("durable local enqueue: " ++ message))
      | some (.ok (localQueueID, _)) =>
        if localQueueID = "" then
          return .error (.other "durable local enqueue returned an empty id")
        else
          match ← publishCommitted P id exactBody (pending.commit localQueueID now) with
          | .error err => return .error err
          | .ok committed =>
            if ← perform (.removePending id) then return .ok (committed, duplicate)
            else return .error (.other "remove pending relay receipt")

/-- Commit a delivery: queue its notification and publish its receipt. -/
def commitIngress (fuel : Nat) (exactBody : Bytes) (now : Time) :
    IngressProg (Except IngressError (Receipt × Bool)) :=
  match decode P exactBody with
  | .error message => return .error (.other message)
  | .ok envelope =>
    if envelope.event.privacyLevel ≠ Event.privacyMetadataOnly then
      return .error (.other "relay ingress only accepts metadata-only events")
    else if now.isZero then
      return .error (.other "receipt commit time is required")
    else do
      let id := receiptID P envelope.teamID envelope.origin.id envelope.delivery.key
      if ← perform (.lock id) then
        let result ← commitLocked P fuel envelope exactBody now
        perform (.unlock id)
        return result
      else
        return .error (.other "timed out waiting for relay storage lock")

/-! ## Accept -/

/-- The acknowledgement of a receipt.  A receipt is durably committed when it was read from the
committed directory or linked there. -/
def ingressACK (receipt : Receipt) (duplicate : Bool) : Except IngressError IngressACK :=
  if receipt.ackEligible true then
    .ok { receiptID := receipt.id, localQueueID := receipt.localQueueID, duplicate := duplicate }
  else
    .error (.other "relay receipt is not durably committed")

/-- The settings of an ingress. -/
structure Settings where
  retention : Duration := minimumNonceRetention
  maxSkew : Duration := defaultMaxSkew

/-- Whether a request carries what every request must. -/
def IngressRequest.complete (request : IngressRequest) : Bool :=
  trimSpace request.keyID ≠ "" && !request.sentAt.isZero && request.nonce ≠ ""

/-- The checks on a request and the peer that was found for its key id. -/
def authenticate (settings : Settings) (request : IngressRequest)
    (found : Option Peer) (now : Time) : Except IngressError (Peer × Envelope) :=
  match found with
  | none => .error .unknownPeer
  | some peer =>
    if peer.id ≠ request.keyID then .error .unknownPeer
    else
      match verifyPeer P peer scopeIngest request.method request.target request.exactBody
          request.signature now settings.maxSkew with
      | .error message => .error (.other message)
      | .ok envelope =>
        if request.sentAt ≠ envelope.sentAt ∨ request.nonce ≠ envelope.nonce then
          .error (.other "relay signature headers do not match the envelope")
        else .ok (peer, envelope)

/-- What is known of a request that passed its checks. -/
structure Authentic (request : IngressRequest) (found : Option Peer)
    (now : Time) (peer : Peer) (envelope : Envelope) : Prop where
  known : found = some peer
  keyID : peer.id = request.keyID
  active : peer.revoked = false
  peerID : validateIdentifier "peer id" peer.id = .ok ()
  decoded : decode P request.exactBody = .ok envelope
  nonce : validateNonce request.nonce = .ok ()
  dated : now.isZero = false

/-- A request that passed its checks comes from a known peer that is not revoked. -/
lemma authentic_of_authenticate {P : Primitives} {settings : Settings} {request : IngressRequest}
    {found : Option Peer} {now : Time} {peer : Peer} {envelope : Envelope}
    (h : authenticate P settings request found now = .ok (peer, envelope)) :
    Authentic P request found now peer envelope := by
  unfold authenticate at h
  split at h
  · cases h
  split at h
  · cases h
  rename_i hkey
  split at h
  · cases h
  rename_i hverify
  split at h
  · cases h
  rename_i hheaders
  cases h
  simp only [verifyPeer, bind_eq_ok, failIf_eq_ok, exists_const] at hverify
  obtain ⟨decoded, hdecode, _, hpeer, hactive, -, -, -, -, -, hnow, -, -, _, hsigned, heq⟩ :=
    hverify
  cases heq
  simp only [verify, signingMaterial, bind_eq_ok, failIf_eq_ok, exists_const] at hsigned
  obtain ⟨-, -, _, ⟨-, -, -, _, hnonce, -⟩, -⟩ := hsigned
  simp only [Peer.validate, bind_eq_ok] at hpeer
  obtain ⟨_, hid, -⟩ := hpeer
  have hsame : request.nonce = envelope.nonce := (not_not.mp (not_or.mp hheaders).2)
  exact ⟨rfl, not_not.mp hkey, by simpa using hactive, hid, hdecode, hsame ▸ hnonce,
    by simpa using hnow⟩

/-- `Accept` after the peer of the request was looked up. -/
def acceptFrom (settings : Settings) (fuel : Nat) (request : IngressRequest)
    (found : Option Peer) (now : Time) : IngressProg (Except IngressError IngressACK) :=
  match authenticate P settings request found now with
  | .error err => return .error err
  | .ok (peer, _) => do
    match ← lookupCommitted P request.exactBody with
    | .error err => return .error err
    | .ok (some existing) => return ingressACK existing true
    | .ok none =>
      match ← acceptNonce P fuel settings.retention peer.id request.nonce now with
      | .error err => return .error err
      | .ok false =>
        match ← lookupCommitted P request.exactBody with
        | .error err => return .error err
        | .ok (some existing) => return ingressACK existing true
        | .ok none => return .error .nonceReplay
      | .ok true =>
        match ← commitIngress P fuel request.exactBody now with
        | .error err => return .error err
        | .ok (receipt, duplicate) => return ingressACK receipt duplicate

/-- Accept a request, with the peers an ingress knows. -/
def accept (settings : Settings) (fuel : Nat) (peers : String → Option Peer)
    (request : IngressRequest) (now : Time) : IngressProg (Except IngressError IngressACK) :=
  if request.complete then acceptFrom P settings fuel request (peers request.keyID) now
  else return .error (.other "relay ingress request is incomplete")

end AgentBell.Relay
