import Mathlib.Logic.Equiv.List
import AgentBell.Relay.Protocol
import AgentBell.Streams.Base64

/-!
# The relay configuration

`relay.json` as the Core reads and writes it: the listener and the peers, the checks of
`RelayConfig.Validate`, and `applyPeerChange`, which adds, revokes or removes one peer.

What the code takes from libraries is a parameter (`Libraries`): base64, the parsing of
addresses and numbers, the cleaning of a POSIX path, and the revision of a configuration, which
is the hash of its JSON form.
-/

namespace AgentBell.RemoteConfig

open Relay (Bytes isLowerHex isSpace trimSpace)

/-! ## The configuration -/

/-- A path together with the platform it is meant for. -/
structure PathRef where
  platform : String
  value : String
  deriving DecidableEq, Repr

/-- The TLS files of a listener. -/
structure ListenerTLS where
  certFile : PathRef
  keyFile : PathRef
  deriving DecidableEq, Repr

/-- The listener of a relay. -/
structure Listener where
  enabled : Bool
  address : String := ""
  tls : Option ListenerTLS := none
  sshTunnel : Bool := false
  deriving DecidableEq, Repr

/-- A peer as it is configured. -/
structure Peer where
  id : String
  enrollmentID : String := ""
  teamID : String
  originID : String
  publicKey : String
  scopes : List String
  allowedSources : List String
  allowedRuntimes : List String
  revoked : Bool := false
  deriving DecidableEq, Repr

/-- The content of `relay.json`.  The slice of the peers may be `nil`. -/
structure RelayConfig where
  version : Int
  minCoreVersion : String
  listener : Listener
  slice : Option (List Peer)
  deriving DecidableEq, Repr

/-- The peers of a configuration. -/
abbrev RelayConfig.peers (config : RelayConfig) : List Peer := config.slice.getD []

/-- What the code takes from libraries. -/
structure Libraries where
  decodeBase64 : String → Option Bytes
  encodeBase64 : Bytes → String
  splitHostPort : String → Option (String × String)
  atoi : String → Option Int
  parseIP : String → Option Bool
  cleanPath : String → String
  revision : RelayConfig → String

/-- The sidecar version the Core writes. -/
def sidecarVersion : Int := 1

/-! ## Patterns -/

/-- Whether a text starts with a number and goes on as given. -/
def afterNumber (next : List Char → Bool) (text : List Char) : Bool :=
  text.takeWhile Char.isDigit ≠ [] && next (text.dropWhile Char.isDigit)

/-- Whether a text starts with a dot and goes on as given. -/
def afterDot (next : List Char → Bool) : List Char → Bool
  | '.' :: rest => next rest
  | _ => false

/-- The characters of a prerelease or build part. -/
def isVersionChar (c : Char) : Bool := c.isAlphanum || c = '.' || c = '-'

/-- Whether a text goes on as given after a part that follows a mark, if there is one. -/
def afterPart (mark : Char) (next : List Char → Bool) : List Char → Bool
  | [] => next []
  | c :: rest =>
    if c = mark then rest.takeWhile isVersionChar ≠ [] && next (rest.dropWhile isVersionChar)
    else next (c :: rest)

/-- A text without the `v` in front of it. -/
def dropV : List Char → List Char
  | 'v' :: rest => rest
  | text => text

/-- Whether a text matches `semanticVersionPattern`. -/
def isSemanticVersion (text : String) : Bool :=
  afterNumber (afterDot (afterNumber (afterDot (afterNumber
    (afterPart '-' (afterPart '+' List.isEmpty)))))) (dropV text.toList)

/-- Whether a text matches `identifierPattern`. -/
def isIdentity (text : String) : Bool :=
  match text.toList with
  | [] => false
  | first :: rest => first.isLower && rest.length ≤ 63 &&
      rest.all fun c => c.isLower || c.isDigit || c = '_' || c = '-'

/-- Whether a text matches `hostLabelPattern`. -/
def isHostLabel (text : String) : Bool :=
  match text.toList with
  | [] => false
  | first :: rest => first.isAlphanum &&
      match rest.getLast? with
      | none => true
      | some last => last.isAlphanum && rest.length ≤ 252 &&
          rest.all fun c => c.isAlphanum || c = '.' || c = '-'

/-! ## Checks -/

variable (L : Libraries)

/-- A check whose error names where it was made. -/
def within (label : String) (check : Except String Unit) : Except String Unit :=
  check.mapError fun message => label ++ ": " ++ message

/-- The check of the two fields every sidecar starts with. -/
def validateHeader (version : Int) (minimumCoreVersion : String) : Except String Unit := do
  failIf (version ≠ sidecarVersion) ("unsupported sidecar version " ++ toString version)
  failIf (¬ isSemanticVersion minimumCoreVersion) "minCoreVersion must be a semantic version"

/-- The check of an identity. -/
def validateIdentity (label value : String) : Except String Unit :=
  failIf (¬ isIdentity value) (label ++ " contains unsafe characters")

/-- The check of a host. -/
def validateHost (host : String) : Except String Unit := do
  failIf (host = "" ∨ host.toList.any fun c => "\x00\r\n \t/@?#;|&".toList.contains c)
    "host contains unsafe characters"
  failIf (¬ ((L.parseIP host).isSome ∨ isHostLabel host))
    "host is not a valid IP address or DNS name"

/-- Whether a host is the local machine. -/
def isLoopbackHost (host : String) : Bool :=
  host.toLower = "localhost" || L.parseIP host = some true

/-- The components of a path, split at both separators. -/
def splitPath (value : String) : List String :=
  (value.splitToList fun c => c = '/' || c = '\\').filter fun part => part ≠ ""

/-- Whether a path is absolute on Windows. -/
def windowsAbsolute (value : String) : Bool :=
  match value.toList with
  | '\\' :: '\\' :: _ => 2 ≤ (splitPath value).length
  | drive :: ':' :: separator :: _ => drive.isAlpha && (separator = '\\' || separator = '/')
  | _ => false

/-- The check of a path. -/
def PathRef.validate (reference : PathRef) : Except String Unit := do
  failIf (¬ ["darwin", "linux", "windows"].contains reference.platform)
    ("unsupported path platform " ++ quoted reference.platform)
  failIf (reference.value = "" ∨ Relay.breaksLine reference.value)
    "path value is empty or contains control characters"
  if reference.platform = "windows" then
    failIf (¬ windowsAbsolute reference.value) "Windows path must be drive-absolute or UNC"
  else do
    failIf (reference.value.toList.head? ≠ some '/') "POSIX path must be absolute"
    failIf (L.cleanPath reference.value ≠ reference.value) "POSIX path must be clean"
  failIf ((splitPath reference.value).any fun part => part = ".." || part = ".")
    "path traversal components are forbidden"

/-- The check of the TLS files. -/
def ListenerTLS.validate (tls : ListenerTLS) : Except String Unit := do
  within "certFile" (tls.certFile.validate L)
  within "keyFile" (tls.keyFile.validate L)
  failIf (tls.certFile.platform ≠ tls.keyFile.platform)
    "TLS certificate and key platforms must match"
  failIf (tls.certFile.value = tls.keyFile.value) "TLS certificate and key paths must differ"

/-- The check of the port of a listener. -/
def validatePort (portText : String) : Except String Unit :=
  match L.atoi portText with
  | none => .error "listener port must be between 1 and 65535"
  | some port => failIf (port < 1 ∨ 65535 < port) "listener port must be between 1 and 65535"

/-- The check of a listener. -/
def Listener.validate (listener : Listener) : Except String Unit :=
  if ¬ listener.enabled then
    failIf (listener.address ≠ "" ∨ listener.tls.isSome ∨ listener.sshTunnel)
      "disabled listener cannot contain network settings"
  else
    match L.splitHostPort listener.address with
    | none => .error "enabled listener address must use host:port"
    | some (host, portText) => do
      failIf (host = "") "enabled listener address must use host:port"
      validatePort L portText
      validateHost L host
      match listener.tls with
      | some tls => tls.validate L
      | none =>
        failIf (¬ isLoopbackHost L host ∧ ¬ listener.sshTunnel)
          "non-loopback listener requires TLS or explicit sshTunnel"

/-- The check of a list of allowed values. -/
def validateUniqueStrings (label : String) (values : List String) (allowed : String → Bool) :
    Except String Unit := validateValues label values allowed

/-- The length of an Ed25519 public key. -/
def publicKeySize : Nat := 32

/-- The check of a peer. -/
def Peer.validate (peer : Peer) : Except String Unit := do
  validateIdentity "peer id" peer.id
  failIf (peer.enrollmentID ≠ "" ∧ ¬ isLowerHex 64 peer.enrollmentID)
    "enrollmentId must be a lowercase SHA-256 hex digest"
  validateIdentity "teamId" peer.teamID
  validateIdentity "originId" peer.originID
  failIf ((L.decodeBase64 peer.publicKey).map List.length ≠ some publicKeySize)
    "publicKey must be a base64url Ed25519 public key"
  validateUniqueStrings "scopes" peer.scopes fun value => value = "ingest"
  validateUniqueStrings "allowedSources" peer.allowedSources Event.isKnownSource
  validateUniqueStrings "allowedRuntimes" peer.allowedRuntimes Event.isKnownRuntime

/-- The team and the origin of a peer, as one text. -/
def Peer.originKey (peer : Peer) : String := peer.teamID ++ "\x00" ++ peer.originID

/-- The check of the peers from an index on, given the ones seen before. -/
def validatePeers (index : Nat) (seen : List Peer) : List Peer → Except String Unit
  | [] => .ok ()
  | peer :: rest => do
    within ("peers[" ++ toString index ++ "]") (peer.validate L)
    failIf ((seen.map Peer.id).contains peer.id) ("duplicate peer id " ++ quoted peer.id)
    failIf ((seen.map Peer.publicKey).contains peer.publicKey) "duplicate peer public key"
    failIf ((seen.map Peer.originKey).contains peer.originKey) "duplicate peer team/origin"
    validatePeers (index + 1) (peer :: seen) rest

/-- The check of a relay configuration. -/
def RelayConfig.validate (config : RelayConfig) : Except String Unit := do
  validateHeader config.version config.minCoreVersion
  within "listener" (config.listener.validate L)
  failIf (config.slice = none) "peers must be an array"
  validatePeers L 0 [] config.peers

/-! ## Changes of the peers -/

/-- What is done to a peer. -/
inductive PeerAction where
  | add
  | revoke
  | remove
  deriving DecidableEq, Repr

/-- A change of the peers.  An empty expected revision stands for none. -/
structure PeerChange where
  action : PeerAction
  peer : Option Peer := none
  peerID : String := ""
  expectedRevision : String := ""
  dryRun : Bool := false
  deriving DecidableEq, Repr

/-- A configuration with its revision. -/
structure RelaySnapshot where
  config : RelayConfig
  revision : String
  deriving DecidableEq, Repr

/-- The result of a change. -/
structure PeerResult where
  before : RelaySnapshot
  after : RelaySnapshot
  dryRun : Bool
  deriving DecidableEq, Repr

/-- Why a transaction on `relay.json` fails. -/
inductive RelayError where
  | relayExists
  | relayChanged
  | peerExists
  | peerNotFound
  | peerRevoked
  | notFound
  | other (text : String)
  deriving DecidableEq, Repr

/-- The snapshot of a configuration. -/
def relaySnapshot (config : RelayConfig) : RelaySnapshot :=
  ⟨config, L.revision config⟩

/-- Revoke the first peer of an id. -/
def revokeFirst (peerID : String) : List Peer → Except RelayError (List Peer)
  | [] => .error .peerNotFound
  | peer :: rest =>
    if peer.id ≠ peerID then
      match revokeFirst peerID rest with
      | .error err => .error err
      | .ok changed => .ok (peer :: changed)
    else if peer.revoked then .error .peerRevoked
    else .ok ({ peer with revoked := true } :: rest)

/-- The peers after a change. -/
def changedPeers (change : PeerChange) (peers : List Peer) : Except RelayError (List Peer) :=
  match change.action with
  | .add =>
    match change.peer with
    | none => .error (.other "peer id contains unsafe characters")
    | some peer =>
      match peer.validate L with
      | .error message => .error (.other message)
      | .ok () =>
        if (peers.map Peer.id).contains peer.id then .error .peerExists else .ok (peers ++ [peer])
  | .revoke =>
    if trimSpace change.peerID = "" then .error (.other "relay peer id is required")
    else revokeFirst (trimSpace change.peerID) peers
  | .remove =>
    if change.expectedRevision = "" then
      .error (.other "relay peer removal requires an expected revision")
    else if trimSpace change.peerID = "" then .error (.other "relay peer id is required")
    else if ¬ (peers.map Peer.id).contains (trimSpace change.peerID) then .error .peerNotFound
    else .ok (peers.filter fun peer => peer.id ≠ trimSpace change.peerID)

/-- Apply a change to a snapshot. -/
def applyPeerChange (before : RelaySnapshot) (change : PeerChange) : Except RelayError PeerResult :=
  if change.expectedRevision ≠ "" ∧ change.expectedRevision ≠ before.revision then
    .error .relayChanged
  else
    match changedPeers L change before.config.peers with
    | .error err => .error err
    | .ok peers =>
      let value := { before.config with slice := some peers }
      match value.validate L with
      | .error message => .error (.other message)
      | .ok () => .ok ⟨before, relaySnapshot L value, change.dryRun⟩

/-! ## What a checked configuration and a change say -/

section Facts

variable {L : Libraries} {peers seen : List Peer} {index : Nat} {config : RelayConfig}
  {peerID : String}

/-- Checked peers differ from each other, and from those seen before, in every key. -/
lemma validatePeers_nodup {α : Type} (key : Peer → α)
    (hkey : ∀ index seen peer rest, validatePeers L index seen (peer :: rest) = .ok () →
      key peer ∉ seen.map key) (h : validatePeers L index seen peers = .ok ()) :
    (peers.map key).Nodup ∧ ∀ peer ∈ peers, key peer ∉ seen.map key := by
  induction peers generalizing index seen with
  | nil => exact ⟨List.nodup_nil, nofun⟩
  | cons peer rest ih =>
    have hfirst := hkey index seen peer rest h
    simp only [validatePeers, bind_eq_ok, failIf_eq_ok, exists_const] at h
    obtain ⟨-, -, -, -, -, hrest⟩ := h
    obtain ⟨hnodup, hnew⟩ := ih hrest
    refine ⟨?_, ?_⟩
    · rw [List.map_cons, List.nodup_cons]
      refine ⟨fun hmem => ?_, hnodup⟩
      obtain ⟨other, hother, heq⟩ := List.mem_map.mp hmem
      exact hnew other hother (heq ▸ List.mem_map_of_mem List.mem_cons_self)
    · intro other hother hmem
      rcases List.mem_cons.mp hother with rfl | hother
      · exact hfirst hmem
      · exact hnew other hother (by
          exact List.mem_cons_of_mem _ hmem)

/-- The peers of a checked configuration. -/
lemma validatePeers_of_validate (h : config.validate L = .ok ()) :
    validatePeers L 0 [] config.peers = .ok () := by
  simp only [RelayConfig.validate, bind_eq_ok] at h
  obtain ⟨_, -, _, -, _, -, hpeers⟩ := h
  exact hpeers

/-- The peers of a checked configuration have different ids. -/
lemma nodup_ids (h : config.validate L = .ok ()) : (config.peers.map Peer.id).Nodup := by
  refine (validatePeers_nodup Peer.id ?_ (validatePeers_of_validate h)).1
  intro index seen peer rest hpeer
  simp only [validatePeers, bind_eq_ok, failIf_eq_ok, exists_const] at hpeer
  obtain ⟨-, -, hid, -⟩ := hpeer
  simpa using hid

/-- The peers of a checked configuration spell different keys. -/
lemma nodup_publicKeys (h : config.validate L = .ok ()) :
    (config.peers.map Peer.publicKey).Nodup := by
  refine (validatePeers_nodup Peer.publicKey ?_ (validatePeers_of_validate h)).1
  intro index seen peer rest hpeer
  simp only [validatePeers, bind_eq_ok, failIf_eq_ok, exists_const] at hpeer
  obtain ⟨-, -, -, hkey, -⟩ := hpeer
  simpa using hkey

/-- The characters of an identity are not white space. -/
lemma isSpace_eq_false {c : Char} (h : c.isLower || c.isDigit || c = '_' || c = '-') :
    isSpace c = false := by
  by_contra hspace
  delta Char.isLower at h
  simp only [isSpace, Char.isDigit, Bool.or_eq_true, Bool.and_eq_true,
    decide_eq_true_eq, Bool.not_eq_false, List.mem_cons, List.not_mem_nil, or_false,
    ge_iff_le, UInt32.le_iff_toNat_le, ← UInt32.toNat_inj] at h hspace
  rcases h with ((h | h) | rfl) | rfl
  · simp at h hspace
    omega
  · simp at h hspace
    omega
  · simp at hspace
  · simp at hspace

/-- An identity has no white space around it. -/
lemma trimSpace_of_isIdentity {text : String} (h : isIdentity text = true) :
    trimSpace text = text := by
  refine Relay.trimSpace_of_forall fun c hc => ?_
  unfold isIdentity at h
  split at h
  · rename_i hnil
    rw [hnil] at hc
    cases hc
  · rename_i first rest heq
    simp only [Bool.and_eq_true, List.all_eq_true] at h
    rw [heq] at hc
    rcases List.mem_cons.mp hc with rfl | hc
    · exact isSpace_eq_false (by simp [h.1.1])
    · exact isSpace_eq_false (h.2 c hc)

/-- What a successful change does to the peers. -/
inductive Changed (L : Libraries) (change : PeerChange) (before : RelayConfig) :
    List Peer → Prop where
  | added (peer : Peer) (action : change.action = .add) (given : change.peer = some peer)
      (valid : peer.validate L = .ok ()) :
      Changed L change before (before.peers ++ [peer])
  | revoked (left right : List Peer) (peer : Peer) (action : change.action = .revoke)
      (id : peer.id = trimSpace change.peerID) (active : peer.revoked = false)
      (peers : before.peers = left ++ peer :: right) :
      Changed L change before (left ++ { peer with revoked := true } :: right)
  | removed (action : change.action = .remove)
      (revision : change.expectedRevision = L.revision before) :
      Changed L change before
        (before.peers.filter fun peer => peer.id ≠ trimSpace change.peerID)

/-- Revoking changes one peer that was not revoked. -/
lemma split_of_revokeFirst {changed : List Peer} (h : revokeFirst peerID peers = .ok changed) :
    ∃ left peer right, peers = left ++ peer :: right ∧ peer.id = peerID ∧
      peer.revoked = false ∧ changed = left ++ { peer with revoked := true } :: right := by
  induction peers generalizing changed with
  | nil => cases h
  | cons first rest ih =>
    simp only [revokeFirst] at h
    split at h
    · split at h
      · cases h
      · rename_i changed' hrest
        cases h
        obtain ⟨left, peer, right, hsplit, hid, hactive, hchanged⟩ := ih hrest
        exact ⟨first :: left, peer, right, by rw [hsplit, List.cons_append], hid, hactive,
          by rw [hchanged, List.cons_append]⟩
    · rename_i hid
      split at h
      · cases h
      · rename_i hactive
        cases h
        exact ⟨[], first, rest, rfl, not_not.mp hid, by simpa using hactive, rfl⟩

/-- A successful change gives a checked configuration that differs in the peers only. -/
lemma changed_of_applyPeerChange {change : PeerChange} {result : PeerResult}
    (h : applyPeerChange L (relaySnapshot L config) change = .ok result) :
    Changed L change config result.after.config.peers ∧
      result.after.config.validate L = .ok () := by
  unfold applyPeerChange at h
  split at h
  · cases h
  rename_i hrevision
  split at h
  · cases h
  rename_i peers hpeers
  simp only at h
  split at h
  · cases h
  rename_i hvalid
  cases h
  refine ⟨?_, hvalid⟩
  unfold changedPeers at hpeers
  cases haction : change.action with
  | add =>
    simp only [haction] at hpeers
    split at hpeers
    · cases hpeers
    rename_i peer hpeer
    split at hpeers
    · cases hpeers
    rename_i hpeerValid
    split at hpeers
    · cases hpeers
    cases hpeers
    exact .added peer haction hpeer hpeerValid
  | revoke =>
    simp only [haction] at hpeers
    split at hpeers
    · cases hpeers
    obtain ⟨left, peer, right, hsplit, hid, hactive, rfl⟩ := split_of_revokeFirst hpeers
    exact .revoked left right peer haction hid hactive hsplit
  | remove =>
    simp only [haction] at hpeers
    split at hpeers
    · cases hpeers
    rename_i hgiven
    split at hpeers
    · cases hpeers
    split at hpeers
    · cases hpeers
    cases hpeers
    exact .removed haction (not_not.mp fun hne => hrevision ⟨hgiven, hne⟩)

/-- A check within a label passes when it passes alone. -/
lemma within_eq_ok {label : String} {check : Except String Unit} {u : Unit} :
    within label check = .ok u ↔ check = .ok u := by
  cases check <;> simp [within, Except.mapError]

/-- Checked peers pass the check also when some are left out. -/
lemma validatePeers_filter (keep : Peer → Bool) {other : Nat} {before : List Peer}
    (hbefore : before ⊆ seen) (h : validatePeers L index seen peers = .ok ()) :
    validatePeers L other before (peers.filter keep) = .ok () := by
  induction peers generalizing index other seen before with
  | nil => rfl
  | cons peer rest ih =>
    simp only [validatePeers, bind_eq_ok, failIf_eq_ok, exists_const, within_eq_ok] at h
    obtain ⟨u, hvalid, hid, hkey, horigin, hrest⟩ := h
    by_cases hkeep : keep peer = true
    · rw [List.filter_cons_of_pos hkeep]
      simp only [validatePeers, bind_eq_ok, failIf_eq_ok, exists_const, within_eq_ok]
      have hmap : ∀ {β : Type} [DecidableEq β] (f : Peer → β) (value : β),
          ¬ (seen.map f).contains value = true → ¬ (before.map f).contains value = true := by
        intro β _ f value hnot hcontains
        rw [List.contains_iff_mem] at hnot hcontains
        exact hnot (List.map_subset f hbefore hcontains)
      refine ⟨u, hvalid, hmap _ _ hid, hmap _ _ hkey, hmap _ _ horigin, ?_⟩
      exact ih (List.cons_subset_cons peer hbefore) hrest
    · rw [List.filter_cons_of_neg hkeep]
      exact ih (fun _ hmem => List.mem_cons_of_mem _ (hbefore hmem)) hrest

/-- A peer of a checked configuration can be removed from it. -/
lemma applyPeerChange_remove (hvalid : config.validate L = .ok ()) (hid : isIdentity peerID = true)
    (hmem : peerID ∈ config.peers.map Peer.id) (hrevision : L.revision config ≠ "") :
    ∃ result, applyPeerChange L (relaySnapshot L config)
        { action := .remove, peerID := peerID, expectedRevision := L.revision config } =
          .ok result ∧
      result.after.config.peers = config.peers.filter fun peer => peer.id ≠ peerID := by
  have htrim := trimSpace_of_isIdentity hid
  have hname : peerID ≠ "" := by
    rintro rfl
    cases hid
  have hchanged : changedPeers L
      { action := .remove, peerID := peerID, expectedRevision := L.revision config }
      config.peers =
        .ok (config.peers.filter fun peer => peer.id ≠ peerID) := by
    simp [changedPeers, htrim, hrevision, hname, hmem]
  have hafter : RelayConfig.validate L
      { config with slice := some (config.peers.filter fun peer => peer.id ≠ peerID) } =
        .ok () := by
    simp only [RelayConfig.validate, bind_eq_ok] at hvalid ⊢
    obtain ⟨u, hheader, w, hlistener, _, -, hpeers⟩ := hvalid
    exact ⟨u, hheader, w, hlistener, (), rfl, validatePeers_filter _ (List.Subset.refl _) hpeers⟩
  refine ⟨⟨relaySnapshot L config, relaySnapshot L
    { config with slice := some (config.peers.filter fun peer => peer.id ≠ peerID) }, false⟩, ?_,
    rfl⟩
  simp only [applyPeerChange, relaySnapshot, hchanged, hafter]
  simp

end Facts

/-! ## Sample libraries -/

instance encodableChar : Encodable Char :=
  Encodable.ofLeftInverse Char.toNat Char.ofNat Char.ofNat_toNat

instance encodableString : Encodable String :=
  Encodable.ofLeftInverse String.toList String.ofList fun _ => String.ofList_toList

instance : Encodable PathRef :=
  Encodable.ofLeftInverse (fun p => (p.platform, p.value)) (fun t => ⟨t.1, t.2⟩) fun _ => rfl

instance : Encodable ListenerTLS :=
  Encodable.ofLeftInverse (fun t => (t.certFile, t.keyFile)) (fun t => ⟨t.1, t.2⟩) fun _ => rfl

instance : Encodable Listener :=
  Encodable.ofLeftInverse (fun l => (l.enabled, l.address, l.tls, l.sshTunnel))
    (fun t => ⟨t.1, t.2.1, t.2.2.1, t.2.2.2⟩) fun _ => rfl

instance : Encodable Peer :=
  Encodable.ofLeftInverse
    (fun p => (p.id, p.enrollmentID, p.teamID, p.originID, p.publicKey, p.scopes,
      p.allowedSources, p.allowedRuntimes, p.revoked))
    (fun t => ⟨t.1, t.2.1, t.2.2.1, t.2.2.2.1, t.2.2.2.2.1, t.2.2.2.2.2.1, t.2.2.2.2.2.2.1,
      t.2.2.2.2.2.2.2.1, t.2.2.2.2.2.2.2.2⟩) fun _ => rfl

instance : Encodable RelayConfig :=
  Encodable.ofLeftInverse (fun c => (c.version, c.minCoreVersion, c.listener, c.slice))
    (fun t => ⟨t.1, t.2.1, t.2.2.1, t.2.2.2⟩) fun _ => rfl

/-- A revision without collisions: as many letters as the number of the configuration. -/
def sampleRevision (config : RelayConfig) : String :=
  String.ofList (List.replicate (Encodable.encode config) 'r')

lemma sampleRevision_injective : Function.Injective sampleRevision := by
  intro first second h
  have hlength := congrArg List.length (String.ofList_injective h)
  rw [List.length_replicate, List.length_replicate] at hlength
  exact Encodable.encode_injective hlength

/-- Libraries that know host names, ports and clean paths. -/
def sampleLibraries : Libraries where
  decodeBase64 := Streams.Base64.decode
  encodeBase64 := Streams.Base64.encode
  splitHostPort := fun text =>
    match text.toList.splitOnP fun c => c = ':' with
    | [host, port] => some (String.ofList host, String.ofList port)
    | _ => none
  atoi := fun text =>
    if text ≠ "" ∧ text.toList.all Char.isDigit then
      some (text.toList.foldl (fun value c => 10 * value + (c.toNat - '0'.toNat)) 0 : Nat)
    else none
  parseIP := fun _ => none
  cleanPath := fun path => path
  revision := sampleRevision

lemma sampleLibraries_decode (bytes : Bytes) :
    sampleLibraries.decodeBase64 (sampleLibraries.encodeBase64 bytes) = some bytes :=
  Streams.Base64.decode_encode bytes

/-- A peer of the sample configuration, with the key of 32 equal bytes. -/
def sampleConfigured (id : String) (originID : String) (byte : UInt8) : Peer where
  id := id
  teamID := "team"
  originID := originID
  publicKey := sampleLibraries.encodeBase64 (List.replicate 32 byte)
  scopes := ["ingest"]
  allowedSources := ["codex"]
  allowedRuntimes := ["host"]

/-- A sample configuration of a relay that listens, with given peers. -/
def sampleConfig (peers : List Peer) : RelayConfig where
  version := 1
  minCoreVersion := "0.1.0"
  listener := { enabled := true, address := "localhost:8787" }
  slice := some peers

end AgentBell.RemoteConfig
