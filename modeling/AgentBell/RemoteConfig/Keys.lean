import AgentBell.RemoteConfig.Relay
import AgentBell.Streams.Base64

/-!
# Keys of the configured peers

A configuration is checked for peers that spell their keys alike, and the keys are used in decoded
form.  The decoder skips line breaks and two bits of the last character of a key, so peers of a
checked configuration have different keys exactly when their spellings differ elsewhere.
-/

namespace AgentBell.RemoteConfig

open Streams

/-- The decoder is that of `base64.RawURLEncoding`. -/
def Libraries.rawURL (L : Libraries) : Libraries := { L with decodeBase64 := Base64.decode }

/-- No two peers have one key, so that no peer with the key of a revoked one is left unrevoked. -/
structure KeysApart (L : Libraries) (config : RelayConfig) : Prop where
  keys : (config.peers.map fun peer => L.decodeBase64 peer.publicKey).Nodup
  revoked : ∀ change result, change.action = .revoke →
    applyPeerChange L (relaySnapshot L config) change = .ok result →
    ∀ peer ∈ config.peers, peer.id = Relay.trimSpace change.peerID →
    ∀ other ∈ result.after.config.peers,
      L.decodeBase64 other.publicKey = L.decodeBase64 peer.publicKey → other.revoked = true

/-- The part of the spelling of a key that the key depends on. -/
def Peer.spelling (peer : Peer) : Option (List Nat) :=
  (Base64.digits peer.publicKey).map Base64.significant

variable {L : Libraries} {config : RelayConfig} {peer other : Peer}

/-- Every peer of a checked configuration passes its check. -/
lemma validate_of_mem {index : Nat} {seen peers : List Peer}
    (h : validatePeers L index seen peers = .ok ()) (hmem : peer ∈ peers) :
    peer.validate L = .ok () := by
  induction peers generalizing index seen with
  | nil => cases hmem
  | cons first rest ih =>
    simp only [validatePeers, bind_eq_ok, within_eq_ok] at h
    obtain ⟨u, hfirst, -, -, -, -, -, -, hrest⟩ := h
    rcases List.mem_cons.mp hmem with rfl | hmem
    · exact hfirst
    · exact ih hrest hmem

/-- A checked key has 43 characters besides line breaks. -/
lemma digits_of_validate (h : peer.validate L.rawURL = .ok ()) :
    ∃ ds bytes, Base64.digits peer.publicKey = some ds ∧ Base64.decodeDigits ds = some bytes ∧
      ds.length = 43 := by
  simp only [Peer.validate, validateIdentity, bind_eq_ok, failIf_eq_ok, exists_const, not_not] at h
  obtain ⟨-, -, -, -, hkey, -⟩ := h
  obtain ⟨bytes, hdecode, hlength⟩ := Option.map_eq_some_iff.mp hkey
  obtain ⟨ds, hds, hbytes⟩ := Option.bind_eq_some_iff.mp hdecode
  refine ⟨ds, bytes, hds, hbytes, ?_⟩
  have hcount := Base64.length_decodeDigits hbytes
  rw [hlength, publicKeySize] at hcount
  omega

/-- Checked peers have the same key when their spellings differ in what is skipped only. -/
lemma decode_eq_iff (hpeer : peer.validate L.rawURL = .ok ())
    (hother : other.validate L.rawURL = .ok ()) :
    Base64.decode peer.publicKey = Base64.decode other.publicKey ↔
      peer.spelling = other.spelling := by
  obtain ⟨ds, bytes, hds, hbytes, hlength⟩ := digits_of_validate hpeer
  obtain ⟨es, bytes', hes, hbytes', hlength'⟩ := digits_of_validate hother
  have hsame := Base64.decodeDigits_eq_iff hbytes hbytes' (hlength.trans hlength'.symm)
    (by rw [hlength])
  simpa [Base64.decode, Peer.spelling, hds, hes, hbytes, hbytes'] using hsame

/-- When no two peers have one key, revoking a peer leaves no other one with its key. -/
lemma keysApart_of_nodup (hvalid : config.validate L = .ok ())
    (hkeys : (config.peers.map fun peer => L.decodeBase64 peer.publicKey).Nodup) :
    KeysApart L config := by
  refine ⟨hkeys, fun change result haction hresult peer hpeer hid other hother hkey => ?_⟩
  obtain ⟨hchanged, -⟩ := changed_of_applyPeerChange hresult
  generalize result.after.config.peers = peers at hchanged hother
  cases hchanged with
  | added given action => cases haction.symm.trans action
  | removed action => cases haction.symm.trans action
  | revoked left right found action hfound active hpeers =>
    have hmem : found ∈ config.peers := by simp [hpeers]
    obtain rfl : peer = found :=
      List.inj_on_of_nodup_map (nodup_ids hvalid) hpeer hmem (hid.trans hfound.symm)
    rw [hpeers, List.map_append, List.map_cons, List.nodup_middle, List.nodup_cons,
      ← List.map_append] at hkeys
    have hothers : other ∉ left ++ right := fun hmem =>
      hkeys.1 (List.mem_map.mpr ⟨other, hmem, hkey⟩)
    rw [List.mem_append, not_or] at hothers
    rcases List.mem_append.mp hother with hleft | hright
    · exact absurd hleft hothers.1
    rcases List.mem_cons.mp hright with rfl | hright
    · rfl
    · exact absurd hright hothers.2

/-- The peers of a checked configuration have different keys, and a revoked key is not left in
another peer, exactly when no two of them spell their keys alike up to line breaks and the last two
bits. -/
theorem keysApart_iff (L : Libraries) (config : RelayConfig)
    (hvalid : config.validate L.rawURL = .ok ()) :
    KeysApart L.rawURL config ↔ (config.peers.map Peer.spelling).Nodup := by
  have hpeers := validatePeers_of_validate hvalid
  have hdistinct : config.peers.Nodup := (nodup_ids hvalid).of_map
  have hsame : (config.peers.map fun peer => L.rawURL.decodeBase64 peer.publicKey).Nodup ↔
      (config.peers.map Peer.spelling).Nodup := by
    rw [List.nodup_map_iff_inj_on hdistinct, List.nodup_map_iff_inj_on hdistinct]
    refine forall₄_congr fun peer hpeer other hother => ?_
    have hkeys : L.rawURL.decodeBase64 peer.publicKey = L.rawURL.decodeBase64 other.publicKey ↔
        peer.spelling = other.spelling :=
      decode_eq_iff (validate_of_mem hpeers hpeer) (validate_of_mem hpeers hother)
    rw [hkeys]
  exact ⟨fun h => hsame.mp h.keys, fun h => keysApart_of_nodup hvalid (hsame.mpr h)⟩

/-! ## Sample configurations -/

/-- A peer whose key is spelled with 42 times the same character and a last one. -/
def spelledPeer (id : String) (last : Char) : Peer :=
  { sampleConfigured id id 0 with publicKey := String.ofList (List.replicate 42 'A' ++ [last]) }

/-- A configuration with two peers. -/
def twoPeers (last : Char) : RelayConfig :=
  sampleConfig [spelledPeer "desk" 'A', spelledPeer "laptop" last]

/-- One of the two is revoked. -/
def revokeDesk (last : Char) : Except RelayError PeerResult :=
  applyPeerChange sampleLibraries.rawURL (relaySnapshot sampleLibraries.rawURL (twoPeers last))
    { action := .revoke, peerID := "desk" }

lemma revokeDesk_leaves_key : (revokeDesk 'B').toOption.any (fun result =>
    result.after.config.peers.any fun other => other.revoked = false &&
      Base64.decode other.publicKey = Base64.decode (spelledPeer "desk" 'A').publicKey) = true := by
  decide +kernel

/-- Two peers of an accepted configuration have the same key, and one of them stays unrevoked when
the other one is revoked. -/
theorem two_peers_with_one_key : (twoPeers 'B').validate sampleLibraries.rawURL = .ok () ∧
      ¬ KeysApart sampleLibraries.rawURL (twoPeers 'B') ∧
      ∃ result, revokeDesk 'B' = .ok result ∧ ∃ other ∈ result.after.config.peers,
        other.revoked = false ∧
          Base64.decode other.publicKey = Base64.decode (spelledPeer "desk" 'A').publicKey := by
  obtain ⟨result, hresult, hany⟩ := (Option.any_eq_true _ _).mp revokeDesk_leaves_key
  obtain ⟨other, hother, hleft⟩ := List.any_eq_true.mp hany
  obtain ⟨hactive, hkey⟩ := Bool.and_eq_true_iff.mp hleft
  have hok : revokeDesk 'B' = .ok result := by
    cases hrevoke : revokeDesk 'B' with
    | error err =>
      rw [hrevoke] at hresult
      cases hresult
    | ok changed =>
      rw [hrevoke] at hresult
      exact congrArg Except.ok (Option.some.inj hresult)
  refine ⟨by decide +kernel, fun h => ?_, result, hok, other, hother, of_decide_eq_true hactive,
    of_decide_eq_true hkey⟩
  have hrevoked := h.revoked _ result rfl hok _ List.mem_cons_self rfl other hother
    (of_decide_eq_true hkey)
  rw [of_decide_eq_true hactive] at hrevoked
  cases hrevoked

/-- Peers whose keys differ in a bit that counts. -/
theorem two_peers_with_two_keys : KeysApart sampleLibraries.rawURL (twoPeers 'E') :=
  (keysApart_iff sampleLibraries (twoPeers 'E') (by decide +kernel)).mpr (by decide +kernel)

end AgentBell.RemoteConfig
