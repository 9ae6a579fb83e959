import AgentBell.App.Transactions
import AgentBell.Relay.Receipts

/-!
# Revocation

A revocation is written to `relay.json`; a running relay keeps the peers it read when it started
and those it enrolled itself.  A key is cut off when `relay.json` lists it and every peer with
this key is revoked there.  Nothing the calls do takes that back: a key that is listed cannot be
enrolled again, and a failed enrollment removes only the peer it has added itself.

So a revoked key stays cut off in every relay that starts later.  A relay that has the key in its
map when the revocation is written goes on accepting its requests.
-/

namespace AgentBell.App

open Interleaving

open Relay (Bytes Primitives)

open RemoteConfig (Libraries RelayConfig PeerChange PeerResult applyPeerChange relaySnapshot)

variable {keyID : String} {peer : Relay.Peer} {s v : Store} {L : Libraries} {x : Choice}
  {P : Primitives}

/-! ## Keys that are cut off -/

/-- A configuration cuts a key off: it lists the key, as the Core spells it, and every peer with
this key is revoked. -/
structure Cuts (L : Libraries) (config : RelayConfig) (key : Bytes) : Prop where
  listed : ∃ peer ∈ config.peers, peer.publicKey = L.encodeBase64 key
  revoked : ∀ peer ∈ config.peers, L.decodeBase64 peer.publicKey = some key →
    peer.revoked = true

/-- No relay has an unrevoked peer with this key in its map. -/
def Unloaded (key : Bytes) (s : Store) : Prop :=
  ∀ runtime keyID peer, (s.runtimes runtime).lookup keyID = some peer → peer.publicKey = key →
    peer.revoked = true

/-- `relay.json` spells this key as the Core does. -/
def Spelled (L : Libraries) (key : Bytes) (s : Store) : Prop :=
  ∀ config, s.relay = some config → ∀ peer ∈ config.peers,
    L.decodeBase64 peer.publicKey = some key → peer.publicKey = L.encodeBase64 key

/-- A reported revocation was written, a key whose revocation was written is cut off in
`relay.json` and in every map, and no acknowledgement went to a key reported as revoked. -/
structure Revoking (L : Libraries) (s : Store) : Prop where
  reported : ∀ key ∈ s.revoked, key ∈ s.cut
  saved : ∀ key ∈ s.cut, ∃ config, s.relay = some config ∧ Cuts L config key
  unloaded : ∀ key ∈ s.cut, Unloaded key s
  accepted : ∀ entry ∈ s.accepted, entry.peer.publicKey ∉ entry.revokedBefore

section Changes

variable {L : Libraries} {change : PeerChange} {config : RelayConfig}
  {key : Bytes} {peer : RemoteConfig.Peer} {left right : List RemoteConfig.Peer}
  {changed : RelayConfig}

/-- A configuration that lists a key has another spelling for every peer added to it. -/
lemma Cuts.added {added : RelayConfig} {publicKey : Bytes}
    (hbase64 : ∀ bytes, L.decodeBase64 (L.encodeBase64 bytes) = some bytes) (h : Cuts L config key)
    (hpeers : added.peers = config.peers ++ [peer]) (hvalid : added.validate L = .ok ())
    (hkey : peer.publicKey = L.encodeBase64 publicKey) : publicKey ≠ key ∧ Cuts L added key := by
  obtain ⟨listed, hlisted, hspelled⟩ := h.listed
  have hne : publicKey ≠ key := by
    rintro rfl
    have hnodup := RemoteConfig.nodup_publicKeys hvalid
    rw [hpeers, List.map_append, List.nodup_append] at hnodup
    exact hnodup.2.2 _ (List.mem_map_of_mem hlisted) _ (List.mem_singleton.mpr rfl)
      (hspelled.trans hkey.symm)
  refine ⟨hne, ⟨listed, ?_, hspelled⟩, ?_⟩
  · rw [hpeers]
    exact List.mem_append_left _ hlisted
  · intro other hother hdecode
    rw [hpeers, List.mem_append, List.mem_singleton] at hother
    rcases hother with hother | rfl
    · exact h.revoked other hother hdecode
    · rw [hkey, hbase64] at hdecode
      exact absurd (Option.some.inj hdecode) hne

/-- Revoking a peer leaves every key cut off. -/
lemma Cuts.revokes (h : Cuts L config key) (hpeers : config.peers = left ++ peer :: right)
    (hchanged : changed.peers = left ++ { peer with revoked := true } :: right) :
    Cuts L changed key := by
  constructor
  · obtain ⟨listed, hlisted, hspelled⟩ := h.listed
    rw [hpeers, List.mem_append, List.mem_cons] at hlisted
    rw [hchanged]
    rcases hlisted with hleft | rfl | hright
    · exact ⟨listed, by simp [hleft], hspelled⟩
    · exact ⟨{ listed with revoked := true }, by simp, hspelled⟩
    · exact ⟨listed, by simp [hright], hspelled⟩
  · intro other hother hdecode
    rw [hchanged, List.mem_append, List.mem_cons] at hother
    have hmem : ∀ p, p ∈ left ∨ p ∈ right → p ∈ config.peers := by
      intro p hp
      rw [hpeers]
      rcases hp with hp | hp <;> simp [hp]
    rcases hother with hleft | rfl | hright
    · exact h.revoked other (hmem other (.inl hleft)) hdecode
    · rfl
    · exact h.revoked other (hmem other (.inr hright)) hdecode

/-- Removing peers that are not revoked leaves every key cut off. -/
lemma Cuts.removes {peerID : String}
    (hbase64 : ∀ bytes, L.decodeBase64 (L.encodeBase64 bytes) = some bytes) (h : Cuts L config key)
    (hactive : ∀ peer ∈ config.peers, peer.id = peerID → peer.revoked = false)
    (hchanged : changed.peers = config.peers.filter fun peer => peer.id ≠ peerID) :
    Cuts L changed key := by
  constructor
  · obtain ⟨listed, hlisted, hspelled⟩ := h.listed
    refine ⟨listed, ?_, hspelled⟩
    rw [hchanged, List.mem_filter, decide_eq_true_eq]
    refine ⟨hlisted, fun hid => ?_⟩
    have hrevoked : listed.revoked = true :=
      h.revoked listed hlisted (by rw [hspelled]; exact hbase64 key)
    rw [hactive listed hlisted hid] at hrevoked
    cases hrevoked
  · intro other hother hdecode
    rw [hchanged, List.mem_filter] at hother
    exact h.revoked other hother.1 hdecode

/-- The peer of a checked configuration that a revocation changes is the one it names. -/
lemma publicKey_of_revokedKey (hvalid : config.validate L = .ok ())
    (hpeers : config.peers = left ++ peer :: right) (hid : peer.id = Relay.trimSpace change.peerID)
    (hkey : revokedKey L change config = some key) : L.decodeBase64 peer.publicKey = some key := by
  unfold revokedKey at hkey
  split at hkey
  · obtain ⟨found, hfound, hdecode⟩ := Option.bind_eq_some_iff.mp hkey
    have hsame : found = peer := by
      refine List.inj_on_of_nodup_map (RemoteConfig.nodup_ids hvalid)
        (List.mem_of_find?_eq_some hfound) ?_ ?_
      · rw [hpeers]
        simp
      · rw [hid]
        simpa using List.find?_some hfound
    rwa [hsame] at hdecode
  · cases hkey

/-- A revocation cuts the key of its peer off, when the key is spelled in one way only. -/
lemma cuts_of_revoke (hvalid : config.validate L = .ok ())
    (hpeers : config.peers = left ++ peer :: right)
    (hchanged : changed.peers = left ++ { peer with revoked := true } :: right)
    (hdecode : L.decodeBase64 peer.publicKey = some key)
    (hspelled : ∀ other ∈ config.peers, L.decodeBase64 other.publicKey = some key →
      other.publicKey = L.encodeBase64 key) : Cuts L changed key := by
  have hpeer : peer ∈ config.peers := by
    rw [hpeers]
    simp
  have hnodup := RemoteConfig.nodup_publicKeys hvalid
  rw [hpeers, List.map_append, List.map_cons, List.nodup_middle, List.nodup_cons,
    List.mem_append] at hnodup
  have hother : ∀ other, other ∈ left ∨ other ∈ right →
      L.decodeBase64 other.publicKey ≠ some key := by
    intro other hmem hkey
    have hconfigured : other ∈ config.peers := by
      rw [hpeers]
      rcases hmem with hmem | hmem <;> simp [hmem]
    have hsame : other.publicKey = peer.publicKey :=
      (hspelled other hconfigured hkey).trans (hspelled peer hpeer hdecode).symm
    refine hnodup.1 (hmem.imp (fun h => ?_) fun h => ?_) <;> exact hsame ▸ List.mem_map_of_mem h
  constructor
  · exact ⟨{ peer with revoked := true }, by simp [hchanged], hspelled peer hpeer hdecode⟩
  · intro other hmem hkey
    rw [hchanged, List.mem_append, List.mem_cons] at hmem
    rcases hmem with hleft | rfl | hright
    · exact absurd hkey (hother other (.inl hleft))
    · rfl
    · exact absurd hkey (hother other (.inr hright))

end Changes

/-! ## The contract of the calls -/

/-- In which stores a call issues a command that touches the peers. -/
def Cmd.Fits (L : Libraries) : Cmd → Store → Prop
  | .save _ config revokes, s => (∀ key ∈ s.cut, Cuts L config key) ∧
      ∀ key, revokes = some key → Spelled L key s → Cuts L config key
  | .setPeer _ peer, s => peer.publicKey ∈ s.cut → peer.revoked = true
  | .setPeers _ peers, s => ∀ peer ∈ peers, peer.publicKey ∈ s.cut → peer.revoked = true
  | .reportRevoked key, s => key ∈ s.cut
  | .reportAccepted entry, _ => entry.peer.publicKey ∉ entry.revokedBefore
  | _, _ => True

/-- What a revocation needs when it is written: no relay has the key loaded, and `relay.json`
spells it in one way. -/
def revokesUnloaded (L : Libraries) (_ : Choice) : Cmd → Store → Prop
  | .save _ _ (some key), s => Unloaded key s ∧ Spelled L key s
  | _, _ => True

/-- The entries of a map of peers are among the peers. -/
lemma mem_of_lookup_peerMap {peers : List Relay.Peer}
    (h : (peerMap peers).lookup keyID = some peer) : peer ∈ peers := by
  have hfold : ∀ (peers : List Relay.Peer) (start : AList fun _ : String => Relay.Peer),
      (peers.foldl (fun entries p => entries.insert p.id p) start).lookup keyID = some peer →
      peer ∈ peers ∨ start.lookup keyID = some peer := by
    intro peers
    induction peers with
    | nil => exact fun start h => .inr h
    | cons first rest ih =>
      intro start h
      rcases ih _ h with hmem | hlookup
      · exact .inl (List.mem_cons_of_mem _ hmem)
      · by_cases hid : keyID = first.id
        · subst hid
          rw [AList.lookup_insert] at hlookup
          exact .inl (Option.some.inj hlookup ▸ List.mem_cons_self)
        · rw [AList.lookup_insert_ne hid] at hlookup
          exact .inr hlookup
  rcases hfold peers ∅ h with hmem | hlookup
  · exact hmem
  · cases hlookup

/-- An entry of a changed map was there before or comes from the map that was set. -/
lemma lookup_setRuntime {runtime other : Nat} {peers : AList fun _ : String => Relay.Peer}
    (h : ((s.setRuntime runtime peers).runtimes other).lookup keyID = some peer) :
    peers.lookup keyID = some peer ∨ (s.runtimes other).lookup keyID = some peer := by
  by_cases heq : other = runtime
  · subst heq
    simp only [Store.setRuntime, Function.update_self] at h
    exact .inl h
  · simp only [Store.setRuntime, Function.update_of_ne heq] at h
    exact .inr h

/-- A publication cuts off what was cut off, and the key it revokes. -/
lemma Revoking.publish {config : RelayConfig} {revokes : Option Bytes} (h : Revoking L s)
    (hfits : Cmd.Fits L (.save 0 config revokes) s)
    (hguard : ∀ key, revokes = some key → Unloaded key s ∧ Spelled L key s) :
    Revoking L (s.publish config revokes) := by
  have hcut : ∀ key ∈ (s.publish config revokes).cut, revokes = some key ∨ key ∈ s.cut := by
    intro key hkey
    rcases List.mem_append.mp hkey with hkey | hkey
    · exact .inl (Option.mem_toList.mp hkey)
    · exact .inr hkey
  refine ⟨fun key hkey => List.mem_append_right _ (h.reported key hkey), ?_, ?_, h.accepted⟩
  · intro key hkey
    refine ⟨config, rfl, ?_⟩
    rcases hcut key hkey with hnew | hold
    · exact hfits.2 key hnew (hguard key hnew).2
    · exact hfits.1 key hold
  · intro key hkey
    rcases hcut key hkey with hnew | hold
    · exact (hguard key hnew).1
    · exact h.unloaded key hold

variable {c : Cmd} {r : Reply c}

/-- Every step of a call keeps revoked keys cut off, when a revocation is written only while no
relay has its key loaded. -/
lemma Revoking.exec (h : Revoking L s) (hfits : c.Fits L s) (hguard : revokesUnloaded L x c s)
    (hx : exec L x c s = some (r, v)) : Revoking L v := by
  cases storeEffect_of_exec hx with
  | same => exact h
  | acquired | released | paired | ingested =>
    exact ⟨h.reported, h.saved, h.unloaded, h.accepted⟩
  | published token config revokes =>
    refine h.publish hfits fun key hkey => ?_
    subst hkey
    exact hguard
  | peerSet runtime peer =>
    refine ⟨h.reported, h.saved, fun key hkey other keyID found hfound hpub => ?_, h.accepted⟩
    rcases lookup_setRuntime hfound with hlookup | hlookup
    · by_cases hid : keyID = peer.id
      · rw [hid, AList.lookup_insert] at hlookup
        obtain rfl := Option.some.inj hlookup
        exact hfits (hpub ▸ hkey)
      · rw [AList.lookup_insert_ne hid] at hlookup
        exact h.unloaded key hkey runtime keyID found hlookup hpub
    · exact h.unloaded key hkey other keyID found hlookup hpub
  | peersSet runtime peers =>
    refine ⟨h.reported, h.saved, fun key hkey other keyID found hfound hpub => ?_, h.accepted⟩
    rcases lookup_setRuntime hfound with hlookup | hlookup
    · exact hfits found (mem_of_lookup_peerMap hlookup) (hpub ▸ hkey)
    · exact h.unloaded key hkey other keyID found hlookup hpub
  | revocation key =>
    refine ⟨fun other hother => ?_, h.saved, h.unloaded, h.accepted⟩
    rcases List.mem_cons.mp hother with rfl | hother
    · exact hfits
    · exact h.reported other hother
  | acknowledgement entry =>
    refine ⟨h.reported, h.saved, h.unloaded, fun other hother => ?_⟩
    rcases List.mem_cons.mp hother with rfl | hother
    · exact hfits
    · exact h.accepted other hother

/-- Whether a call may load a key: it starts a relay, or enrolls this key. -/
def Call.Loads (key : Bytes) : Call → Prop
  | .serve _ => True
  | .enroll _ _ request => request.publicKey = key
  | _ => False

/-- What a call expects of the others about the keys whose revocation was written. -/
structure CutKept (k : Call) (s t : Store) : Prop where
  grows : ∀ key ∈ s.cut, key ∈ t.cut
  loads : ∀ key, k.Loads key → key ∉ s.cut → key ∉ t.cut

lemma CutKept.refl (k : Call) (s : Store) : CutKept k s s := ⟨fun _ h => h, fun _ _ h => h⟩

variable {k : Call}

lemma CutKept.trans {t : Store} (hst : CutKept k s t) (htv : CutKept k t v) : CutKept k s v :=
  ⟨fun key h => htv.grows key (hst.grows key h),
    fun key hk h => htv.loads key hk (hst.loads key hk h)⟩

/-- What a call of process `i` expects of the others. -/
structure RevocationRely (L : Libraries) (i : Nat) (k : Call) (o : Option Cmd) (s t : Store) :
    Prop where
  lock : LockKept i o s t
  cut : CutKept k s t
  revoking : Revoking L s → Revoking L t

/-- The contract of process `i`. -/
def revocationContract (L : Libraries) (i : Nat) : Contract Cmd Store Call Unit where
  rest := fun _ _ => True
  rely := RevocationRely L i
  pre := fun _ c s => c.Owned i s ∧ c.Fits L s
  idle := fun _ _ => True
  done := fun _ _ _ => True

lemma revocationContract_lawful (L : Libraries) (i : Nat) : (revocationContract L i).Lawful where
  rely_refl := fun k o s => ⟨LockKept.refl i o s, CutKept.refl k s, id⟩
  rely_trans := fun _ _ _ _ _ hst htv =>
    ⟨hst.lock.trans htv.lock, hst.cut.trans htv.cut, htv.revoking ∘ hst.revoking⟩
  rest_refl := fun _ => trivial
  idle_stable := fun _ _ _ _ _ => trivial
  idle_of_done := fun _ _ _ _ => trivial

/-- The machine on which revocations are written while no relay has the key loaded. -/
noncomputable abbrev coldMachine (L : Libraries) : Machine Cmd Reply Store Choice :=
  (machine L).guard (revokesUnloaded L)

section Calls

variable {L : Libraries} {i : Nat} {k : Call} {s : Store} {key publicKey : Bytes}
  {config : RelayConfig} {peer : RemoteConfig.Peer} {α : Type} {request : PairEnrollmentRequest}
  (hbase64 : ∀ bytes, L.decodeBase64 (L.encodeBase64 bytes) = some bytes)
  (hrevision : Function.Injective L.revision)

/-- What a call of process `i` may do. -/
abbrev CallPre (L : Libraries) (i : Nat) (c : Cmd) (s : Store) : Prop := c.Owned i s ∧ c.Fits L s

/-- A call of process `i` among the others. -/
noncomputable abbrev coldSide (L : Libraries) (i : Nat) (k : Call) : Side Store :=
  ⟨coldMachine L, RevocationRely L i k, CallPre L i⟩

lemma revocation_discipline : Discipline L (coldSide L i k) i where
  sub := fun _ _ _ _ _ h => (Machine.guard_exec.mp h).2
  locks := fun _ _ _ _ _ hc h => holder_of_exec hc (Machine.guard_exec.mp h).2
  refl := fun o s => ⟨LockKept.refl i o s, CutKept.refl k s, id⟩
  lock := fun _ _ _ h => h.lock
  allowed := fun c _ hc h => ⟨h, by cases c <;> trivial⟩

/-- Revoked keys stay cut off when nothing but the lock, the pairing codes and the state directory
changes. -/
lemma Revoking.frame {t : Store} (h : Revoking L s) (hrelay : t.relay = s.relay)
    (hruntimes : t.runtimes = s.runtimes) (hcut : t.cut = s.cut) (hrevoked : t.revoked = s.revoked)
    (haccepted : t.accepted = s.accepted) : Revoking L t := by
  cases s
  cases hrelay
  cases hruntimes
  cases hcut
  cases hrevoked
  cases haccepted
  exact ⟨h.reported, h.saved, h.unloaded, h.accepted⟩

/-- What every call keeps. -/
lemma kept_revoking : Kept (RevocationRely L i k) (Revoking L) where
  stable := fun _ _ _ hs hst => hst.revoking hs
  holder := fun _ _ h => h.frame rfl rfl rfl rfl rfl

/-- What a call knows while it works with a key it may load. -/
lemma kept_uncut (hk : k.Loads key) :
    Kept (RevocationRely L i k) fun s => Revoking L s ∧ key ∉ s.cut where
  stable := fun _ _ _ hs hst => ⟨hst.revoking hs.1, hst.cut.loads key hk hs.2⟩
  holder := fun _ _ h => ⟨h.1.frame rfl rfl rfl rfl rfl, h.2⟩

/-- A step that fits keeps revoked keys cut off. -/
lemma Revoking.step (hs : Revoking L s)
    (hfits : c.Fits L s) (hx : (coldMachine L).exec x c s = some (r, v)) : Revoking L v :=
  hs.exec hfits (Machine.guard_exec.mp hx).1 (Machine.guard_exec.mp hx).2

/-- The configuration in `relay.json` cuts off every key whose revocation was written. -/
lemma Revoking.cuts (h : Revoking L s) (hrelay : s.relay = some config) (hkey : key ∈ s.cut) :
    Cuts L config key := by
  obtain ⟨saved, hsaved, hcuts⟩ := h.saved key hkey
  obtain rfl : config = saved := Option.mem_unique hrelay hsaved
  exact hcuts

/-- The rules under which a configuration is published that cuts off what was cut off. -/
lemma rules_of_fits {change : PeerChange} {B : RelayConfig → Store → Prop}
    (hfits : ∀ config result s, Publishing L i change (Revoking L) config result s →
      Cmd.Fits L (publication L i change config result) s)
    (hafter : ∀ config, Kept (RevocationRely L i k) fun s => Revoking L s ∧ B config s)
    (hB : ∀ config result s, Publishing L i change (Revoking L) config result s →
      B config (s.publish result.after.config (revokedKey L change config))) :
    ChangeRules L (coldSide L i k) i change (Revoking L) (Revoking L)
      fun config _ s => Revoking L s ∧ B config s where
  before := kept_revoking
  after := fun config _ => hafter config
  either := kept_revoking
  of_before := fun _ h => h
  of_after := fun _ _ _ h => h.1
  allowed := fun config result s h => ⟨h.inside.2.1, hfits config result s h⟩
  published := fun config result s _ _ _ h hx hv =>
    ⟨h.inside.1.step (hfits config result s h) hx, hv ▸ hB config result s h⟩

/-- The rules under which a peer is revoked. -/
lemma revoke_rules (peerID : String) (dryRun : Bool) :
    ChangeRules L (coldSide L i k) i (revokeChange peerID dryRun) (Revoking L) (Revoking L)
      fun config _ s => Revoking L s ∧
        ∀ key, revokedKey L (revokeChange peerID dryRun) config = some key → key ∈ s.cut := by
  refine rules_of_fits ?_ (fun config => ⟨?_, ?_⟩) ?_
  · intro config result s h
    obtain ⟨hchanged, -⟩ := RemoteConfig.changed_of_applyPeerChange h.changed
    generalize hafter : result.after.config.peers = peers at hchanged
    cases hchanged with
    | added peer action => cases action
    | removed action => cases action
    | revoked left right peer action id active hpeers =>
      refine ⟨fun key hkey => (h.inside.1.cuts h.relay hkey).revokes hpeers hafter, ?_⟩
      intro key hkey hspelled
      exact cuts_of_revoke h.valid hpeers hafter
        (publicKey_of_revokedKey h.valid hpeers id hkey) (hspelled config h.relay)
  · intro o s t hs hst
    exact ⟨hst.revoking hs.1, fun key hkey => hst.cut.grows key (hs.2 key hkey)⟩
  · exact fun s h hs => ⟨hs.1.frame rfl rfl rfl rfl rfl, hs.2⟩
  · exact fun config result s _ key hkey => List.mem_append_left _ (Option.mem_toList.mpr hkey)

include hbase64 in
/-- The rules under which a peer is added. -/
lemma add_rules (hkey : peer.publicKey = L.encodeBase64 publicKey) (hk : k.Loads publicKey) :
    ChangeRules L (coldSide L i k) i (addChange peer) (Revoking L) (Revoking L)
      fun _ _ s => Revoking L s ∧ publicKey ∉ s.cut := by
  have hadded : ∀ config result s, Publishing L i (addChange peer) (Revoking L) config result s →
      ∀ key ∈ s.cut, publicKey ≠ key ∧ Cuts L result.after.config key := by
    intro config result s h key hkeyCut
    obtain ⟨hchanged, hvalid⟩ := RemoteConfig.changed_of_applyPeerChange h.changed
    generalize hafter : result.after.config.peers = peers at hchanged
    cases hchanged with
    | revoked left right peer action => cases action
    | removed action => cases action
    | added given action isGiven =>
      obtain rfl : peer = given := Option.some.inj isGiven
      exact (h.inside.1.cuts h.relay hkeyCut).added hbase64 hafter hvalid hkey
  refine rules_of_fits ?_ (fun _ => kept_uncut hk) ?_
  · exact fun config result s h => ⟨fun key hcut => (hadded config result s h key hcut).2, nofun⟩
  · exact fun config result s h hcut => (hadded config result s h publicKey hcut).1 rfl

include hbase64 hrevision in
/-- The rules under which an enrollment removes the peer it has added. -/
lemma remove_rules {peerID : String} {added : PeerResult}
    (hafter : added.after.revision = L.revision added.after.config)
    (hactive : ∀ peer ∈ added.after.config.peers, peer.id = Relay.trimSpace peerID →
      peer.revoked = false) :
    ChangeRules L (coldSide L i k) i (removeChange peerID added) (Revoking L) (Revoking L)
      fun _ _ s => Revoking L s ∧ True := by
  refine rules_of_fits ?_ (fun _ => ⟨fun _ _ _ hs hst => ⟨hst.revoking hs.1, trivial⟩,
    fun _ _ hs => ⟨hs.1.frame rfl rfl rfl rfl rfl, trivial⟩⟩) fun _ _ _ _ => trivial
  intro config result s h
  obtain ⟨hchanged, -⟩ := RemoteConfig.changed_of_applyPeerChange h.changed
  generalize hpeers : result.after.config.peers = peers at hchanged
  cases hchanged with
  | added peer action => cases action
  | revoked left right peer action => cases action
  | removed action revision =>
    obtain rfl : added.after.config = config := hrevision (hafter.symm.trans revision)
    exact ⟨fun key hkey => (h.inside.1.cuts h.relay hkey).removes hbase64 hactive hpeers, nofun⟩

/-- A call of process `i` that runs to an end as its contract says. -/
abbrev CallSafe (L : Libraries) (i : Nat) (k : Call) {α : Type} (post : α → Store → Prop)
    (p : RelayProg α) (s : Store) : Prop :=
  (coldSide L i k).Safe post p s

/-- A call of process `i` that keeps revoked keys cut off. -/
abbrev CallKeeps (L : Libraries) (i : Nat) (k : Call) (p : RelayProg α) (s : Store) : Prop :=
  CallSafe L i k (fun _ t => Revoking L t) p s

/-- A program of the pairing store keeps what does not speak of it. -/
lemma sustained {A : Store → Prop} (hA : Kept (RevocationRely L i k) A)
    (hfree : ∀ s q, A s → A { s with pairings := q }) :
    Sustained (coldSide L i k) A :=
  ⟨hA, fun hp hs => safe_onPairings hp revocation_discipline hA (fun _ _ _ => ⟨trivial, trivial⟩)
    (fun _ _ t _ q _ ht _ => hfree t q ht) hs⟩

lemma sustained_revoking :
    Sustained (coldSide L i k) (Revoking L) :=
  sustained kept_revoking fun _ _ h => h.frame rfl rfl rfl rfl rfl

/-- A result that is returned while revoked keys are cut off. -/
lemma callSafe_return (a : α) (hs : Revoking L s) : CallKeeps L i k (Prog.ret a : RelayProg α) s :=
  safe_ret_of_stable hs (kept_revoking.stable none) fun _ ht => ht

include hbase64 hrevision in
/-- Removing the peer again that was added. -/
lemma callSafe_compensate (hactive : peer.revoked = false)
    {added : Option PeerResult} (hadded : AddedBy L peer added) (hs : Revoking L s) :
    CallKeeps L i k (compensate L i peer added) s := by
  cases added with
  | none => exact callSafe_return _ hs
  | some result =>
    obtain ⟨config, hresult⟩ := hadded result rfl
    obtain ⟨hchanged, hvalid⟩ := RemoteConfig.changed_of_applyPeerChange hresult
    have hunrevoked : ∀ other ∈ result.after.config.peers,
        other.id = Relay.trimSpace peer.id → other.revoked = false := by
      generalize hafter : result.after.config.peers = peers at hchanged
      cases hchanged with
      | revoked left right other action => cases action
      | removed action => cases action
      | added given action isGiven valid =>
        obtain rfl : peer = given := Option.some.inj isGiven
        intro other hother hid
        simp only [RemoteConfig.Peer.validate, RemoteConfig.validateIdentity, bind_eq_ok,
          failIf_eq_ok, not_not] at valid
        rw [RemoteConfig.trimSpace_of_isIdentity valid.choose_spec.1] at hid
        have hsame : other = peer :=
          List.inj_on_of_nodup_map (RemoteConfig.nodup_ids hvalid) (hafter ▸ hother)
            (hafter ▸ List.mem_append_right _ List.mem_cons_self) hid
        rw [hsame]
        exact hactive
    have hafter : result.after.revision = L.revision result.after.config := by
      rw [(after_of_applyPeerChange hresult).2]
      rfl
    refine Safe.bind revocation_discipline.refl
      (safe_apply revocation_discipline (remove_rules hbase64 hrevision hafter hunrevoked) hs) ?_
    exact fun _ t ht => callSafe_return _ ht.1

/-- The key of the peer of the ingress is the key of the configured one. -/
lemma publicKey_of_configuredRelayPeer {configured : RemoteConfig.Peer} {peer : Relay.Peer}
    (h : configuredRelayPeer L configured = .ok peer) :
    L.decodeBase64 configured.publicKey = some peer.publicKey ∧
      peer.revoked = configured.revoked := by
  unfold configuredRelayPeer at h
  split at h
  · cases h
  · rename_i publicKey hdecode
    simp only [bind_eq_ok, failIf_eq_ok] at h
    obtain ⟨_, -, _, -, _, -, hpeer⟩ := h
    cases hpeer
    exact ⟨hdecode, rfl⟩

include hbase64 in
/-- An unrevoked peer that `relay.json` lists has a key whose revocation was not written. -/
lemma Revoking.uncut_of_contains (h : Revoking L s) (hrelay : s.relay = some config)
    (hcontains : containsExactEnrollmentPeer config.peers peer = true)
    (hkey : peer.publicKey = L.encodeBase64 publicKey) : publicKey ∉ s.cut := by
  intro hcut
  unfold containsExactEnrollmentPeer at hcontains
  split at hcontains
  · cases hcontains
  · rename_i found hfound
    simp only [Bool.and_eq_true, decide_eq_true_eq, Bool.not_eq_true'] at hcontains
    obtain ⟨⟨⟨⟨⟨-, hpublic⟩, hactive⟩, -⟩, -⟩, -⟩ := hcontains
    have hrevoked := (h.cuts hrelay hcut).revoked found (List.mem_of_find?_eq_some hfound)
      (by rw [hpublic, hkey]; exact hbase64 publicKey)
    rw [hactive] at hrevoked
    cases hrevoked

include hbase64 hrevision in
/-- The rules under which a peer is enrolled: its key is not cut off when the code is used up. -/
lemma revocation_enrollRules (P : Primitives) (hk : k.Loads request.publicKey) :
    EnrollRules P L (coldSide L i k) i request (Revoking L)
      (Revoking L) (fun _ => Revoking L)
      fun _ _ s => Revoking L s ∧ request.publicKey ∉ s.cut where
  idle := sustained_revoking
  ready := fun _ _ => sustained (kept_uncut hk) fun _ _ h => ⟨h.1.frame rfl rfl rfl rfl rfl, h.2⟩
  done := kept_revoking
  claims := by
    intro now s hs
    have hp : (Relay.claim P i request.code now (2 * minute)).Within fun _ => True :=
      Prog.within_of_forall fun _ => trivial
    refine (safe_onPairings hp revocation_discipline kept_revoking
      (fun _ _ _ => ⟨trivial, trivial⟩) ?_ hs).weaken (fun _ _ h => h)
      fun _ _ h => ⟨h, fun _ _ => h⟩
    exact fun _ _ t _ q _ ht _ => ht.frame rfl rfl rfl rfl rfl
  add := fun _ => (add_rules hbase64 rfl hk).transaction revocation_discipline
  listed := fun _ _ _ hs hrelay hcontains =>
    ⟨hs, hs.uncut_of_contains hbase64 hrelay hcontains rfl⟩
  compensates := fun _ _ _ hadded hs => callSafe_compensate hbase64 hrevision rfl hadded hs.1
  unusable := fun _ _ _ _ _ _ hs => hs.1
  usable := by
    intro claim added runtime peer s hpeer hs
    have hkey : peer.publicKey = request.publicKey := by
      have h := (publicKey_of_configuredRelayPeer hpeer).1
      rw [show (enrolledPeer L claim request).publicKey = L.encodeBase64 request.publicKey
        from rfl, hbase64] at h
      exact (Option.some.inj h).symm
    have hfits : Cmd.Fits L (.setPeer runtime peer) s := fun hcut => absurd (hkey ▸ hcut) hs.2
    exact ⟨⟨trivial, hfits⟩, fun x r v hx => hs.1.step hfits hx⟩

/-- The peers of a relay that starts are revoked where their configuration is. -/
lemma revoked_of_configuredPeers {configured : List RemoteConfig.Peer} {peers : List Relay.Peer}
    (h : configuredPeers L configured = .ok peers)
    (hrevoked : ∀ peer ∈ configured, L.decodeBase64 peer.publicKey = some key →
      peer.revoked = true) : ∀ peer ∈ peers, peer.publicKey = key → peer.revoked = true := by
  induction configured generalizing peers with
  | nil =>
    cases h
    exact nofun
  | cons first rest ih =>
    simp only [configuredPeers, bind_eq_ok] at h
    obtain ⟨peer, hpeer, others, hothers, heq⟩ := h
    cases heq
    intro found hfound hkey
    rcases List.mem_cons.mp hfound with rfl | hfound
    · obtain ⟨hdecode, hsame⟩ := publicKey_of_configuredRelayPeer hpeer
      rw [hsame]
      exact hrevoked first List.mem_cons_self (hkey ▸ hdecode)
    · exact ih hothers (fun peer hmem => hrevoked peer (List.mem_cons_of_mem _ hmem)) found
        hfound hkey

/-- A relay that starts. -/
lemma callSafe_serve (runtime : Nat) (hk : ∀ key, k.Loads key) (hs : Revoking L s) :
    CallKeeps L i k (serve L runtime) s := by
  simp only [serve, perform, Prog.bind_eq, Prog.issue_bind, Prog.pure_eq]
  refine safe_cmd_of_stable hs (kept_revoking.stable _) (fun _ _ => ⟨trivial, trivial⟩) ?_
  intro x read t v ht hx
  obtain ⟨rfl, hok, -⟩ := exec_load (Machine.guard_exec.mp hx).2
  cases read with
  | error err => exact callSafe_return _ ht
  | ok config =>
    simp only
    split
    · exact callSafe_return _ ht
    cases hpeers : configuredPeers L config.peers with
    | error message => exact callSafe_return _ ht
    | ok peers =>
      -- What was read stays right until the map is set: no further revocation is written.
      have hsound : ∀ u, Revoking L u ∧ (∀ key ∈ u.cut, key ∈ v.cut) →
          Cmd.Fits L (.setPeers runtime peers) u := by
        intro u hu peer hpeer hcut
        exact revoked_of_configuredPeers hpeers
          (ht.cuts (hok config rfl).1 (hu.2 _ hcut)).revoked peer hpeer rfl
      refine safe_cmd_of_stable ⟨ht, fun _ h => h⟩ ?_ (fun u hu => ⟨trivial, hsound u hu⟩) ?_
      · intro u w hu huw
        refine ⟨huw.revoking hu.1, fun key hkey => hu.2 key ?_⟩
        by_contra hnot
        exact huw.cut.loads key (hk key) hnot hkey
      · intro y r u w hu hy
        exact callSafe_return _ (hu.1.step (hsound u hu) hy)

/-- A request is accepted only from a peer that is not revoked. -/
lemma callSafe_accept (P : Primitives) (runtime : Nat) (settings : Relay.Settings) (fuel : Nat)
    (request : Relay.IngressRequest) (now : Time) (hs : Revoking L s) :
    CallKeeps L i k (accept P runtime settings fuel request now) s := by
  unfold accept
  split
  · simp only [perform, Prog.bind_eq, Prog.issue_bind, Prog.pure_eq]
    refine safe_cmd_of_stable hs (kept_revoking.stable _) (fun _ _ => ⟨trivial, trivial⟩) ?_
    rintro x ⟨found, revokedBefore⟩ t v ht hx
    cases (Machine.guard_exec.mp hx).2
    cases hauth : Relay.authenticate P settings request ((t.runtimes runtime).lookup request.keyID)
        now with
    | error err =>
      simp only [Relay.acceptFrom, hauth]
      exact callSafe_return _ ht
    | ok authentic =>
      obtain ⟨peer, envelope⟩ := authentic
      have hauthentic := Relay.authentic_of_authenticate hauth
      refine Safe.bind revocation_discipline.refl
        (safe_onIngress _ revocation_discipline kept_revoking (fun _ _ => ⟨trivial, trivial⟩)
          (fun s q h => h.frame rfl rfl rfl rfl rfl) ht) ?_
      intro result u hu
      rw [hauthentic.known]
      cases result with
      | error err => exact callSafe_return _ hu
      | ok ack =>
        have hsound : ∀ w, Cmd.Fits L (.reportAccepted ⟨request, ack, peer, t.revoked⟩) w := by
          intro w hreported
          have hrevoked := ht.unloaded _ (ht.reported _ hreported) runtime request.keyID peer
            hauthentic.known rfl
          rw [hauthentic.active] at hrevoked
          cases hrevoked
        refine safe_cmd_of_stable hu (kept_revoking.stable _) (fun w _ => ⟨trivial, hsound w⟩) ?_
        intro y r w z hw hy
        exact callSafe_return _ (hw.step (hsound w) hy)
  · exact callSafe_return _ hs

/-- A revocation. -/
lemma callSafe_revoke (peerID : String) (dryRun : Bool) (hs : Revoking L s) :
    CallKeeps L i k (revoke L i peerID dryRun) s := by
  refine Safe.bind revocation_discipline.refl
    (safe_apply revocation_discipline (revoke_rules peerID dryRun) hs) ?_
  rintro result t ⟨ht, happlied⟩
  cases result with
  | error err => exact callSafe_return _ ht
  | ok result =>
    obtain ⟨config, -, hresult, hB⟩ := happlied result rfl
    simp only
    split
    · rename_i key hkey
      rw [(after_of_applyPeerChange hresult).1] at hkey
      obtain ⟨-, hcut⟩ := hB rfl
      refine safe_cmd_of_stable (A := fun u => Revoking L u ∧ key ∈ u.cut)
        ⟨ht, hcut key hkey⟩ (fun u v hu huv => ⟨huv.revoking hu.1, huv.cut.grows key hu.2⟩)
        (fun u hu => ⟨trivial, hu.2⟩) ?_
      intro x r u v hu hx
      have hfits : Cmd.Fits L (.reportRevoked key) u := hu.2
      exact callSafe_return _ (hu.1.step hfits hx)
    · exact callSafe_return _ ht

include hbase64 hrevision in
/-- The calls keep their contract. -/
lemma callSafe_body (P : Primitives) (k : Call) (hs : Revoking L s) :
    CallSafe L i k (fun _ _ => True) (body P L i k ()) s := by
  have hend : ∀ {α : Type} {p : RelayProg α}, CallKeeps L i k p s →
      CallSafe L i k (fun _ _ => True) (p.bind fun _ => Prog.ret ()) s := by
    intro α p hp
    exact Safe.bind revocation_discipline.refl hp fun _ _ _ => safe_ret fun _ _ => trivial
  cases k with
  | configure value dryRun =>
    refine hend (safe_initializeRelay revocation_discipline kept_revoking ?_ ?_ dryRun hs)
    · intro t ht
      refine ⟨ht.2.1, fun key hkey => ?_, nofun⟩
      obtain ⟨config, hrelay, -⟩ := ht.1.saved key hkey
      rw [ht.relay] at hrelay
      cases hrelay
    · intro t ht
      refine ht.1.publish ⟨fun key hkey => ?_, nofun⟩ nofun
      obtain ⟨config, hrelay, -⟩ := ht.1.saved key hkey
      rw [ht.relay] at hrelay
      cases hrelay
  | createPairing policy ttl now =>
    exact hend (sustained_revoking.pairings (claimless_create P policy ttl now) hs)
  | serve runtime =>
    have hk : ∀ key, (Call.serve runtime).Loads key := fun _ => trivial
    exact hend (callSafe_serve runtime hk hs)
  | accept runtime settings fuel request now =>
    exact hend (callSafe_accept P runtime settings fuel request now hs)
  | enroll runtime expected request =>
    have hk : (Call.enroll runtime expected request).Loads request.publicKey := rfl
    refine hend ((safe_enroll revocation_discipline (revocation_enrollRules hbase64 hrevision P hk)
      runtime expected hs).weaken (fun _ _ h => h) ?_)
    rintro (_ | _) t ht <;> exact ht
  | revoke peerID dryRun => exact hend (callSafe_revoke peerID dryRun hs)

end Calls

/-! ## Runs -/

/-- A revocation is written only while no relay has its key loaded or is about to load it, and
`relay.json` spells the key as the Core does; and the lock is respected. -/
structure RevokesCold (L : Libraries) (e : Event Call Choice Nat) (c : RelayState) : Prop where
  lock : LockRespected e c
  unloaded : ∀ i x k token config key next, e = .step i x →
    c.procs i = some (.busy k (.cmd (.save token config (some key)) next)) → Unloaded key c.store
  loading : ∀ i x k token config key next, e = .step i x →
    c.procs i = some (.busy k (.cmd (.save token config (some key)) next)) →
    ∀ j k p, j ≠ i → c.procs j = some (.busy k p) → ¬ k.Loads key
  spelled : ∀ i x k token config key next, e = .step i x →
    c.procs i = some (.busy k (.cmd (.save token config (some key)) next)) →
    Spelled L key c.store

/-- A step changes the keys whose revocation was written only by writing one. -/
lemma cut_of_exec (h : exec L x c s = some (r, v)) :
    v.cut = s.cut ∨ ∃ token config key, c = .save token config (some key) ∧
      v.cut = key :: s.cut := by
  cases storeEffect_of_exec h with
  | published token config revokes =>
    cases revokes with
    | none => exact .inl rfl
    | some key => exact .inr ⟨token, config, key, rfl, rfl⟩
  | _ => exact .inl rfl

/-- What every call expects of the keys whose revocation was written is kept by a step that
writes no revocation of a key the call may load. -/
lemma cutKept_of_exec (h : exec L x c s = some (r, v))
    (hloads : ∀ token config key, c = .save token config (some key) → ¬ k.Loads key) :
    CutKept k s v := by
  rcases cut_of_exec h with hsame | ⟨token, config, key, hc, hcut⟩
  · exact ⟨fun key hkey => hsame ▸ hkey, fun key _ hkey => hsame ▸ hkey⟩
  · refine ⟨fun other hother => hcut ▸ List.mem_cons_of_mem _ hother, ?_⟩
    intro other hother hnot hmem
    rw [hcut] at hmem
    rcases List.mem_cons.mp hmem with rfl | hmem
    · exact hloads token config other hc hother
    · exact hnot hmem

/-- Revoked keys are cut off and every process keeps its contract. -/
def ColdInvariant (L : Libraries) (c : RelayState) : Prop :=
  Revoking L c.store ∧ c.Sound (coldMachine L) (revocationContract L)

variable {e : Event Call Choice Nat}

/-- Every event keeps revoked keys cut off, when revocations are written cold. -/
lemma ColdInvariant.next (hbase64 : ∀ bytes, L.decodeBase64 (L.encodeBase64 bytes) = some bytes)
    (hrevision : Function.Injective L.revision) {c c' : RelayState} (h : ColdInvariant L c)
    (hcold : RevokesCold L e c) (he : (relay P L).next e c = some c') : ColdInvariant L c' := by
  obtain ⟨hstore, hsound⟩ := h
  have hguard : ∀ i x k o next, e = .step i x → c.procs i = some (.busy k (.cmd o next)) →
      revokesUnloaded L x o c.store := by
    intro i x k o next hstep hi
    cases o with
    | save token config revokes =>
      cases revokes with
      | none => trivial
      | some key =>
        exact ⟨hcold.unloaded i x k token config key next hstep hi,
          hcold.spelled i x k token config key next hstep hi⟩
    | _ => trivial
  have hlawful := revocationContract_lawful L
  refine ⟨?_, Config.Sound.next hsound hlawful
    (Protocol.guard_next he hguard) (fun _ _ _ => trivial) ?_ ?_⟩
  · cases Protocol.effect_of_next he with
    | issued i x k o next r v runs result =>
      exact hstore.exec (hsound.pre hlawful runs).2 (hguard i x k o next rfl runs) result
    | _ => exact hstore
  · intro i k m _ _ _
    exact callSafe_body hbase64 hrevision P k hstore
  · intro i x k o next r v hstep hi hpre hx j a hji hj
    obtain ⟨hallowed, hexec⟩ := Machine.guard_exec.mp hx
    cases a with
    | idle m => trivial
    | busy k' p =>
      refine ⟨lockKept_of_exec hji (hstep ▸ hcold.lock) hj hpre.1 hexec,
        cutKept_of_exec hexec ?_, fun hs => hs.exec hpre.2 hallowed hexec⟩
      intro token config key ho
      subst ho
      exact hcold.loading i x k token config key next hstep hi j k' p hji hj

/-- When every revocation is written while no relay has its key loaded or is loading it, no
request is acknowledged to a key after the revocation of this key was reported. -/
theorem no_ack_after_cold_revocation (P : Primitives) (L : Libraries)
    (hbase64 : ∀ bytes, L.decodeBase64 (L.encodeBase64 bytes) = some bytes)
    (hrevision : Function.Injective L.revision) (initial : Option RelayConfig) {c : RelayState}
    (h : Reachable (relay P L) (RevokesCold L) (relayStart initial) c) :
    ∀ entry ∈ c.store.accepted, entry.peer.publicKey ∉ entry.revokedBefore := by
  have hinvariant : ColdInvariant L c := by
    refine h.invariant (ColdInvariant L) ⟨⟨?_, ?_, ?_, ?_⟩, ?_⟩
      fun c c' e hc hcold he => hc.next hbase64 hrevision hcold he
    · exact fun key hkey => absurd hkey List.not_mem_nil
    · exact fun key hkey => absurd hkey List.not_mem_nil
    · exact fun key hkey => absurd hkey List.not_mem_nil
    · exact fun entry hentry => absurd hentry List.not_mem_nil
    · exact fun i a hi => by cases hi
  exact hinvariant.1.accepted

/-! ## Sample runs -/

open RemoteConfig (sampleLibraries sampleConfig sampleConfigured sampleLibraries_decode
  sampleRevision_injective)

open Relay (samplePrimitives sampleRequest sampleQueueID)

/-- `n` steps of the only process that work. -/
def works (n : Nat) : List (Event Call Choice Nat) := List.replicate n (.step 0 .works)

/-- `n` steps of the ingress that work. -/
def ingressWorks (n : Nat) : List (Event Call Choice Nat) :=
  List.replicate n (.step 0 (.ingress .works))

/-- A relay starts. -/
def serveRun : List (Event Call Choice Nat) := .call 0 (.serve 0) :: works 3

/-- The sample request is accepted. -/
def acceptRun : List (Event Call Choice Nat) :=
  .call 0 (.accept 0 {} 2 sampleRequest 1) :: works 1 ++ ingressWorks 6 ++
    .step 0 (.ingress (.queue (.id sampleQueueID))) ::
      List.replicate 4 (.step 0 (.ingress (.queue .nothing))) ++ ingressWorks 3 ++ works 2

/-- A configuration with the peer of the sample request and another one. -/
def twoPeers : Option RelayConfig :=
  some (sampleConfig [sampleConfigured "peer" "devbox" 0, sampleConfigured "old" "laptop" 1])

/-- A relay starts, its peer is revoked, and then the request of this peer arrives. -/
def hotRun : List (Event Call Choice Nat) :=
  .spawn 0 :: serveRun ++ .call 0 (.revoke "peer" false) :: works 8 ++ acceptRun

/-- The configuration after the request of the revoked peer. -/
def hotEnd : RelayState :=
  (relay samplePrimitives sampleLibraries).endOf (fun _ _ => true) hotRun (relayStart twoPeers)

/-- A running relay acknowledges a request of a peer whose revocation was reported before the
request arrived. -/
theorem revoked_peer_acknowledged :
    Reachable (relay samplePrimitives sampleLibraries) (fun _ _ => True) (relayStart twoPeers)
      hotEnd ∧
      ∃ entry ∈ hotEnd.store.accepted, entry.peer.publicKey ∈ entry.revokedBefore := by
  have hrun : ((relay samplePrimitives sampleLibraries).runIf (fun _ _ => true) hotRun
      (relayStart twoPeers)).any (fun c => c.store.accepted.any fun entry =>
        entry.revokedBefore.contains entry.peer.publicKey) = true := by
    decide +kernel
  obtain ⟨hreach, hgood⟩ := reachable_endOf (fun _ _ _ => trivial) .start hrun (rfl : hotEnd = _)
  obtain ⟨entry, hentry, hrevoked⟩ := List.any_eq_true.mp hgood
  exact ⟨hreach, entry, hentry, by simpa using hrevoked⟩

/-- Whether an event neither takes a lock over nor writes a revocation. -/
def writesNoRevocation (e : Event Call Choice Nat) (c : RelayState) : Bool :=
  match e with
  | .step _ .takesOver => false
  | .step i _ =>
    match c.procs i with
    | some (.busy _ (.cmd (.save _ _ (some _)) _)) => false
    | _ => true
  | _ => true

lemma revokesCold_of_writesNoRevocation {c : RelayState} (h : writesNoRevocation e c = true) :
    RevokesCold L e c := by
  have hno : ∀ i x k token config key next, e = .step i x →
      c.procs i ≠ some (.busy k (.cmd (.save token config (some key)) next)) := by
    rintro i x k token config key next rfl hi
    cases x <;> simp [writesNoRevocation, hi] at h
  refine ⟨?_, ?_, ?_, ?_⟩
  · rintro i j rfl
    cases h
  · exact fun i x k token config key next he hi => absurd hi (hno i x k token config key next he)
  · exact fun i x k token config key next he hi => absurd hi (hno i x k token config key next he)
  · exact fun i x k token config key next he hi => absurd hi (hno i x k token config key next he)

/-- Whether an event is one of the first process and loads no peer. -/
def loadsNothing (e : Event Call Choice Nat) (c : RelayState) : Bool :=
  match e with
  | .spawn i | .call i _ | .kill i => i = 0
  | .step i _ => i = 0 &&
    match c.procs i with
    | some (.busy _ (.cmd (.setPeer _ _) _)) => false
    | some (.busy _ (.cmd (.setPeers _ _) _)) => false
    | _ => true

/-- A step that sets no map changes none. -/
lemma runtimes_of_exec (h : exec L x c s = some (r, v))
    (hset : ∀ runtime peer, c ≠ .setPeer runtime peer)
    (hsets : ∀ runtime peers, c ≠ .setPeers runtime peers) : v.runtimes = s.runtimes := by
  cases storeEffect_of_exec h with
  | peerSet runtime peer => exact absurd rfl (hset runtime peer)
  | peersSet runtime peers => exact absurd rfl (hsets runtime peers)
  | _ => rfl

/-- While only the first process acts and nothing is loaded, there is no other process and every
map is empty. -/
lemma nothing_loaded {initial : Option RelayConfig} {c : RelayState}
    (h : Reachable (relay P L) (fun e c => loadsNothing e c = true) (relayStart initial) c) :
    (∀ j, j ≠ 0 → c.procs j = none) ∧ c.store.runtimes = fun _ => ∅ := by
  refine h.invariant (fun c => (∀ j, j ≠ 0 → c.procs j = none) ∧ c.store.runtimes = fun _ => ∅)
    ⟨fun _ _ => rfl, rfl⟩ ?_
  rintro c c' e ⟨hprocs, hruntimes⟩ hloads he
  have hput : ∀ (c : RelayState) a, (∀ j, j ≠ 0 → c.procs j = none) →
      ∀ j, j ≠ 0 → (c.put 0 a).procs j = none :=
    fun c a h j hj => (Config.put_procs_ne c a hj).trans (h j hj)
  cases Protocol.effect_of_next he with
  | issued i x k o next r v runs result =>
    simp only [loadsNothing, runs, Bool.and_eq_true, decide_eq_true_eq] at hloads
    obtain ⟨rfl, hquiet⟩ := hloads
    refine ⟨hput { c with store := v } _ hprocs, (runtimes_of_exec result ?_ ?_).trans hruntimes⟩
    · rintro runtime peer rfl
      simp at hquiet
    · rintro runtime peers rfl
      simp at hquiet
  | returned i x k m done =>
    simp only [loadsNothing, Bool.and_eq_true, decide_eq_true_eq] at hloads
    obtain ⟨rfl, -⟩ := hloads
    exact ⟨hput c _ hprocs, hruntimes⟩
  | spawned i | called i | killed i =>
    obtain rfl : i = 0 := by simpa [loadsNothing] using hloads
    exact ⟨hput c _ hprocs, hruntimes⟩

/-- A peer is about to be revoked, before any relay starts. -/
def coldRun : List (Event Call Choice Nat) :=
  .spawn 0 :: .call 0 (.revoke "old" false) :: works 2

/-- Whether an event is one of the first process, loads no peer and writes no revocation. -/
def coldCheck (e : Event Call Choice Nat) (c : RelayState) : Bool :=
  writesNoRevocation e c && loadsNothing e c

/-- The configuration in which the revocation is written. -/
def coldState : RelayState :=
  (relay samplePrimitives sampleLibraries).endOf coldCheck coldRun (relayStart twoPeers)

lemma coldState_reachable {ok : Event Call Choice Nat → RelayState → Prop}
    (hok : ∀ e c, coldCheck e c = true → ok e c) :
    Reachable (relay samplePrimitives sampleLibraries) ok (relayStart twoPeers) coldState := by
  have hrun : ((relay samplePrimitives sampleLibraries).runIf coldCheck coldRun
      (relayStart twoPeers)).any (fun _ => true) = true := by
    decide +kernel
  exact (reachable_endOf hok .start hrun rfl).1

/-- The configuration after the revocation was written. -/
def revokedState : RelayState :=
  ((relay samplePrimitives sampleLibraries).next (.step 0 .works) coldState).getD coldState

/-- The rest of the run: the revocation is reported, a relay starts, and the other peer sends its
request. -/
def warmRun : List (Event Call Choice Nat) := works 5 ++ serveRun ++ acceptRun

/-- The configuration after the request of the other peer. -/
def warmEnd : RelayState :=
  (relay samplePrimitives sampleLibraries).endOf writesNoRevocation warmRun revokedState

/-- The revocation of the sample run is written while no relay has its key. -/
lemma revokesCold_coldState : RevokesCold sampleLibraries (.step 0 .works) coldState := by
  obtain ⟨hprocs, hruntimes⟩ :=
    nothing_loaded (coldState_reachable fun e c h => (Bool.and_eq_true_iff.mp h).2)
  refine ⟨nofun, ?_, ?_, ?_⟩
  · intro i x k token config key next _ _ runtime keyID peer hlookup
    cases hlookup
  · rintro i x k token config key next heq _ j k' p hj hbusy
    cases heq
    rw [hprocs j hj] at hbusy
    cases hbusy
  · rintro i x k token config key next - - saved hsaved peer hpeer hdecode
    cases hsaved
    have hspelled : ∀ (id origin : String) byte, sampleLibraries.decodeBase64
        (sampleConfigured id origin byte).publicKey = some key →
        (sampleConfigured id origin byte).publicKey = sampleLibraries.encodeBase64 key := by
      intro id origin byte h
      rw [sampleConfigured, sampleLibraries_decode] at h
      rw [sampleConfigured, Option.some.inj h]
    simp only [sampleConfig, RelayConfig.peers, Option.getD_some, List.mem_cons, List.not_mem_nil,
      or_false] at hpeer
    rcases hpeer with rfl | rfl
    · exact hspelled _ _ _ hdecode
    · exact hspelled _ _ _ hdecode

/-- A relay that starts after a revocation acknowledges requests of other peers only. -/
theorem other_peer_acknowledged_after_cold_revocation :
    Reachable (relay samplePrimitives sampleLibraries) (RevokesCold sampleLibraries)
      (relayStart twoPeers) warmEnd ∧
      (warmEnd.store.accepted.map fun entry => (entry.peer.id, entry.revokedBefore)) =
        [("peer", [List.replicate 32 1])] ∧
      ∀ entry ∈ warmEnd.store.accepted, entry.peer.publicKey ∉ entry.revokedBefore := by
  have hcold : Reachable (relay samplePrimitives sampleLibraries) (RevokesCold sampleLibraries)
      (relayStart twoPeers) coldState :=
    coldState_reachable fun e c h =>
      revokesCold_of_writesNoRevocation (Bool.and_eq_true_iff.mp h).1
  have hwrites : ((relay samplePrimitives sampleLibraries).next (.step 0 .works)
      coldState).isSome = true := by
    decide +kernel
  have hsaved : (relay samplePrimitives sampleLibraries).next (.step 0 .works) coldState =
      some revokedState := (Option.getD_of_ne_none (Option.isSome_iff_ne_none.mp hwrites) _).symm
  have hrun : ((relay samplePrimitives sampleLibraries).runIf writesNoRevocation warmRun
      revokedState).any (fun c => (c.store.accepted.map fun entry =>
        (entry.peer.id, entry.revokedBefore)) = [("peer", [List.replicate 32 1])]) = true := by
    decide +kernel
  obtain ⟨hreach, hgood⟩ := reachable_endOf (fun _ _ => revokesCold_of_writesNoRevocation)
    (.next _ hcold revokesCold_coldState hsaved) hrun (rfl : warmEnd = _)
  exact ⟨hreach, of_decide_eq_true hgood,
    no_ack_after_cold_revocation samplePrimitives sampleLibraries sampleLibraries_decode
      sampleRevision_injective twoPeers hreach⟩

end AgentBell.App
