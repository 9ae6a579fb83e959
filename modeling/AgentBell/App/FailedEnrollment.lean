import AgentBell.App.OneTimeCode

/-!
# Enrollments that fail

An enrollment adds its peer to `relay.json`, then uses up the pairing code, and takes the peer
back when the code cannot be used up.  The peer is taken back only if `relay.json` still has the
revision that it had after the peer was added.

The store is extended by the process that added each peer.  A process makes one call, so that a
process stands for a call, and its memory says whether the call was an enrollment that returned
an error.
-/

namespace AgentBell.App.FailedEnrollment

open Interleaving

open Relay (Bytes Primitives PairingClaim)

open RemoteConfig (Libraries RelayConfig PeerChange PeerResult RelayError RelaySnapshot
  applyPeerChange relaySnapshot)

variable {L : Libraries} {x : Choice} {c : Cmd} {r : Reply c} {i j : Nat} {config : RelayConfig}
  {o : Option Cmd} {label : String} {allowed : String → Bool} {values : List String}
  {e : Event Call Choice Nat}

/-! ## Who added a peer -/

/-- The store together with the process that added each peer of `relay.json`. -/
structure Marked where
  store : Store
  authors : String → Option Nat := fun _ => none

/-- The ids of the peers in `relay.json`. -/
def peerIDs : Option RelayConfig → List String
  | none => []
  | some config => config.peers.map RemoteConfig.Peer.id

/-- Who added each peer, after a command that left a store.  A publication adds the peers whose
ids were not in `relay.json` before it. -/
def authorsAfter (s : Marked) (v : Store) : Cmd → String → Option Nat
  | .save token _ _, id =>
    if id ∉ peerIDs v.relay then none
    else if id ∈ peerIDs s.store.relay then s.authors id
    else some token
  | _, id => s.authors id

/-- What a command does. -/
def markedExec (L : Libraries) (x : Choice) (c : Cmd) (s : Marked) : Option (Reply c × Marked) :=
  (exec L x c s.store).map fun result => (result.1, ⟨result.2, authorsAfter s result.2 c⟩)

/-- The machine of the relays that records who added each peer. -/
def markedMachine (L : Libraries) : Machine Cmd Reply Marked Choice := ⟨markedExec L⟩

/-- What a process remembers: whether it has made its call, and whether the call was an
enrollment that returned an error. -/
structure Caller where
  called : Bool := false
  failed : Bool := false
  deriving DecidableEq, Repr

/-- The program of a call. -/
def callerBody (P : Primitives) (L : Libraries) (process : Nat) : Call → Caller → RelayProg Caller
  | .enroll runtime expected request, _ => do
    match ← enroll P L process runtime expected request with
    | .error _ => return ⟨true, true⟩
    | .ok _ => return ⟨true, false⟩
  | k, _ => do
    body P L process k ()
    return ⟨true, false⟩

/-- Any number of calls around one `relay.json`, one for each process. -/
def enrollments (P : Primitives) (L : Libraries) :
    Protocol Cmd Reply Marked Choice Call Caller Nat where
  machine := markedMachine L
  may := fun _ _ m _ => !m.called
  body := callerBody P L
  fresh := {}

/-- A configuration of these processes. -/
abbrev State := Config Cmd Reply Marked Call Caller Nat

/-- Whether a process made an enrollment that returned an error. -/
def hasFailed (c : State) (i : Nat) : Bool :=
  match c.procs i with
  | some (.idle m) => m.failed
  | _ => false

/-- A given `relay.json`, or none, before any process makes its call. -/
def callersStart (initial : Option RelayConfig) : State :=
  { store := { store := { relay := initial } }, procs := fun _ => some (.idle {}) }

/-! ## When nothing comes between -/

/-- A peer that the process added is in `relay.json`. -/
def Adds (i : Nat) (s : Marked) : Prop :=
  ∃ id ∈ peerIDs s.store.relay, s.authors id = some i

/-- Whether a command publishes `relay.json`. -/
def publishes : Cmd → Bool
  | .save _ _ _ => true
  | _ => false

/-- The process that takes the lock, reads `relay.json` under it or publishes it. -/
def actor : Cmd → Option Nat
  | .acquire token => some token
  | .load token => token
  | .save token _ _ => some token
  | _ => none

/-- No publication fails after it took effect, and no process fails to take the lock, to read or to
publish `relay.json` while a peer that it added is there. -/
def reliable (x : Choice) (c : Cmd) (s : Marked) : Prop :=
  (x = .failsAfter → publishes c = false) ∧
    ∀ i, actor c = some i → Adds i s → x ≠ .failsBefore ∧ x ≠ .failsAfter

/-- What has to hold at an event: its step is reliable, the lock is not taken over from a process
inside a transaction, and nobody publishes `relay.json` while another process is still in the call
that added a peer. -/
structure Undisturbed (e : Event Call Choice Nat) (c : State) : Prop where
  known : ∀ i, e ≠ .spawn i
  works : ∀ i x k o next, e = .step i x → c.procs i = some (.busy k (.cmd o next)) →
    reliable x o c.store
  lock : ∀ i j k p d, e = .step i .takesOver → c.store.store.holder = some j →
    c.procs j = some (.busy k p) → p.head = some d → d.locked = false
  alone : ∀ i x k token config revokes next, e = .step i x →
    c.procs i = some (.busy k (.cmd (.save token config revokes) next)) →
    ∀ j k' p, j ≠ i → c.procs j = some (.busy k' p) → ¬ Adds j c.store

/-- The machine with reliable steps. -/
noncomputable def steadyMachine (L : Libraries) : Machine Cmd Reply Marked Choice :=
  (markedMachine L).guard reliable

/-- A publication carries the token of the process. -/
def ByToken (i : Nat) : Cmd → Prop
  | .save token _ _ => token = i
  | _ => True

/-- The store after a process published a configuration. -/
def Marked.publish (s : Marked) (i : Nat) (config : RelayConfig) (revokes : Option Bytes) :
    Marked where
  store := s.store.publish config revokes
  authors := authorsAfter s (s.store.publish config revokes) (.save i config revokes)

/-- Who added each peer, after a publication. -/
lemma authors_publish (s : Marked) (i : Nat) (config : RelayConfig) (revokes : Option Bytes)
    (id : String) : (s.publish i config revokes).authors id =
      if id ∉ config.peers.map RemoteConfig.Peer.id then none
      else if id ∈ peerIDs s.store.relay then s.authors id
      else some i := rfl

variable {s v : Marked}

/-- What a step does. -/
lemma exec_of_steady (h : (steadyMachine L).exec x c s = some (r, v)) :
    reliable x c s ∧ ∃ w, exec L x c s.store = some (r, w) ∧ v = ⟨w, authorsAfter s w c⟩ := by
  obtain ⟨hworks, hexec⟩ := Machine.guard_exec.mp h
  obtain ⟨⟨r', w⟩, hw, heq⟩ := Option.map_eq_some_iff.mp hexec
  cases heq
  exact ⟨hworks, w, hw, rfl⟩

/-- A command that does not publish keeps `relay.json` and who added its peers. -/
lemma frame_of_steady (hc : publishes c = false) (h : (steadyMachine L).exec x c s = some (r, v)) :
    ∃ w, exec L x c s.store = some (r, w) ∧ v = { s with store := w } ∧
      w.relay = s.store.relay := by
  obtain ⟨-, w, hexec, rfl⟩ := exec_of_steady h
  have hauthors : authorsAfter s w c = s.authors := by
    cases c with
    | save token config revokes => cases hc
    | _ => rfl
  have hrelay : w.relay = s.store.relay := by
    cases storeEffect_of_exec hexec with
    | published token config revokes => cases hc
    | _ => rfl
  exact ⟨w, hexec, by rw [hauthors], hrelay⟩

/-- A publication that is reported took effect. -/
lemma publish_of_steady {revokes : Option Bytes}
    (h : (steadyMachine L).exec x (.save i config revokes) s = some (true, v)) :
    v = s.publish i config revokes := by
  obtain ⟨-, w, hexec, rfl⟩ := exec_of_steady h
  cases x <;> cases hexec
  rfl

/-- A command that leaves `relay.json` alone adds no peer in anyone's name. -/
lemma adds_of_steady (h : (steadyMachine L).exec x c s = some (r, v))
    (hrelay : v.store.relay = s.store.relay) (hadds : Adds i v) : Adds i s := by
  obtain ⟨-, w, -, rfl⟩ := exec_of_steady h
  obtain ⟨id, hmem, hid⟩ := hadds
  have hold : id ∈ peerIDs s.store.relay := hrelay ▸ hmem
  refine ⟨id, hold, ?_⟩
  cases c with
  | save => simpa [authorsAfter, hmem, hold] using hid
  | _ => exact hid

/-! ## The contract of a process -/

/-- What a process expects of the others before its next command: they leave its lock alone,
they change nothing while a peer that it added is there, and they add no peer in its name. -/
structure Spared (i : Nat) (o : Option Cmd) (s t : Marked) : Prop where
  lock : LockKept i o s.store t.store
  mine : Adds i s → t.store.relay = s.store.relay ∧ t.authors = s.authors
  others : Adds i t → Adds i s

lemma Spared.refl (i : Nat) (o : Option Cmd) (s : Marked) : Spared i o s s :=
  ⟨LockKept.refl i o s.store, fun _ => ⟨rfl, rfl⟩, id⟩

lemma Spared.trans {t : Marked} (hst : Spared i o s t) (htv : Spared i o t v) : Spared i o s v := by
  refine ⟨hst.lock.trans htv.lock, ?_, fun h => hst.others (htv.others h)⟩
  intro hs
  obtain ⟨hrelay, hauthors⟩ := hst.mine hs
  have ht : Adds i t := by
    obtain ⟨id, hmem, hid⟩ := hs
    exact ⟨id, by rwa [hrelay], by rwa [hauthors]⟩
  obtain ⟨hrelay', hauthors'⟩ := htv.mine ht
  exact ⟨hrelay'.trans hrelay, hauthors'.trans hauthors⟩

/-- A process that has not made its call, or whose enrollment failed, has no peer in
`relay.json`. -/
def LeftNothing (i : Nat) (m : Caller) (s : Marked) : Prop :=
  m.called = false ∨ m.failed = true → ¬ Adds i s

/-- The contract of a process. -/
def contract (i : Nat) : Contract Cmd Marked Call Caller where
  rest := fun s t => Adds i t → Adds i s
  rely := fun _ => Spared i
  pre := fun _ c s => c.Owned i s.store ∧ ByToken i c
  idle := LeftNothing i
  done := fun _ => LeftNothing i

lemma contract_lawful (i : Nat) : (contract i).Lawful where
  rely_refl := fun _ => Spared.refl i
  rely_trans := fun _ _ _ _ _ => Spared.trans
  rest_refl := fun _ => id
  idle_of_done := fun _ _ _ h => h
  idle_stable := fun _ _ _ hs hst hm hadds => hs hm (hst hadds)

/-- A command of one process adds no peer in the name of another. -/
lemma others_of_exec (hij : j ≠ i) (htoken : ByToken i c)
    (h : (steadyMachine L).exec x c s = some (r, v)) (hadds : Adds j v) : Adds j s := by
  cases hc : publishes c with
  | false =>
    obtain ⟨w, -, rfl, hrelay⟩ := frame_of_steady hc h
    exact adds_of_steady h hrelay hadds
  | true =>
    obtain ⟨-, w, -, rfl⟩ := exec_of_steady h
    obtain ⟨id, hmem, hid⟩ := hadds
    cases c with
    | save token config revokes =>
      obtain rfl : token = i := htoken
      simp only [authorsAfter] at hid
      split at hid
      · cases hid
      · split at hid
        · rename_i hbefore
          exact ⟨id, hbefore, hid⟩
        · exact absurd (Option.some.inj hid).symm hij
    | _ => cases hc

/-- The whole of what a command of one process does to another that is in a call. -/
lemma spared_of_exec (hij : j ≠ i)
    (hlock : x = .takesOver → s.store.holder = some j → ∀ d, o = some d → d.locked = false)
    (halone : publishes c = true → ¬ Adds j s) (howned : c.Owned i s.store) (htoken : ByToken i c)
    (h : (steadyMachine L).exec x c s = some (r, v)) : Spared j o s v := by
  have hlocked : LockKept j o s.store v.store := by
    obtain ⟨-, w, hexec, rfl⟩ := exec_of_steady h
    exact lockKept_of_command hij hlock howned hexec
  refine ⟨hlocked, ?_, others_of_exec hij htoken h⟩
  intro hadds
  cases hc : publishes c with
  | true => exact absurd hadds (halone hc)
  | false =>
    obtain ⟨w, -, rfl, hrelay⟩ := frame_of_steady hc h
    exact ⟨hrelay, rfl⟩

/-! ## Assertions of a process -/

/-- An assertion about `relay.json` and who added its peers, which the others keep. -/
structure Stays (i : Nat) (A : Marked → Prop) : Prop where
  stable : ∀ o s t, A s → Spared i o s t → A t
  frame : ∀ s w, w.relay = s.store.relay → A s → A { s with store := w }

/-- No peer of `relay.json` was added by the process. -/
def Clean (i : Nat) (s : Marked) : Prop := ¬ Adds i s

/-- `relay.json` is as given, and has one peer that was added by the process. -/
structure Added (i : Nat) (peerID : String) (config : RelayConfig) (s : Marked) : Prop where
  relay : s.store.relay = some config
  member : peerID ∈ config.peers.map RemoteConfig.Peer.id
  author : s.authors peerID = some i
  only : ∀ id ∈ config.peers.map RemoteConfig.Peer.id, s.authors id = some i → id = peerID

/-- The added peer is in `relay.json`. -/
lemma Added.adds {peerID : String} (h : Added i peerID config s) : Adds i s := by
  refine ⟨peerID, ?_, h.author⟩
  rw [h.relay]
  exact h.member

lemma stays_clean (i : Nat) : Stays i (Clean i) where
  stable := fun _ _ _ hs hst hadds => hs (hst.others hadds)
  frame := by
    intro s w hw hs hadds
    obtain ⟨id, hmem, hid⟩ := hadds
    rw [hw] at hmem
    exact hs ⟨id, hmem, hid⟩

lemma stays_added (i : Nat) (peerID : String) (config : RelayConfig) :
    Stays i (Added i peerID config) where
  stable := by
    intro o s t hs hst
    obtain ⟨hrelay, hauthors⟩ := hst.mine hs.adds
    refine ⟨hrelay.trans hs.relay, hs.member, ?_, ?_⟩
    · rw [hauthors]
      exact hs.author
    · rw [hauthors]
      exact hs.only
  frame := fun _ _ hw h => ⟨hw.trans h.relay, h.member, h.author, h.only⟩

/-- A process among the others. -/
noncomputable abbrev steadySide (L : Libraries) (i : Nat) : Side Marked :=
  ⟨steadyMachine L, Spared i, fun c s => c.Owned i s.store ∧ ByToken i c⟩

/-- A call is safe, as the contract of its process asks. -/
abbrev EnrollSafe (L : Libraries) (i : Nat) {α : Type} (post : α → Marked → Prop)
    (p : RelayProg α) (s : Marked) : Prop :=
  (steadySide L i).Safe post p s

/-- A process among the others, as far as it concerns the store alone. -/
abbrev storeSide (L : Libraries) (i : Nat) : Side Store :=
  ⟨machine L, LockKept i, fun c s => c.Owned i s ∧ ByToken i c⟩

section Programs

variable {L : Libraries} {i : Nat} {A : Marked → Prop} {c : Cmd} {s : Marked} {α : Type}
  {post : α → Marked → Prop}

/-- A command that does not publish keeps such an assertion. -/
lemma Stays.exec (hA : Stays i A) {x : Choice} {v : Marked} {r : Reply c} (hc : publishes c = false)
    (hs : A s) (h : (steadyMachine L).exec x c s = some (r, v)) : A v := by
  obtain ⟨w, -, rfl, hrelay⟩ := frame_of_steady hc h
  exact hA.frame s w hrelay hs

/-- Returning under such an assertion. -/
lemma safe_return (hA : Stays i A) {a : α} (hs : A s) (hpost : ∀ t, A t → post a t) :
    EnrollSafe L i post (Prog.ret a) s :=
  safe_ret_of_stable hs (hA.stable none) hpost

/-- A program of the pairing store keeps such an assertion. -/
lemma safe_pairings (hA : Stays i A) (p : Relay.PairingProg α) (hs : A s) :
    EnrollSafe L i (fun _ t => A t) (onPairings p) s := by
  have hp : p.Within fun _ => True := Prog.within_of_forall fun _ => trivial
  refine Safe.of_comap (hp.safe (fun o => hA.stable _) (fun _ _ _ _ => ⟨trivial, trivial⟩) ?_ hs)
  intro x c t r v _ ht hx
  obtain ⟨⟨r', v'⟩, hexec, heq⟩ := Option.map_eq_some_iff.mp hx
  cases heq
  exact hA.exec rfl ht hexec

/-- What is shown over the store alone holds with the authors, too. -/
lemma safe_of_store {post : α → Store → Prop} {p : RelayProg α}
    (hp : Safe (machine L) (LockKept i) (fun c s => c.Owned i s ∧ ByToken i c) post p s.store) :
    Safe (steadyMachine L) (Spared i) (fun c s => c.Owned i s.store ∧ ByToken i c)
      (fun a t => post a t.store) p s := by
  refine Safe.project ?_ (fun _ _ _ h => h.lock) hp
  intro x c t r v hx
  obtain ⟨-, w, hexec, rfl⟩ := exec_of_steady hx
  exact ⟨x, hexec⟩

/-- The transactions over the store alone. -/
lemma store_discipline : Discipline L (storeSide L i) i where
  sub := fun _ _ _ _ _ h => h
  locks := fun _ _ _ _ _ => holder_of_exec
  refl := LockKept.refl i
  lock := fun _ _ _ h => h
  allowed := fun c _ hc h => ⟨h, by cases c <;> trivial⟩

lemma kept_true : Kept (LockKept i) fun _ => True :=
  ⟨fun _ _ _ _ _ => trivial, fun _ _ _ => trivial⟩

end Programs

/-! ## Transactions that do not fail -/

instance : Relays Marked :=
  ⟨Marked.store, fun s holder => { s with store := { s.store with holder := holder } },
    fun _ => rfl⟩

section Steady

variable {L : Libraries} {i : Nat} {s : Marked} {change : PeerChange} {A : Marked → Prop}
  {B : PeerResult → Marked → Prop}

lemma Stays.kept (hA : Stays i A) : Kept (Spared i) A :=
  ⟨hA.stable, fun s _ hs => hA.frame s _ rfl hs⟩

lemma Stays.sustained (hA : Stays i A) : Sustained (steadySide L i) A :=
  ⟨hA.kept, fun _ hs => safe_pairings hA _ hs⟩

lemma steady_discipline : Discipline L (steadySide L i) i where
  sub := by
    intro x c s r v h
    obtain ⟨-, w, hexec, rfl⟩ := exec_of_steady h
    exact hexec
  locks := by
    intro x c s r v hc h
    have hquiet : publishes c = false := by
      cases c with
      | save => cases hc
      | _ => rfl
    obtain ⟨w, hexec, rfl, -⟩ := frame_of_steady hquiet h
    exact congrArg (fun w => { s with store := w }) (holder_of_exec hc hexec)
  refl := Spared.refl i
  lock := fun _ _ _ h => h.lock
  allowed := fun c _ hc h => ⟨h, by cases c <;> trivial⟩

/-- A process whose peer is there takes the lock. -/
lemma acquire_of_steady {r : Bool} (hadds : Adds i s)
    (h : (steadyMachine L).exec x (.acquire i) s = some (r, v)) : r = true := by
  obtain ⟨hworks, w, hexec, -⟩ := exec_of_steady h
  cases x with
  | works | takesOver =>
    simp only [exec] at hexec
    split at hexec <;> cases hexec
    rfl
  | failsBefore => exact absurd rfl (hworks.2 i rfl hadds).1
  | failsAfter => exact absurd rfl (hworks.2 i rfl hadds).2
  | _ => cases hexec

/-- A process whose peer is there reads a configuration that passes its check. -/
lemma read_of_steady {r : Except RelayError RelayConfig} (hadds : Adds i s)
    (h : (steadyMachine L).exec x (.load (some i)) s = some (r, v))
    (hrelay : s.store.relay = some config) (hvalid : config.validate L = .ok ()) :
    r = .ok config := by
  obtain ⟨hworks, w, hexec, -⟩ := exec_of_steady h
  cases x with
  | works =>
    cases hexec
    simp only [loadRelay, hrelay, hvalid]
  | failsBefore => exact absurd rfl (hworks.2 i rfl hadds).1
  | _ => cases hexec

/-- A publication that is not reported was not made, and no peer of the process is there. -/
lemma unsaved_of_steady {revokes : Option Bytes}
    (h : (steadyMachine L).exec x (.save i config revokes) s = some (false, v)) : Clean i v := by
  obtain ⟨hworks, w, hexec, rfl⟩ := exec_of_steady h
  cases x with
  | works => cases hexec
  | failsBefore =>
    cases hexec
    exact fun hadds => (hworks.2 i rfl (adds_of_steady h rfl hadds)).1 rfl
  | failsAfter => exact Bool.noConfusion (hworks.1 rfl)
  | _ => cases hexec

/-- The rules under which a change is applied when the steps are reliable: `A` before it, `B` after
it was published, and no peer of the process when it is not applied.  While a peer of the process
is there, the change has to fit. -/
lemma steady_rules (hshown : change.dryRun = false) (hA : Stays i A)
    (hB : ∀ result, Stays i (B result))
    (hfits : ∀ s, A s → Adds i s → ∃ config result, s.store.relay = some config ∧
      config.validate L = .ok () ∧
      applyPeerChange L (relaySnapshot L config) change = .ok result)
    (hpublished : ∀ config result s, A s → s.store.relay = some config →
      applyPeerChange L (relaySnapshot L config) change = .ok result →
      B result (s.publish i result.after.config (revokedKey L change config))) :
    TransactionRules L (steadySide L i) i change A (Clean i) fun _ => B where
  before := hA.kept
  after := fun _ result => (hB result).kept
  failed := (stays_clean i).kept
  allowed := fun _ _ _ h => ⟨h.inside.2.1, rfl⟩
  published := by
    intro config result s x v h hx
    obtain rfl := publish_of_steady hx
    exact hpublished config result s h.inside.1 h.inside.2.2 h.changed
  unlocked := by
    intro s x v _ hx hadds
    obtain ⟨w, -, rfl, hrelay⟩ := frame_of_steady rfl hx
    exact nomatch acquire_of_steady (adds_of_steady hx hrelay hadds) hx
  unread := by
    intro token s x err htoken hs hx hadds
    obtain ⟨config, result, hrelay, hvalid, -⟩ := hfits s hs hadds
    rcases htoken with rfl | hdry
    · exact nomatch read_of_steady hadds hx hrelay hvalid
    · rw [hshown] at hdry
      cases hdry
  refused := by
    intro config s err hs hrelay hresult hadds
    obtain ⟨other, result, hother, -, hok⟩ := hfits s hs hadds
    obtain rfl : config = other := Option.mem_unique hrelay hother
    rw [hresult] at hok
    cases hok
  unsaved := fun _ _ _ _ _ _ hx => unsaved_of_steady hx
  unchecked := fun _ _ _ _ _ hin hresult hx hadds =>
    nomatch read_of_steady hadds hx hin.2.2 (RemoteConfig.changed_of_applyPeerChange hresult).2

end Steady

/-! ## Adding a peer and taking it back -/

/-- The characters of an identity are those of an identifier. -/
lemma isIdentifierChar_of_identity {c : Char}
    (h : (c.isLower || c.isDigit || c = '_' || c = '-') = true) :
    Relay.isIdentifierChar c = true := by
  simp only [Bool.or_eq_true, decide_eq_true_eq] at h
  simp only [Relay.isIdentifierChar, Char.isAlphanum]
  delta Char.isAlpha
  simp only [Bool.or_eq_true]
  rcases h with ((h | h) | rfl) | rfl
  · exact .inl (.inl (.inr h))
  · exact .inl (.inr h)
  · exact .inr (by decide)
  · exact .inr (by decide)

/-- An identity is an identifier. -/
lemma isIdentifier_of_isIdentity {text : String} (h : RemoteConfig.isIdentity text = true) :
    Relay.isIdentifier text = true := by
  unfold RemoteConfig.isIdentity at h
  unfold Relay.isIdentifier
  cases hchars : text.toList with
  | nil =>
    rw [hchars] at h
    cases h
  | cons first rest =>
    rw [hchars] at h
    simp only [Bool.and_eq_true, decide_eq_true_eq] at h ⊢
    obtain ⟨⟨hfirst, hlength⟩, hrest⟩ := h
    refine ⟨⟨?_, by omega⟩, ?_⟩
    · delta Char.isAlphanum Char.isAlpha
      simp [hfirst]
    · rw [List.all_eq_true] at hrest ⊢
      intro c hc
      exact isIdentifierChar_of_identity (hrest c hc)

/-- The values of a list that passed its check are all allowed. -/
lemma allowed_of_validateDistinct {seen : List String}
    (h : validateDistinct label allowed seen values = .ok ()) :
    ∀ value ∈ values, allowed value = true := by
  induction values generalizing seen with
  | nil => nofun
  | cons first rest ih =>
    simp only [validateDistinct, bind_eq_ok, failIf_eq_ok, exists_const, not_not] at h
    obtain ⟨hfirst, -, hrest⟩ := h
    intro value hvalue
    rcases List.mem_cons.mp hvalue with rfl | hmem
    · exact hfirst
    · exact ih hrest value hmem

/-- A list that passed its check has values, and all of them are allowed. -/
lemma of_validateValues (h : validateValues label values allowed = .ok ()) :
    values ≠ [] ∧ ∀ value ∈ values, allowed value = true := by
  simp only [validateValues, bind_eq_ok, failIf_eq_ok, exists_const] at h
  exact ⟨h.1, allowed_of_validateDistinct h.2⟩

/-- Values that pass a check one by one pass it together. -/
lemma validateEach_of_forall {check : String → Except String Unit}
    (h : ∀ value ∈ values, check value = .ok ()) : Relay.validateEach check values = .ok () := by
  induction values with
  | nil => rfl
  | cons first rest ih =>
    rw [Relay.validateEach, h first List.mem_cons_self]
    exact ih fun value hvalue => h value (List.mem_cons_of_mem _ hvalue)

/-- A configured peer that passed its check can be put into the map of a relay. -/
lemma configuredRelayPeer_of_validate {configured : RemoteConfig.Peer}
    (h : configured.validate L = .ok ()) : ∃ peer, configuredRelayPeer L configured = .ok peer := by
  simp only [RemoteConfig.Peer.validate, RemoteConfig.validateIdentity,
    RemoteConfig.validateUniqueStrings, bind_eq_ok, failIf_eq_ok, exists_const, not_not] at h
  obtain ⟨hid, -, hteam, horigin, hkey, u, hscopes, w, hsources, hruntimes⟩ := h
  obtain ⟨key, hdecode, hlength⟩ := Option.map_eq_some_iff.mp hkey
  obtain ⟨hscopesNe, hscopesAll⟩ := of_validateValues hscopes
  obtain ⟨hsourcesNe, hsourcesAll⟩ := of_validateValues hsources
  obtain ⟨hruntimesNe, hruntimesAll⟩ := of_validateValues hruntimes
  have hscope : Relay.validateEach (fun scope =>
      failIf (scope ≠ "ingest") ("unsupported relay peer scope " ++ quoted scope))
      configured.scopes = .ok () := by
    refine validateEach_of_forall fun scope hmem => ?_
    have heq := of_decide_eq_true (hscopesAll scope hmem)
    simp [heq]
  have hingest : Relay.validateEach (Relay.validateIdentifier "peer scope")
      (configured.scopes.map fun _ => Relay.scopeIngest) = .ok () := by
    refine validateEach_of_forall fun scope hmem => ?_
    obtain ⟨-, -, rfl⟩ := List.mem_map.mp hmem
    decide
  have hsource : Relay.validateEach (fun source => if Event.isKnownSource source then .ok ()
      else .error ("relay peer has unsupported source " ++ quoted source))
      configured.allowedSources = .ok () :=
    validateEach_of_forall fun source hmem => if_pos (hsourcesAll source hmem)
  have hruntime : Relay.validateEach (fun runtime => if Event.isKnownRuntime runtime then .ok ()
      else .error ("relay peer has unsupported runtime " ++ quoted runtime))
      configured.allowedRuntimes = .ok () :=
    validateEach_of_forall fun runtime hmem => if_pos (hruntimesAll runtime hmem)
  refine ⟨⟨configured.id, configured.teamID, configured.originID, key,
    configured.scopes.map fun _ => Relay.scopeIngest, configured.allowedSources,
    configured.allowedRuntimes, configured.revoked⟩, ?_⟩
  simp only [configuredRelayPeer, hdecode, Relay.Peer.validate, Relay.validateIdentifier,
    isIdentifier_of_isIdentity hid, isIdentifier_of_isIdentity hteam,
    isIdentifier_of_isIdentity horigin, if_true, bind_eq_ok, failIf_eq_ok, exists_const,
    true_and]
  refine ⟨not_not.mpr hlength, (), hscope, (), ⟨not_not.mpr hlength, ?_, (), hingest, ?_, (),
    hsource, hruntime⟩, rfl⟩
  · rw [List.map_eq_nil_iff]
    exact hscopesNe
  · rw [not_or]
    exact ⟨hsourcesNe, hruntimesNe⟩

section Enroll

variable {L : Libraries} {i : Nat} {peer : RemoteConfig.Peer} {α : Type} {s : Marked}

/-- What is known of a peer that was added, with the result of adding it. -/
structure Addition (L : Libraries) (peer : RemoteConfig.Peer) (result : PeerResult) : Prop where
  valid : peer.validate L = .ok ()
  config : result.after.config.validate L = .ok ()
  revision : result.after.revision = L.revision result.after.config
  member : peer.id ∈ result.after.config.peers.map RemoteConfig.Peer.id

/-- Adding a peer gives a checked configuration with the peer, whose id was not there before. -/
lemma addition_of_applyPeerChange {config : RelayConfig} {result : PeerResult}
    (h : applyPeerChange L (relaySnapshot L config) (addChange peer) = .ok result) :
    Addition L peer result ∧ result.after.config.peers = config.peers ++ [peer] ∧
      peer.id ∉ config.peers.map RemoteConfig.Peer.id := by
  obtain ⟨hchanged, hvalid⟩ := RemoteConfig.changed_of_applyPeerChange h
  have hadded : result.after.config.peers = config.peers ++ [peer] ∧ peer.validate L = .ok () := by
    generalize hpeers : result.after.config.peers = peers at hchanged
    cases hchanged with
    | added other _ given valid =>
      obtain rfl : peer = other := Option.some.inj given
      exact ⟨rfl, valid⟩
    | revoked _ _ _ action => cases action
    | removed action => cases action
  have hnodup := RemoteConfig.nodup_ids hvalid
  rw [hadded.1, List.map_append, List.nodup_append] at hnodup
  have hnew : peer.id ∉ config.peers.map RemoteConfig.Peer.id := by
    intro hmem
    exact hnodup.2.2 peer.id hmem peer.id (List.mem_singleton.mpr rfl) rfl
  refine ⟨⟨hadded.2, hvalid, ?_, ?_⟩, hadded.1, hnew⟩
  · rw [(after_of_applyPeerChange h).2]
    rfl
  · rw [hadded.1]
    exact List.mem_map.mpr ⟨peer, List.mem_append_right _ (List.mem_singleton.mpr rfl), rfl⟩

/-- Adding the peer of an enrollment. -/
lemma add_rules (peer : RemoteConfig.Peer) :
    TransactionRules L (steadySide L i) i (addChange peer) (Clean i) (Clean i)
      fun _ result => Added i peer.id result.after.config := by
  refine steady_rules rfl (stays_clean i)
    (fun result => stays_added i peer.id result.after.config) (fun _ hs h => absurd h hs) ?_
  intro config result s hs hrelay hresult
  obtain ⟨haddition, hpeers, hnew⟩ := addition_of_applyPeerChange hresult
  have hbefore : peerIDs s.store.relay = config.peers.map RemoteConfig.Peer.id := by
    rw [hrelay]
    rfl
  refine ⟨rfl, haddition.member, ?_, ?_⟩
  · rw [authors_publish, if_neg (not_not.mpr haddition.member), hbefore, if_neg hnew]
  · intro id hmem hid
    rw [authors_publish, if_neg (not_not.mpr hmem)] at hid
    split at hid
    · rename_i hold
      exact absurd ⟨id, hold, hid⟩ hs
    · rename_i hnotBefore
      rw [hbefore] at hnotBefore
      rw [hpeers, List.map_append, List.mem_append] at hmem
      exact List.mem_singleton.mp (hmem.resolve_left hnotBefore)

/-- Taking the peer of an enrollment back. -/
lemma remove_rules (hrevision : ∀ config, L.revision config ≠ "") {added : PeerResult}
    (haddition : Addition L peer added) :
    TransactionRules L (steadySide L i) i (removeChange peer.id added)
      (Added i peer.id added.after.config) (Clean i) fun _ _ => Clean i := by
  have hidentity : RemoteConfig.isIdentity peer.id = true := by
    have hpeer := haddition.valid
    simp only [RemoteConfig.Peer.validate, RemoteConfig.validateIdentity, bind_eq_ok,
      failIf_eq_ok, exists_const, not_not] at hpeer
    exact hpeer.1
  obtain ⟨removed, hremoved, hpeers⟩ := RemoteConfig.applyPeerChange_remove haddition.config
    hidentity haddition.member (hrevision added.after.config)
  rw [← haddition.revision] at hremoved
  refine steady_rules rfl (stays_added i peer.id added.after.config) (fun _ => stays_clean i) ?_ ?_
  · exact fun s hs _ => ⟨added.after.config, removed, hs.relay, haddition.config, hremoved⟩
  · intro config result s hs hrelay hresult hadds
    obtain rfl : added.after.config = config := Option.mem_unique hs.relay hrelay
    obtain rfl : removed = result := Except.ok.inj (hremoved.symm.trans hresult)
    obtain ⟨id, hmem, hid⟩ := hadds
    have hafter : id ∈ removed.after.config.peers.map RemoteConfig.Peer.id := hmem
    rw [authors_publish, if_neg (not_not.mpr hafter)] at hid
    rw [hpeers] at hafter
    obtain ⟨kept, hkept, rfl⟩ := List.mem_map.mp hafter
    obtain ⟨hold, hother⟩ := List.mem_filter.mp hkept
    have hbefore : kept.id ∈ added.after.config.peers.map RemoteConfig.Peer.id :=
      List.mem_map.mpr ⟨kept, hold, rfl⟩
    have hin : kept.id ∈ peerIDs s.store.relay := by
      rw [hrelay]
      exact hbefore
    rw [if_pos hin] at hid
    exact absurd (hs.only kept.id hbefore hid) (of_decide_eq_true hother)

/-! ## Enrollments -/

/-- What is known when the code is about to be used up: the peer was added by this call, or the
call added none. -/
def ReadyToCommit (i : Nat) (configured : RemoteConfig.Peer) : Option PeerResult → Marked → Prop
  | none, s => Clean i s
  | some added, s => Added i configured.id added.after.config s

lemma stays_readyToCommit (configured : RemoteConfig.Peer) (added : Option PeerResult) :
    Stays i (ReadyToCommit i configured added) := by
  cases added with
  | none => exact stays_clean i
  | some added => exact stays_added i configured.id added.after.config

/-- Removing the peer again. -/
lemma safe_compensate (hrevision : ∀ config, L.revision config ≠ "")
    (configured : RemoteConfig.Peer) {added : Option PeerResult}
    (hadded : AddedBy L configured added) (hs : ReadyToCommit i configured added s) :
    EnrollSafe L i (fun _ t => Clean i t) (compensate L i configured added) s := by
  cases added with
  | none => exact safe_return (stays_clean i) hs fun _ ht => ht
  | some added =>
    obtain ⟨config, hresult⟩ := hadded added rfl
    have haddition := (addition_of_applyPeerChange hresult).1
    refine Safe.bind (Spared.refl i)
      (safe_transaction steady_discipline (remove_rules hrevision haddition) hs) ?_
    intro result t ht
    have hclean : Clean i t := by
      cases result with
      | error err => exact ht
      | ok result => exact ht.choose_spec.2.2
    exact safe_return (stays_clean i) hclean fun _ hu => hu

/-- The rules under which a peer is enrolled: an error leaves nothing behind. -/
lemma enrollRules (hrevision : ∀ config, L.revision config ≠ "") (P : Primitives)
    (request : PairEnrollmentRequest) :
    EnrollRules P L (steadySide L i) i request (Clean i) (fun _ => True) (fun _ => Clean i)
      fun claim => ReadyToCommit i (enrolledPeer L claim request) where
  idle := (stays_clean i).sustained
  ready := fun _ added => (stays_readyToCommit _ added).sustained
  done := ⟨fun _ _ _ _ _ => trivial, fun _ _ _ => trivial⟩
  claims := fun now s hs => (safe_pairings (stays_clean i) _ hs).weaken (fun _ _ h => h)
    fun _ _ h => ⟨h, fun _ _ => h⟩
  add := fun claim => add_rules (enrolledPeer L claim request)
  listed := fun _ _ _ hs _ _ => hs
  compensates := fun _ _ _ hadded hs => safe_compensate hrevision _ hadded hs
  unusable := by
    intro claim added message s hadded hpeer hs
    cases added with
    | none => exact hs
    | some added =>
      obtain ⟨config, hresult⟩ := hadded added rfl
      obtain ⟨peer, hok⟩ :=
        configuredRelayPeer_of_validate (addition_of_applyPeerChange hresult).1.valid
      rw [hpeer] at hok
      cases hok
  usable := fun _ _ _ _ _ _ _ => ⟨⟨trivial, trivial⟩, fun _ _ _ _ => trivial⟩

/-- What is allowed of a command, as far as it concerns the store alone. -/
abbrev StoreSafe (L : Libraries) (i : Nat) {α : Type} (p : RelayProg α) (s : Store) : Prop :=
  (storeSide L i).Safe (fun _ _ => True) p s

lemma storeSafe_of_plain {p : RelayProg α} (hp : p.Within Cmd.plain) (s : Store) :
    StoreSafe L i p s := by
  refine hp.safe (fun _ _ _ _ _ => trivial) ?_ (fun _ _ _ _ _ _ _ _ => trivial) trivial
  intro c t hc _
  cases c with
  | save | removeLock => cases hc
  | _ => exact ⟨trivial, trivial⟩

lemma storeSafe_revoke (peerID : String) (dryRun : Bool) (s : Store) :
    StoreSafe L i (revoke L i peerID dryRun) s := by
  have hrules : ChangeRules L (storeSide L i) i (revokeChange peerID dryRun) (fun _ => True)
      (fun _ => True) (fun _ _ _ => True) :=
    { before := kept_true
      after := fun _ _ => kept_true
      either := kept_true
      of_before := fun _ _ => trivial
      of_after := fun _ _ _ _ => trivial
      allowed := fun _ _ _ h => ⟨h.inside.2.1, rfl⟩
      published := fun _ _ _ _ _ _ _ _ _ => trivial }
  refine Safe.bind (LockKept.refl i) (safe_apply store_discipline hrules trivial) ?_
  intro result t _
  refine storeSafe_of_plain ?_ t
  cases result with
  | error err => trivial
  | ok result =>
    simp only
    split
    · exact Prog.within_issue trivial fun _ => trivial
    · trivial

/-- The other calls publish in their own name, inside their own transactions. -/
lemma safe_body (P : Primitives) (k : Call)
    (hk : ∀ runtime expected request, k ≠ .enroll runtime expected request) (s : Marked) :
    EnrollSafe L i (fun _ _ => True) (body P L i k ()) s := by
  have hend : ∀ {α : Type} {p : RelayProg α}, StoreSafe L i p s.store →
      StoreSafe L i (p.bind fun _ => Prog.ret ()) s.store := by
    intro α p hp
    exact Safe.bind (LockKept.refl i) hp fun _ _ _ => safe_ret fun _ _ => trivial
  have hstore : StoreSafe L i (body P L i k ()) s.store := by
    cases k with
    | configure value dryRun =>
      refine hend (safe_initializeRelay store_discipline kept_true ?_ (fun _ _ => trivial) dryRun
        trivial)
      exact fun t ht => ⟨ht.2.1, rfl⟩
    | createPairing policy ttl now =>
      have hp := claimless_create P policy ttl now
      exact hend (safe_onPairings hp store_discipline kept_true (fun _ _ _ => ⟨trivial, trivial⟩)
        (fun _ _ _ _ _ _ _ _ => trivial) trivial)
    | serve runtime => exact hend (storeSafe_of_plain (within_serve runtime) _)
    | accept runtime settings fuel request now =>
      exact hend (storeSafe_of_plain (within_accept P runtime settings fuel request now) _)
    | enroll runtime expected request => exact absurd rfl (hk runtime expected request)
    | revoke peerID dryRun => exact hend (storeSafe_revoke peerID dryRun _)
  exact safe_of_store hstore

/-- Every call keeps the contract of its process. -/
lemma safe_callerBody (hrevision : ∀ config, L.revision config ≠ "") (P : Primitives) (k : Call)
    (m : Caller) (hs : Clean i s) : EnrollSafe L i (LeftNothing i) (callerBody P L i k m) s := by
  have hother : (∀ runtime expected request, k ≠ .enroll runtime expected request) →
      EnrollSafe L i (LeftNothing i)
        ((body P L i k ()).bind fun _ => Prog.ret ⟨true, false⟩) s := by
    intro hk
    refine Safe.bind (Spared.refl i) (safe_body P k hk s) fun _ _ _ => safe_ret fun t _ hm => ?_
    rcases hm with hm | hm <;> cases hm
  cases k with
  | enroll runtime expected request =>
    refine Safe.bind (Spared.refl i)
      (safe_enroll steady_discipline (enrollRules hrevision P request) runtime expected hs) ?_
    intro result t ht
    cases result with
    | error err =>
      exact safe_return (stays_clean i) ht fun _ hu _ => hu
    | ok result =>
      refine safe_ret fun u _ hm => ?_
      rcases hm with hm | hm <;> cases hm
  | _ => exact hother nofun

end Enroll

/-! ## Runs -/

/-- Every event keeps every process within its contract, when nothing comes between. -/
lemma sound_next {P : Primitives} (hrevision : ∀ config, L.revision config ≠ "") {c c' : State}
    (h : c.Sound (steadyMachine L) contract) (hok : Undisturbed e c)
    (he : (enrollments P L).next e c = some c') : c'.Sound (steadyMachine L) contract := by
  have hguard : ∀ i x k o next, e = .step i x → c.procs i = some (.busy k (.cmd o next)) →
      reliable x o c.store := hok.works
  refine Config.Sound.next h contract_lawful
    (Protocol.guard_next he hguard) (fun i hspawn _ => absurd hspawn (hok.known i)) ?_ ?_
  · intro i k m _ hidle hmay
    have hnew : m.called = false := by
      simpa [enrollments, Protocol.guard] using hmay
    exact safe_callerBody hrevision P k m (hidle (.inl hnew))
  · intro i x k o next r v hstep hi hpre hx j a hji hj
    cases a with
    | idle m => exact others_of_exec hji hpre.2 hx
    | busy k' p =>
      refine spared_of_exec hji ?_ ?_ hpre.1 hpre.2 hx
      · rintro rfl hholder d hd
        exact hok.lock i j k' p d hstep hholder hj hd
      · intro hpublishes
        cases o with
        | save token config revokes =>
          exact hok.alone i x k token config revokes next hstep hi j k' p hji hj
        | _ => cases hpublishes

/-- When the steps on `relay.json` are reliable, its lock is respected, and nobody publishes it
while an enrollment that added its peer is still running, an enrollment that returns an error
leaves no peer in `relay.json` that it added. -/
theorem failed_enrollment_leaves_no_peer (P : Primitives) (L : Libraries)
    (hrevision : ∀ config, L.revision config ≠ "") (initial : Option RelayConfig) {c : State}
    (h : Reachable (enrollments P L) Undisturbed (callersStart initial) c) {i : Nat}
    (hfailed : hasFailed c i = true) :
    ∀ id ∈ peerIDs c.store.store.relay, c.store.authors id ≠ some i := by
  have hsound : c.Sound (steadyMachine L) contract := by
    have hstart : (callersStart initial).Sound (steadyMachine L) contract := by
      intro j a hj
      cases hj
      intro _ hadds
      obtain ⟨id, -, hid⟩ := hadds
      cases hid
    exact h.invariant _ hstart fun c c' e hc hok he => sound_next hrevision hc hok he
  intro id hmem hauthor
  unfold hasFailed at hfailed
  split at hfailed
  · rename_i m hi
    exact hsound i _ hi (.inr hfailed) ⟨id, hmem, hauthor⟩
  · cases hfailed

/-! ## Sample runs -/

open RemoteConfig (sampleLibraries sampleConfig sampleConfigured)

open Relay (hashingPrimitives)

/-- Sample libraries whose revision is a hash of the peers and of which of them are revoked. -/
def revisionLibraries : Libraries :=
  { sampleLibraries with
    revision := fun config => "sha256:" ++ hashingPrimitives.sha256 (Relay.utf8 (String.ofList
      (config.peers.flatMap fun peer => peer.id.toList ++ [if peer.revoked then '-' else '+']))) }

lemma revisionLibraries_revision (config : RelayConfig) :
    revisionLibraries.revision config ≠ "" := by
  intro h
  have hchars := congrArg String.toList h
  simp [revisionLibraries] at hchars

/-- A relay with one peer. -/
def onePeer : Option RelayConfig := some (sampleConfig [sampleConfigured "desk" "desk" 7])

/-- The sample code is created by process 0, and process 1 claims it and adds its peer. -/
def addRun : List (Event Call Choice Nat) :=
  [.call 0 (.createPairing ⟨"team", ["codex"], ["ssh"]⟩ (30 * minute) 1),
    .step 0 (.pairing (.text sampleCode))] ++ pairingWorks 0 1 ++ worksOf 0 1 ++
    [.call 1 (.enroll 0 {} devbox), .step 1 (.pairing (.time 2))] ++
    pairingWorks 1 4 ++ [.step 1 (.pairing (.text "c"))] ++ pairingWorks 1 4 ++ worksOf 1 6

/-- Process 1 finds that the code cannot be used up, tries to take its peer back, in `n` steps,
and gives the code back. -/
def giveUpRun (n : Nat) : List (Event Call Choice Nat) :=
  [.step 1 (.pairing (.time 3)), .step 1 (.pairing .failsBefore)] ++ worksOf 1 n ++
    [.step 1 (.pairing (.time 4))] ++ pairingWorks 1 5 ++ worksOf 1 1

/-- Whether an event is neither a failure on `relay.json` nor a takeover of its lock. -/
def faultless : Event Call Choice Nat → Bool
  | .spawn _ | .step _ .failsBefore | .step _ .failsAfter | .step _ .takesOver => false
  | _ => true

/-- Another process revokes the old peer while process 1 is about to use up its code. -/
def revokedBetweenRun : List (Event Call Choice Nat) :=
  addRun ++ [.call 2 (.revoke "desk" false)] ++ worksOf 2 8 ++ giveUpRun 4

/-- The configuration after the enrollment returned its error. -/
def revokedBetweenEnd : State :=
  (enrollments hashingPrimitives revisionLibraries).endOf (fun e _ => faultless e)
    revokedBetweenRun (callersStart onePeer)

/-- An enrollment whose code cannot be used up leaves its peer behind when another peer was
revoked in between. -/
theorem failed_enrollment_left_its_peer :
    Reachable (enrollments hashingPrimitives revisionLibraries) (fun e _ => faultless e = true)
      (callersStart onePeer) revokedBetweenEnd ∧
      hasFailed revokedBetweenEnd 1 = true ∧
      ∃ id ∈ peerIDs revokedBetweenEnd.store.store.relay,
        revokedBetweenEnd.store.authors id = some 1 := by
  have hrun : ((enrollments hashingPrimitives revisionLibraries).runIf
      (fun e _ => faultless e) revokedBetweenRun (callersStart onePeer)).any (fun c =>
        hasFailed c 1 && (peerIDs c.store.store.relay).any fun id =>
          c.store.authors id = some 1) = true := by
    decide +kernel
  obtain ⟨hreach, hgood⟩ :=
    reachable_endOf (fun _ _ h => h) .start hrun (rfl : revokedBetweenEnd = _)
  obtain ⟨hfailed, hleft⟩ := Bool.and_eq_true_iff.mp hgood
  obtain ⟨id, hid, hauthor⟩ := List.any_eq_true.mp hleft
  exact ⟨hreach, hfailed, id, hid, of_decide_eq_true hauthor⟩

/-- Whether an event disturbs no enrollment that added its peer. -/
def undisturbed (e : Event Call Choice Nat) (c : State) : Bool :=
  faultless e &&
    match e with
    | .step i _ =>
      match c.procs i with
      | some (.busy _ (.cmd (.save _ _ _) _)) => (peerIDs c.store.store.relay).all fun id =>
          match c.store.authors id with
          | none => true
          | some j =>
            match c.procs j with
            | some (.busy _ _) => j = i
            | _ => true
      | _ => true
    | _ => true

lemma undisturbed_of_check {c : State} (h : undisturbed e c = true) : Undisturbed e c := by
  obtain ⟨hfaultless, hsaves⟩ := (Bool.and_eq_true _ _).mp h
  refine ⟨?_, ?_, ?_, ?_⟩
  · rintro i rfl
    cases hfaultless
  · rintro i x k o next rfl -
    refine ⟨?_, fun _ _ _ => ⟨?_, ?_⟩⟩ <;> rintro rfl <;> cases hfaultless
  · rintro i j k p d rfl
    cases hfaultless
  · rintro i x k token config revokes next rfl hi j k' p hji hj hadds
    obtain ⟨id, hmem, hid⟩ := hadds
    simp only [hi, List.all_eq_true] at hsaves
    have hthis := hsaves id hmem
    simp only [hid, hj, decide_eq_true_eq] at hthis
    exact hji hthis

/-- The old peer is revoked first; then process 1 adds its peer and takes it back. -/
def takenBackRun : List (Event Call Choice Nat) :=
  [.call 2 (.revoke "desk" false)] ++ worksOf 2 8 ++ addRun ++ giveUpRun 6

/-- The configuration after the peer was taken back. -/
def takenBackEnd : State :=
  (enrollments hashingPrimitives revisionLibraries).endOf undisturbed takenBackRun
    (callersStart onePeer)

/-- An enrollment whose code cannot be used up takes its peer back. -/
theorem failed_enrollment_took_its_peer_back :
    Reachable (enrollments hashingPrimitives revisionLibraries) Undisturbed (callersStart onePeer)
      takenBackEnd ∧
      peerIDs takenBackEnd.store.store.relay = ["desk"] ∧
      ∀ id ∈ peerIDs takenBackEnd.store.store.relay, takenBackEnd.store.authors id ≠ some 1 := by
  have hrun : ((enrollments hashingPrimitives revisionLibraries).runIf undisturbed takenBackRun
      (callersStart onePeer)).any (fun c =>
        hasFailed c 1 && decide (peerIDs c.store.store.relay = ["desk"])) = true := by
    decide +kernel
  obtain ⟨hreach, hgood⟩ :=
    reachable_endOf (fun _ _ => undisturbed_of_check) .start hrun (rfl : takenBackEnd = _)
  obtain ⟨hfailed, hpeers⟩ := Bool.and_eq_true_iff.mp hgood
  exact ⟨hreach, of_decide_eq_true hpeers, failed_enrollment_leaves_no_peer hashingPrimitives
    revisionLibraries revisionLibraries_revision onePeer hreach hfailed⟩

end AgentBell.App.FailedEnrollment
