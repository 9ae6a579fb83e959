import AgentBell.App.RelayRuntime

/-!
# Transactions on the relay configuration

What holds of `Apply` and `Initialize` for any number of processes, as long as nobody takes the
lock over from a process that is still inside a transaction: the configuration a transaction
publishes is its change applied to the configuration that is in `relay.json` when it publishes.

The results are stated for any assertions that the other processes keep, so that each property
of the relays brings its own.
-/

namespace AgentBell.App

open Interleaving

open Relay (Bytes Primitives PairingClaim)

open RemoteConfig (Libraries RelayConfig PeerChange PeerResult RelayError RelaySnapshot
  applyPeerChange relaySnapshot)

variable {x : Choice} {token j : Nat} {s v t : Store} {r : Bool} {A : Store → Prop} {α : Type}
  {change : PeerChange}

/-! ## What a step does -/

/-- What taking the lock does. -/
lemma exec_acquire (h : exec L x (.acquire token) s = some (r, v)) :
    (v = s ∨ v = { s with holder := some token }) ∧ (r = true → v.holder = some token) := by
  cases x with
  | works | takesOver | failsAfter =>
    simp only [exec] at h
    split at h <;> cases h
    exact ⟨.inr rfl, fun _ => rfl⟩
  | failsBefore =>
    cases h
    exact ⟨.inl rfl, nofun⟩
  | pairing y | ingress y => cases h

/-- What a publication does. -/
lemma exec_save {config : RelayConfig} {revokes : Option Bytes}
    (h : exec L x (.save token config revokes) s = some (r, v)) :
    (r = false ∧ v = s) ∨ v = s.publish config revokes := by
  cases x <;> cases h
  · exact .inr rfl
  · exact .inl ⟨rfl, rfl⟩
  · exact .inr rfl

/-- What a command of the pairing store does to the relays. -/
lemma exec_pairing {c : Relay.PairingCmd} {r : Relay.PairingReply c}
    (h : exec L x (.pairing c) s = some (r, v)) :
    ∃ y q, Relay.pairingExec y c s.pairings = some (r, q) ∧ v = { s with pairings := q } := by
  cases x with
  | pairing y =>
    obtain ⟨⟨r', q⟩, hexec, heq⟩ := Option.map_eq_some_iff.mp h
    cases heq
    exact ⟨y, q, hexec, rfl⟩
  | _ => cases h

/-- What a command of the ingress does to the relays. -/
lemma exec_ingress {c : Relay.Cmd} {r : Relay.Reply c} (h : exec L x (.ingress c) s = some (r, v)) :
    ∃ q, v = { s with ingress := q } := by
  cases x with
  | ingress y =>
    obtain ⟨⟨r', q⟩, hexec, heq⟩ := Option.map_eq_some_iff.mp h
    cases heq
    exact ⟨q, rfl⟩
  | _ => cases h

/-- Everything a command may do to the store. -/
inductive StoreEffect (s : Store) : Cmd → Store → Prop where
  | same (c : Cmd) : StoreEffect s c s
  | acquired (token : Nat) : StoreEffect s (.acquire token) { s with holder := some token }
  | released (token : Nat) : StoreEffect s (.removeLock token) { s with holder := none }
  | published (token : Nat) (config : RelayConfig) (revokes : Option Bytes) :
      StoreEffect s (.save token config revokes) (s.publish config revokes)
  | paired (c : Relay.PairingCmd) (y : Relay.PairingChoice) (r : Relay.PairingReply c)
      (q : Relay.PairingStore) (result : Relay.pairingExec y c s.pairings = some (r, q)) :
      StoreEffect s (.pairing c) { s with pairings := q }
  | ingested (c : Relay.Cmd) (q : Relay.Store) :
      StoreEffect s (.ingress c) { s with ingress := q }
  | peerSet (runtime : Nat) (peer : Relay.Peer) : StoreEffect s (.setPeer runtime peer)
      (s.setRuntime runtime ((s.runtimes runtime).insert peer.id peer))
  | peersSet (runtime : Nat) (peers : List Relay.Peer) :
      StoreEffect s (.setPeers runtime peers) (s.setRuntime runtime (peerMap peers))
  | revocation (key : Bytes) :
      StoreEffect s (.reportRevoked key) { s with revoked := key :: s.revoked }
  | acknowledgement (entry : Accepted) :
      StoreEffect s (.reportAccepted entry) { s with accepted := entry :: s.accepted }

variable {c : Cmd}

/-- A command that is carried out has one of the listed effects. -/
lemma storeEffect_of_exec {r : Reply c} (h : exec L x c s = some (r, v)) : StoreEffect s c v := by
  cases c with
  | acquire token =>
    rcases (exec_acquire h).1 with rfl | rfl
    · exact .same _
    · exact .acquired token
  | ownsLock token | load token =>
    cases x <;> cases h <;> exact .same _
  | removeLock token =>
    cases x <;> cases h
    · exact .released token
    · exact .same _
  | save token config revokes =>
    rcases exec_save h with ⟨-, rfl⟩ | rfl
    · exact .same _
    · exact .published token config revokes
  | pairing command =>
    obtain ⟨y, q, hq, rfl⟩ := exec_pairing h
    exact .paired command y r q hq
  | ingress command =>
    obtain ⟨q, rfl⟩ := exec_ingress h
    exact .ingested command q
  | lookupPeer runtime keyID =>
    cases h
    exact .same _
  | setPeer runtime peer =>
    cases h
    exact .peerSet runtime peer
  | setPeers runtime peers =>
    cases h
    exact .peersSet runtime peers
  | reportRevoked key =>
    cases h
    exact .revocation key
  | reportAccepted entry =>
    cases h
    exact .acknowledgement entry

/-- Whether a command takes, asks for or removes the lock, or reads the configuration. -/
def Cmd.locks : Cmd → Bool
  | .acquire _ | .ownsLock _ | .removeLock _ | .load _ => true
  | _ => false

/-- Such a command changes nothing but the holder of the lock. -/
lemma holder_of_exec {r : Reply c} (hc : c.locks = true) (h : exec L x c s = some (r, v)) :
    v = { s with holder := v.holder } := by
  cases storeEffect_of_exec h with
  | same | acquired | released => rfl
  | _ => cases hc

/-! ## The lock -/

/-- Whether a command is part of a transaction. -/
def Cmd.locked : Cmd → Bool
  | .ownsLock _ | .removeLock _ | .load (some _) | .save _ _ _ => true
  | _ => false

/-- Whether a process is inside a transaction. -/
def InTransaction (a : Option (Activity Cmd Reply Call Unit)) : Prop :=
  ∃ k p c, a = some (.busy k p) ∧ p.head = some c ∧ c.locked = true

/-- The lock is not taken over from a process that is inside a transaction. -/
def LockRespected (e : Event Call Choice Nat) (c : RelayState) : Prop :=
  ∀ i j, e = .step i .takesOver → c.store.holder = some j → ¬ InTransaction (c.procs j)

/-- What a process that holds the lock expects of the others before its next command. -/
def LockKept (i : Nat) (o : Option Cmd) (s t : Store) : Prop :=
  ∀ c, o = some c → c.locked = true → s.holder = some i →
    t.holder = some i ∧ t.relay = s.relay

/-- In which stores a process publishes the configuration and removes the lock. -/
def Cmd.Owned (i : Nat) : Cmd → Store → Prop
  | .save _ _ _, s => s.holder = some i
  | .removeLock _, s => s.holder = some i
  | _, _ => True

lemma LockKept.refl (i : Nat) (o : Option Cmd) (s : Store) : LockKept i o s s :=
  fun _ _ _ h => ⟨h, rfl⟩

lemma LockKept.trans {o : Option Cmd} (hst : LockKept i o s t) (htv : LockKept i o t v) :
    LockKept i o s v := by
  intro c hc hlocked hs
  obtain ⟨ht, hrelay⟩ := hst c hc hlocked hs
  obtain ⟨hv, hrelay'⟩ := htv c hc hlocked ht
  exact ⟨hv, hrelay'.trans hrelay⟩

variable {o : Cmd}

/-- What a command of one process does is kept from another process that holds the lock, unless
the lock is taken over from it. -/
lemma lockKept_of_command {r : Reply o} {awaited : Option Cmd} (hij : j ≠ i)
    (hlock : x = .takesOver → s.holder = some j → ∀ d, awaited = some d → d.locked = false)
    (howned : o.Owned i s) (hx : exec L x o s = some (r, v)) : LockKept j awaited s v := by
  intro d hd hlocked hholder
  have hother : s.holder ≠ some i := fun h => hij (Option.mem_unique hholder h)
  cases o with
  | acquire token =>
    cases x with
    | takesOver =>
      rw [hlock rfl hholder d hd] at hlocked
      cases hlocked
    | failsBefore =>
      cases hx
      exact ⟨hholder, rfl⟩
    | works | failsAfter => simp [exec, hholder] at hx
    | pairing y | ingress y => cases hx
  | save token config revokes | removeLock token => exact absurd howned hother
  | _ =>
    cases storeEffect_of_exec hx <;> exact ⟨hholder, rfl⟩

/-- What one process does is kept from every other process that holds the lock. -/
lemma lockKept_of_exec {c : RelayState} {k : Call} {p : RelayProg Unit} {r : Reply o} (hij : j ≠ i)
    (hlock : LockRespected (.step i x) c) (hj : c.procs j = some (.busy k p))
    (howned : o.Owned i c.store) (hx : exec L x o c.store = some (r, v)) :
    LockKept j p.head c.store v := by
  refine lockKept_of_command hij ?_ howned hx
  rintro rfl hholder d hd
  exact Bool.eq_false_iff.mpr fun hlocked =>
    hlock i j rfl hholder ⟨k, p, d, hj, hd, hlocked⟩

/-! ## Assertions of a process -/

/-- A state that holds the relays, and perhaps more. -/
class Relays (σ : Type) where
  store : σ → Store
  hold : σ → Option Nat → σ
  hold_store : ∀ s, hold s (store s).holder = s

instance : Relays Store := ⟨fun s => s, fun s holder => { s with holder := holder }, fun _ => rfl⟩

/-- A process among others: what its commands do, what the others may do before each of them, and
when it may issue them. -/
structure Side (σ : Type) extends Machine Cmd Reply σ Choice where
  rely : Option Cmd → σ → σ → Prop
  pre : Cmd → σ → Prop

/-- A program of the process is safe. -/
abbrev Side.Safe {σ α : Type} (S : Side σ) (post : α → σ → Prop) (p : RelayProg α) (s : σ) : Prop :=
  Interleaving.Safe S.toMachine S.rely S.pre post p s

section Generic

open Relays (store hold)

variable {σ : Type} [Relays σ]

/-- How the transactions of a process `i` fit into a contract: the machine does no more than
the relays do, others leave the configuration alone while the process holds the lock, and the
steps that read, and that remove the own lock, are always allowed. -/
structure Discipline (L : Libraries) (S : Side σ) (i : Nat) : Prop where
  sub : ∀ x c s r v, S.exec x c s = some (r, v) → exec L x c (store s) = some (r, store v)
  locks : ∀ x c s r v, c.locks = true → S.exec x c s = some (r, v) → v = hold s (store v).holder
  refl : ∀ o s, S.rely o s s
  lock : ∀ o s t, S.rely o s t → LockKept i o (store s) (store t)
  allowed : ∀ c s, c.locks = true → c.Owned i (store s) → S.pre c s

/-- An assertion that the others keep and that does not speak of the lock. -/
structure Kept (rely : Option Cmd → σ → σ → Prop) (A : σ → Prop) : Prop where
  stable : ∀ o s t, A s → rely o s t → A t
  holder : ∀ s h, A s → A (hold s h)

variable {L : Libraries} {S : Side σ} {i : Nat} {A : σ → Prop} {s t v : σ}

/-- Such a command keeps such an assertion. -/
lemma Kept.exec {r : Reply c} (hA : Kept S.rely A) (D : Discipline L S i)
    (hc : c.locks = true) (hs : A s) (hx : S.exec x c s = some (r, v)) : A v := by
  rw [D.locks x c s r v hc hx]
  exact hA.holder s _ hs

/-- What a process knows between two steps of a transaction: it holds the lock and what is in
`relay.json`. -/
def Inside (i : Nat) (config : Option RelayConfig) (A : σ → Prop) (s : σ) : Prop :=
  A s ∧ (store s).holder = some i ∧ (store s).relay = config

lemma Inside.stable {config : Option RelayConfig} (D : Discipline L S i) (hA : Kept S.rely A)
    (hc : c.locked = true) (hs : Inside i config A s) (hst : S.rely (some c) s t) :
    Inside i config A t := by
  obtain ⟨hAs, hholder, hrelay⟩ := hs
  obtain ⟨hholder', hrelay'⟩ := D.lock _ s t hst c rfl hc hholder
  exact ⟨hA.stable _ s t hAs hst, hholder', hrelay'.trans hrelay⟩

/-- Releasing the lock keeps an assertion. -/
lemma safe_releasing (D : Discipline L S i) (hA : Kept S.rely A) (result : α) (hs : A s) :
    S.Safe (fun a t => a = result ∧ A t) (releasing i result) s := by
  have hreturn : ∀ t, A t → S.Safe (fun a t => a = result ∧ A t)
      (Prog.ret result : RelayProg α) t :=
    fun t ht => safe_ret_of_stable ht (hA.stable none) fun v hv => ⟨rfl, hv⟩
  refine safe_cmd_of_stable hs (hA.stable _) (fun t _ => D.allowed _ t rfl trivial) ?_
  intro x owned t v ht hx
  have hv : A v := hA.exec D rfl ht hx
  cases owned with
  | false => exact hreturn v hv
  | true =>
    have hholder : (store v).holder = some i := by
      have hx' := D.sub _ _ _ _ _ hx
      cases x with
      | works =>
        simp only [exec, Option.some.injEq, Prod.mk.injEq, decide_eq_true_eq] at hx'
        exact hx'.2 ▸ hx'.1
      | _ => cases hx'
    refine safe_cmd_of_stable (A := Inside i (store v).relay A) ⟨hv, hholder, rfl⟩
      (fun _ _ h hst => h.stable D hA rfl hst) (fun u hu => D.allowed _ u rfl hu.2.1) ?_
    intro y r u w hu hy
    exact hreturn w (hA.exec D rfl hu.1 hy)

/-- What reading the configuration shows. -/
lemma exec_load {token : Option Nat} {s v : Store} {r : Except RelayError RelayConfig}
    (h : exec L x (.load token) s = some (r, v)) :
    v = s ∧ (∀ config, r = .ok config → s.relay = some config ∧ config.validate L = .ok ()) ∧
      (r = .error .notFound → s.relay = none) := by
  cases x with
  | works =>
    obtain ⟨rfl, rfl⟩ := h
    refine ⟨rfl, ?_, ?_⟩
    · intro config hr
      unfold loadRelay at hr
      split at hr
      · cases hr
      · split at hr
        · cases hr
        · rename_i hvalid
          cases hr
          exact ⟨by assumption, hvalid⟩
    · intro hr
      unfold loadRelay at hr
      split at hr
      · assumption
      · split at hr <;> cases hr
  | failsBefore =>
    cases h
    exact ⟨rfl, nofun, nofun⟩
  | _ => cases h

/-- Listing the configuration under an assertion, and going on with what was read. -/
lemma safe_list_bind {post : α → σ → Prop} (D : Discipline L S i) {token : Option Nat}
    (hA : ∀ s t, A s → S.rely (some (.load token)) s t → A t)
    {f : Except RelayError RelaySnapshot → RelayProg α}
    (herror : ∀ x err t, A t → S.exec x (.load token) t = some (.error err, t) →
      S.Safe post (f (.error err)) t)
    (hok : ∀ config t, A t → (store t).relay = some config → config.validate L = .ok () →
      S.Safe post (f (.ok (relaySnapshot L config))) t) (hs : A s) :
    S.Safe post ((list L token).bind f) s := by
  refine safe_cmd_of_stable hs hA (fun t _ => D.allowed _ t rfl trivial) ?_
  intro x read t v ht hx
  have hread := exec_load (D.sub _ _ _ _ _ hx)
  obtain rfl : v = t := by
    rw [D.locks _ _ _ _ _ rfl hx, hread.1, Relays.hold_store]
  cases read with
  | error err => exact herror x err v ht hx
  | ok config =>
    obtain ⟨hrelay, hvalid⟩ := hread.2.1 config rfl
    exact hok config v ht hrelay hvalid

/-! ## Apply -/

/-- The process is about to publish the result of a change. -/
structure Publishing (L : Libraries) (i : Nat) (change : PeerChange) (A : σ → Prop)
    (config : RelayConfig) (result : PeerResult) (s : σ) : Prop where
  inside : Inside i (some config) A s
  valid : config.validate L = .ok ()
  changed : applyPeerChange L (relaySnapshot L config) change = .ok result

/-- The command that publishes the result of a change. -/
abbrev publication (L : Libraries) (i : Nat) (change : PeerChange) (config : RelayConfig)
    (result : PeerResult) : Cmd :=
  .save i result.after.config (revokedKey L change config)

/-- The assertions a change is applied under: `A` before it is published, `B` after it was
published, and `E` when an error is returned. -/
structure TransactionRules (L : Libraries) (S : Side σ) (i : Nat) (change : PeerChange)
    (A E : σ → Prop) (B : RelayConfig → PeerResult → σ → Prop) : Prop where
  before : Kept S.rely A
  after : ∀ config result, Kept S.rely (B config result)
  failed : Kept S.rely E
  allowed : ∀ config result s, Publishing L i change A config result s →
    S.pre (publication L i change config result) s
  published : ∀ config result s x v, Publishing L i change A config result s →
    S.exec x (publication L i change config result) s = some (true, v) → B config result v
  unlocked : ∀ s x v, A s → S.exec x (.acquire i) s = some (false, v) → E v
  unread : ∀ token s x err, token = some i ∨ change.dryRun = true → A s →
    S.exec x (.load token) s = some (.error err, s) → E s
  refused : ∀ config s err, A s → (store s).relay = some config →
    applyPeerChange L (relaySnapshot L config) change = .error err → E s
  unsaved : ∀ config result s x v, Publishing L i change A config result s →
    S.exec x (publication L i change config result) s = some (false, v) → E v
  unchecked : ∀ config result s x err, Inside i (some result.after.config) (B config result) s →
    applyPeerChange L (relaySnapshot L config) change = .ok result →
    S.exec x (.load (some i)) s = some (.error err, s) → E s

/-- What `Apply` returns: an error, or a change that was applied to a checked configuration, and
published unless only the changes were to be shown. -/
def Applied (L : Libraries) (change : PeerChange) (A E : σ → Prop)
    (B : RelayConfig → PeerResult → σ → Prop) (r : Except RelayError PeerResult) (t : σ) : Prop :=
  match r with
  | .error _ => E t
  | .ok result => ∃ config, config.validate L = .ok () ∧
      applyPeerChange L (relaySnapshot L config) change = .ok result ∧
      if change.dryRun then A t else B config result t

/-- The configuration a change gives comes with its revision. -/
lemma after_of_applyPeerChange {before : RelaySnapshot} {result : PeerResult}
    (h : applyPeerChange L before change = .ok result) :
    result.before = before ∧ result.after = relaySnapshot L result.after.config := by
  unfold applyPeerChange at h
  split at h
  · cases h
  split at h
  · cases h
  simp only at h
  split at h
  · cases h
  cases h
  exact ⟨rfl, rfl⟩

section Apply

variable {E : σ → Prop} {B : RelayConfig → PeerResult → σ → Prop}

/-- The part of `Apply` under the lock. -/
lemma safe_applyLocked (D : Discipline L S i)
    (H : TransactionRules L S i change A E B) (hshown : change.dryRun = false)
    (hs : A s) (hholder : (store s).holder = some i) :
    S.Safe (Applied L change A E B) (applyLocked L i change) s := by
  have hfail : ∀ err t, E t → S.Safe (Applied L change A E B)
      (releasing i (.error err)) t := by
    intro err t ht
    refine (safe_releasing D H.failed _ ht).weaken (fun _ _ h => h) ?_
    rintro a u ⟨rfl, hu⟩
    exact hu
  refine safe_list_bind D (A := fun t => A t ∧ (store t).holder = some i) ?_ ?_ ?_ ⟨hs, hholder⟩
  · intro t u ht htu
    exact ⟨H.before.stable _ t u ht.1 htu, (D.lock _ t u htu _ rfl rfl ht.2).1⟩
  · exact fun x err t ht hx => hfail err t (H.unread _ t x err (.inl rfl) ht.1 hx)
  intro config t ht hrelay hvalid
  have hin : Inside i (some config) A t := ⟨ht.1, ht.2, hrelay⟩
  cases hresult : applyPeerChange L (relaySnapshot L config) change with
  | error err =>
    simp only [hresult]
    exact hfail err t (H.refused config t err ht.1 hrelay hresult)
  | ok result =>
    simp only [hresult, perform, Prog.bind_eq, Prog.issue_bind]
    refine safe_cmd_of_stable hin (fun _ _ h hst => h.stable D H.before rfl hst)
      (fun u hu => H.allowed config result u ⟨hu, hvalid, hresult⟩) ?_
    intro x saved u v hu hx
    have hpublishing : Publishing L i change A config result u := ⟨hu, hvalid, hresult⟩
    cases saved with
    | false => exact hfail _ v (H.unsaved config result u x v hpublishing hx)
    | true =>
      have hB : Inside i (some result.after.config) (B config result) v := by
        refine ⟨H.published config result u x v hpublishing hx, ?_⟩
        rcases exec_save (D.sub _ _ _ _ _ hx) with ⟨hfalse, -⟩ | hv
        · cases hfalse
        · rw [hv]
          exact ⟨hu.2.1, rfl⟩
      refine safe_list_bind D (fun _ _ h hst => h.stable D (H.after config result) rfl hst)
        (fun y err w hw hy => hfail err w (H.unchecked config result w y err hw hresult hy)) ?_ hB
      intro config' w hw hrelay' _
      obtain rfl : result.after.config = config' := Option.mem_unique hw.2.2 hrelay'
      have hsame : { result with after := relaySnapshot L result.after.config } = result := by
        rw [← (after_of_applyPeerChange hresult).2]
      simp only [hsame]
      refine (safe_releasing D (H.after config result) _ hw.1).weaken (fun _ _ h => h) ?_
      rintro a t' ⟨rfl, ht'⟩
      exact ⟨config, hvalid, hresult, by rwa [if_neg (by rw [hshown]; nofun)]⟩

/-- `Apply` changes the configuration that is in `relay.json` when it publishes. -/
theorem safe_transaction (D : Discipline L S i)
    (H : TransactionRules L S i change A E B) (hs : A s) :
    S.Safe (Applied L change A E B) (apply L i change) s := by
  have hfail : ∀ err t, E t → S.Safe (Applied L change A E B)
      (Prog.ret (.error err) : RelayProg (Except RelayError PeerResult)) t :=
    fun err t ht => safe_ret_of_stable ht (H.failed.stable none) fun u hu => hu
  unfold apply
  split
  · rename_i hdry
    refine safe_list_bind D (H.before.stable _)
      (fun x err t ht hx => hfail err t (H.unread none t x err (.inr hdry) ht hx)) ?_ hs
    intro config t ht hrelay hvalid
    cases hresult : applyPeerChange L (relaySnapshot L config) change with
    | error err =>
      simp only [hresult]
      exact hfail err t (H.refused config t err ht hrelay hresult)
    | ok result =>
      simp only [hresult]
      refine safe_ret_of_stable ht (H.before.stable none) fun u hu => ?_
      exact ⟨config, hvalid, hresult, by rwa [if_pos hdry]⟩
  · rename_i hshown
    refine safe_cmd_of_stable hs (H.before.stable _) (fun t _ => D.allowed _ t rfl trivial) ?_
    intro x acquired t v ht hx
    cases acquired with
    | true =>
      exact safe_applyLocked D H (Bool.eq_false_iff.mpr hshown) (H.before.exec D rfl ht hx)
        ((exec_acquire (D.sub _ _ _ _ _ hx)).2 rfl)
    | false => exact hfail _ v (H.unlocked t x v ht hx)

end Apply

end Generic

variable {S : Side Store} {L : Libraries} {i : Nat} {E : Store → Prop}
  {B : RelayConfig → PeerResult → Store → Prop}

lemma Inside.relay {config : Option RelayConfig} (h : Inside i config A s) : s.relay = config :=
  h.2.2

lemma Publishing.relay {config : RelayConfig} {result : PeerResult}
    (h : Publishing L i change A config result s) : s.relay = some config := h.inside.relay

/-- The assertions a change is applied under when any step may fail: `A` before it is published,
`B` after it was published, and `E` in both cases. -/
structure ChangeRules (L : Libraries) (S : Side Store) (i : Nat)
    (change : PeerChange) (A E : Store → Prop)
    (B : RelayConfig → PeerResult → Store → Prop) : Prop where
  before : Kept S.rely A
  after : ∀ config result, Kept S.rely (B config result)
  either : Kept S.rely E
  of_before : ∀ s, A s → E s
  of_after : ∀ config result s, B config result s → E s
  allowed : ∀ config result s, Publishing L i change A config result s →
    S.pre (publication L i change config result) s
  published : ∀ config result s x r v, Publishing L i change A config result s →
    S.exec x (publication L i change config result) s = some (r, v) →
    v = s.publish result.after.config (revokedKey L change config) → B config result v

lemma ChangeRules.transaction (D : Discipline L S i)
    (H : ChangeRules L S i change A E B) :
    TransactionRules L S i change A E B where
  before := H.before
  after := H.after
  failed := H.either
  allowed := H.allowed
  published := by
    intro config result s x v h hx
    refine H.published config result s x true v h hx ?_
    exact (exec_save (D.sub _ _ _ _ _ hx)).resolve_left fun h => nomatch h.1
  unlocked := fun s x v hs hx => H.of_before v (H.before.exec D rfl hs hx)
  unread := fun _ s _ _ _ hs _ => H.of_before s hs
  refused := fun _ s _ hs _ _ => H.of_before s hs
  unsaved := by
    intro config result s x v h hx
    rcases exec_save (D.sub _ _ _ _ _ hx) with ⟨-, rfl⟩ | hv
    · exact H.of_before v h.inside.1
    · exact H.of_after config result v (H.published config result s x _ v h hx hv)
  unchecked := fun config result s _ _ hs _ _ => H.of_after config result s hs.1

/-- What `Apply` returns when any step may fail. -/
def AppliedIn (L : Libraries) (change : PeerChange) (E : Store → Prop)
    (B : RelayConfig → PeerResult → Store → Prop) (r : Except RelayError PeerResult)
    (t : Store) : Prop :=
  E t ∧ ∀ result, r = .ok result → ∃ config, config.validate L = .ok () ∧
    applyPeerChange L (relaySnapshot L config) change = .ok result ∧
    (change.dryRun = false → B config result t)

/-- `Apply` when any step may fail. -/
theorem safe_apply (D : Discipline L S i) (H : ChangeRules L S i change A E B)
    (hs : A s) : S.Safe (AppliedIn L change E B) (apply L i change) s := by
  refine (safe_transaction D (H.transaction D) hs).weaken (fun _ _ h => h) ?_
  intro r t ht
  cases r with
  | error err => exact ⟨ht, by rintro _ ⟨⟩⟩
  | ok result =>
    obtain ⟨config, hvalid, hresult, hends⟩ := ht
    cases hdry : change.dryRun with
    | true =>
      rw [if_pos hdry] at hends
      refine ⟨H.of_before t hends, fun _ h => ⟨config, hvalid, h ▸ hresult, fun hshown => ?_⟩⟩
      rw [hdry] at hshown
      cases hshown
    | false =>
      rw [if_neg (by rw [hdry]; nofun)] at hends
      refine ⟨H.of_after config result t hends, ?_⟩
      rintro result' ⟨⟩
      exact ⟨config, hvalid, hresult, fun _ => hends⟩

/-! ## Initialize -/

/-- `Initialize` publishes the first configuration where there is none. -/
theorem safe_initializeRelay {value : RelayConfig} (D : Discipline L S i)
    (hA : Kept S.rely A) (hallowed : ∀ s, Inside i none A s → S.pre (.save i value none) s)
    (hpublished : ∀ s, Inside i none A s → A (s.publish value none)) (dryRun : Bool) (hs : A s) :
    S.Safe (fun _ t => A t) (initializeRelay L i value dryRun) s := by
  have hreturn : ∀ (result : Except RelayError RelaySnapshot) t, A t →
      S.Safe (fun _ t => A t) (Prog.ret result) t :=
    fun result t ht => safe_ret_of_stable ht (hA.stable none) fun u hu => hu
  have hrelease : ∀ (result : Except RelayError RelaySnapshot) t, A t →
      S.Safe (fun _ t => A t) (releasing i result) t :=
    fun result t ht => (safe_releasing D hA result ht).weaken (fun _ _ h => h) fun _ _ h => h.2
  unfold initializeRelay
  split
  · exact hreturn _ s hs
  split
  · exact hreturn _ s hs
  simp only [perform, Prog.bind_eq, Prog.issue_bind]
  refine safe_cmd_of_stable hs (hA.stable _) (fun t _ => D.allowed _ t rfl trivial) ?_
  intro x acquired t v ht hx
  have hAv : A v := hA.exec D rfl ht hx
  cases acquired with
  | false => exact hreturn _ v hAv
  | true =>
    simp only [if_true, initializeLocked, perform, Prog.bind_eq, Prog.issue_bind]
    refine safe_cmd_of_stable (A := fun u => A u ∧ u.holder = some i)
      ⟨hAv, (exec_acquire (D.sub _ _ _ _ _ hx)).2 rfl⟩ ?_ (fun u _ => D.allowed _ u rfl trivial) ?_
    · intro u w hu huw
      exact ⟨hA.stable _ u w hu.1 huw, (D.lock _ u w huw _ rfl rfl hu.2).1⟩
    intro y read u w hu hy
    obtain ⟨rfl, -, hnone⟩ := exec_load (D.sub _ _ _ _ _ hy)
    split
    · exact hrelease _ w hu.1
    · have hin : Inside i none A w := ⟨hu.1, hu.2, hnone rfl⟩
      refine safe_cmd_of_stable hin (fun _ _ h hst => h.stable D hA rfl hst) hallowed ?_
      intro z saved a b ha hz
      have hAb : A b := by
        rcases exec_save (D.sub _ _ _ _ _ hz) with ⟨-, rfl⟩ | rfl
        · exact ha.1
        · exact hpublished a ha
      cases saved with
      | false => exact hrelease _ b hAb
      | true =>
        exact safe_list_bind D (hA.stable _) (fun _ _ d hd _ => hrelease _ d hd)
          (fun _ d hd _ _ => hrelease _ d hd) hAb
    · exact hrelease _ w hu.1

/-! ## Programs of the pairing store and of the ingress -/

/-- A program of the pairing store keeps an assertion that its commands keep. -/
lemma safe_onPairings {φ : Relay.PairingCmd → Prop} {p : Relay.PairingProg α} (hp : p.Within φ)
    (D : Discipline L S i) (hA : Kept S.rely A) (hpre : ∀ c s, φ c → S.pre (.pairing c) s)
    (hexec : ∀ y c s r q, φ c → A s → Relay.pairingExec y c s.pairings = some (r, q) →
      A { s with pairings := q }) (hs : A s) :
    S.Safe (fun _ t => A t) (onPairings p) s := by
  refine Safe.of_comap (hp.safe (fun o => hA.stable _) (fun c t hc _ => hpre c t hc) ?_ hs)
  intro x c t r v hc ht hx
  simp only [Machine.comap, Option.map_eq_some_iff] at hx
  obtain ⟨⟨r', v'⟩, hx, heq⟩ := hx
  cases heq
  obtain ⟨y, q, hq, rfl⟩ := exec_pairing (D.sub _ _ _ _ _ hx)
  exact hexec y c t _ q hc ht hq

/-- A program of the ingress keeps an assertion that does not speak of the state directory. -/
lemma safe_onIngress (p : Relay.IngressProg α) (D : Discipline L S i) (hA : Kept S.rely A)
    (hpre : ∀ c s, S.pre (.ingress c) s) (hexec : ∀ s q, A s → A { s with ingress := q })
    (hs : A s) : S.Safe (fun _ t => A t) (onIngress p) s := by
  have hp : p.Within fun _ => True := Prog.within_of_forall fun _ => trivial
  refine Safe.of_comap (hp.safe (fun o => hA.stable _) (fun c t _ _ => hpre c t) ?_ hs)
  intro x c t r v _ ht hx
  simp only [Machine.comap, Option.map_eq_some_iff] at hx
  obtain ⟨⟨r', v'⟩, hx, heq⟩ := hx
  cases heq
  obtain ⟨q, rfl⟩ := exec_ingress (D.sub _ _ _ _ _ hx)
  exact hexec t q ht

/-! ## Pairing programs that write no claim -/

/-- Whether a command writes a claim. -/
def claims : Relay.PairingCmd → Bool
  | .writeClaim _ _ _ _ => true
  | _ => false

/-- A program that writes no claim. -/
abbrev Claimless {α : Type} (p : Relay.PairingProg α) : Prop := p.Within fun c => claims c = false

lemma claimless_readPairing (directory : Relay.PairingDirectory) (id : String) :
    Claimless (Relay.readPairing directory id) := by
  refine Prog.within_issue rfl fun r => ?_
  split
  · trivial
  · trivial
  · split <;> trivial

lemma claimless_claimableRecord (codeHash id : String) (now : Time) :
    Claimless (Relay.claimableRecord codeHash id now) := by
  refine (claimless_readPairing .inflight id).bind fun result => ?_
  split
  · trivial
  · split
    · trivial
    · split <;> trivial
  · refine (claimless_readPairing .pending id).bind fun result => ?_
    split
    · trivial
    · trivial
    · split <;> trivial

lemma claimless_claimedRecord (claim : PairingClaim) : Claimless (Relay.claimedRecord claim) := by
  refine (claimless_readPairing .inflight _).bind fun result => ?_
  split
  · trivial
  · split <;> trivial
  · refine (claimless_readPairing .history _).bind fun result => ?_
    split <;> trivial

lemma claimless_finishClaim (record : Relay.PairingRecord)
    (destination : Relay.PairingDirectory) : Claimless (Relay.finishClaim record destination) := by
  refine Prog.within_issue rfl fun written => ?_
  split
  · refine Prog.within_issue rfl fun moved => ?_
    split <;> trivial
  · trivial

lemma claimless_withClaim (claim : PairingClaim)
    {work : Relay.PairingRecord → Relay.PairingProg (Except Relay.PairingError Unit)}
    (hwork : ∀ record, Claimless (work record)) : Claimless (Relay.withClaim claim work) := by
  unfold Relay.withClaim
  split
  · trivial
  · refine Prog.within_issue rfl fun locked => ?_
    split
    · refine (claimless_claimedRecord claim).bind fun result => ?_
      split
      · exact Prog.within_issue rfl fun _ => trivial
      · exact (hwork _).bind fun _ => Prog.within_issue rfl fun _ => trivial
    · trivial

lemma claimless_clock : Claimless (Relay.onPairing .clock) := ⟨rfl, fun _ => trivial⟩

lemma claimless_release (claim : PairingClaim) (now : Time) :
    Claimless (Relay.release claim now) := by
  unfold Relay.release
  split
  · trivial
  · exact claimless_withClaim claim fun record => claimless_finishClaim _ _

lemma claimless_commit (claim : PairingClaim) (peerID : String) (now : Time) :
    Claimless (Relay.commit claim peerID now) := by
  unfold Relay.commit
  split
  · trivial
  · split
    · trivial
    · refine claimless_withClaim claim fun record => ?_
      split
      · trivial
      · exact claimless_finishClaim _ _

lemma claimless_create (P : Primitives) (policy : Relay.PairingPolicy) (ttl : Duration)
    (now : Time) : Claimless (Relay.create P policy ttl now) := by
  have hrecord : ∀ tries, Claimless (Relay.createRecord P policy ttl now tries) := by
    intro tries
    induction tries with
    | zero => trivial
    | succ tries ih =>
      refine Prog.within_issue rfl fun code => ?_
      split
      · trivial
      · refine Prog.within_issue rfl fun result => ?_
        split
        · trivial
        · exact ih
        · trivial
  unfold Relay.create
  split
  · trivial
  · split
    · trivial
    · split
      · trivial
      · exact hrecord 8

/-! ## Enrollments -/

/-- An added peer was added by a change of some configuration. -/
def AddedBy (L : Libraries) (peer : RemoteConfig.Peer) (added : Option PeerResult) : Prop :=
  ∀ result, added = some result → ∃ config,
    applyPeerChange L (relaySnapshot L config) (addChange peer) = .ok result

/-- What an enrollment returns: an error under one assertion, or a result under another. -/
def Enrolled {σ : Type} (K Q : σ → Prop) (r : Except EnrollError α) (t : σ) : Prop :=
  match r with
  | .error _ => K t
  | .ok _ => Q t

section Enroll

open Relays (store)

variable {σ : Type} [Relays σ] {S : Side σ} {P : Primitives} {request : PairEnrollmentRequest}
  {K Q : σ → Prop} {H : PairingClaim → σ → Prop}
  {B : PairingClaim → Option PeerResult → σ → Prop} {s : σ}

/-- An assertion that the others keep, and the programs that write no claim. -/
structure Sustained (S : Side σ) (A : σ → Prop) : Prop extends Kept S.rely A where
  pairings : ∀ {α : Type} {p : Relay.PairingProg α} {s : σ}, Claimless p → A s →
    S.Safe (fun _ t => A t) (onPairings p) s

/-- The assertions an enrollment is made under: `K` while no peer is added, `H` while the code is
claimed and no peer is added, `B` when the code is about to be used up, and `Q` at the end. -/
structure EnrollRules (P : Primitives) (L : Libraries) (S : Side σ) (i : Nat)
    (request : PairEnrollmentRequest) (K Q : σ → Prop) (H : PairingClaim → σ → Prop)
    (B : PairingClaim → Option PeerResult → σ → Prop) : Prop where
  idle : Sustained S K
  ready : ∀ claim added, Sustained S (B claim added)
  done : Kept S.rely Q
  claims : ∀ now s, K s → S.Safe (fun r t => K t ∧ ∀ claim, r = .ok claim → H claim t)
    (onPairings (Relay.claim P i request.code now (2 * minute))) s
  add : ∀ claim, TransactionRules L S i (addChange (enrolledPeer L claim request))
    (H claim) K fun _ result => B claim (some result)
  listed : ∀ claim config s, K s → (store s).relay = some config →
    containsExactEnrollmentPeer config.peers (enrolledPeer L claim request) = true →
    B claim none s
  compensates : ∀ claim added s, AddedBy L (enrolledPeer L claim request) added →
    B claim added s → S.Safe (fun _ t => K t)
      (compensate L i (enrolledPeer L claim request) added) s
  unusable : ∀ claim added message s, AddedBy L (enrolledPeer L claim request) added →
    configuredRelayPeer L (enrolledPeer L claim request) = .error message →
    B claim added s → K s
  usable : ∀ claim added runtime peer s,
    configuredRelayPeer L (enrolledPeer L claim request) = .ok peer → B claim added s →
    S.pre (.setPeer runtime peer) s ∧
      ∀ x r v, S.exec x (.setPeer runtime peer) s = some (r, v) → Q v

/-- Giving a claim back. -/
lemma safe_releaseClaim (D : Discipline L S i) (hK : Sustained S K)
    (claim : PairingClaim) (err : EnrollError) (hs : K s) :
    S.Safe (Enrolled K Q) (releaseClaim claim err : RelayProg (Except EnrollError α))
      s := by
  refine Safe.bind D.refl (hK.pairings claimless_clock hs) fun now t ht => ?_
  refine Safe.bind D.refl (hK.pairings (claimless_release claim now) ht) fun _ u hu => ?_
  exact safe_ret_of_stable hu (hK.stable none) fun _ hv => hv

/-- The end of an enrollment. -/
lemma safe_completeEnrollment (D : Discipline L S i)
    (R : EnrollRules P L S i request K Q H B) (runtime : Nat) {claim : PairingClaim}
    {added : Option PeerResult} (hadded : AddedBy L (enrolledPeer L claim request) added)
    (hs : B claim added s) : S.Safe (Enrolled K Q)
      (completeEnrollment L i runtime claim request (enrolledPeer L claim request) added) s := by
  have hB := R.ready claim added
  refine Safe.bind D.refl (hB.pairings claimless_clock hs) fun now t ht => ?_
  refine Safe.bind D.refl (hB.pairings (claimless_commit claim _ now) ht) fun committed u hu => ?_
  cases committed with
  | error err =>
    refine Safe.bind D.refl (R.compensates claim added u hadded hu) ?_
    exact fun _ v hv => safe_releaseClaim D R.idle claim _ hv
  | ok done =>
    cases hpeer : configuredRelayPeer L (enrolledPeer L claim request) with
    | error message =>
      exact safe_ret_of_stable hu (hB.stable none) fun v hv =>
        R.unusable claim added message v hadded hpeer hv
    | ok peer =>
      refine safe_cmd_of_stable hu (hB.stable _)
        (fun v hv => (R.usable claim added runtime peer v hpeer hv).1) ?_
      intro x r v w hv hx
      have hw := (R.usable claim added runtime peer v hpeer hv).2 x r w hx
      exact safe_ret_of_stable hw (R.done.stable none) fun _ h => h

/-- Adding the peer of a claimed code. -/
lemma safe_enrollClaimed (D : Discipline L S i)
    (R : EnrollRules P L S i request K Q H B) (runtime : Nat) (claim : PairingClaim)
    (hs : H claim s) :
    S.Safe (Enrolled K Q) (enrollClaimed L i runtime claim request) s := by
  refine Safe.bind D.refl (safe_transaction D (R.add claim) hs) ?_
  intro result t ht
  cases result with
  | ok added =>
    obtain ⟨config, -, hresult, hB⟩ := ht
    refine safe_completeEnrollment D R runtime ?_ hB
    rintro result ⟨⟩
    exact ⟨config, hresult⟩
  | error err =>
    cases err with
    | peerExists =>
      refine safe_list_bind D (R.idle.stable _)
        (fun _ _ u hu _ => safe_releaseClaim D R.idle claim _ hu) ?_ ht
      intro config u hu hrelay _
      simp only
      split
      · rename_i hcontains
        exact safe_completeEnrollment D R runtime (by rintro _ ⟨⟩)
          (R.listed claim config u hu hrelay hcontains)
      · exact safe_releaseClaim D R.idle claim _ hu
    | _ => exact safe_releaseClaim D R.idle claim _ ht

/-- An enrollment. -/
theorem safe_enroll (D : Discipline L S i)
    (R : EnrollRules P L S i request K Q H B) (runtime : Nat) (expected : Expected)
    (hs : K s) : S.Safe (Enrolled K Q) (enroll P L i runtime expected request) s := by
  unfold enroll
  split
  · exact safe_ret_of_stable hs (R.idle.stable none) fun _ ht => ht
  refine Safe.bind D.refl (R.idle.pairings claimless_clock hs) fun now t ht => ?_
  refine Safe.bind D.refl (R.claims now t ht) ?_
  rintro claimed u ⟨hu, hclaimed⟩
  cases claimed with
  | error err => exact safe_ret_of_stable hu (R.idle.stable none) fun _ hv => hv
  | ok claim =>
    simp only
    split
    · exact safe_enrollClaimed D R runtime claim (hclaimed claim rfl)
    · exact safe_releaseClaim D R.idle claim _ hu

end Enroll

/-! ## Calls that change no configuration -/

/-- What a command that neither publishes, nor removes the lock, nor writes a claim is. -/
def Cmd.plain : Cmd → Prop
  | .save _ _ _ | .removeLock _ | .pairing (.writeClaim _ _ _ _) => False
  | _ => True

lemma within_serve (runtime : Nat) : (serve L runtime).Within Cmd.plain := by
  refine Prog.within_issue trivial fun read => ?_
  cases read with
  | error err => trivial
  | ok config =>
    simp only
    split
    · trivial
    · cases configuredPeers L config.peers with
      | error message => trivial
      | ok peers => exact Prog.within_issue trivial fun _ => trivial

lemma within_accept (P : Primitives) (runtime : Nat) (settings : Relay.Settings) (fuel : Nat)
    (request : Relay.IngressRequest) (now : Time) :
    (accept P runtime settings fuel request now).Within Cmd.plain := by
  unfold accept
  split
  · refine Prog.within_issue trivial ?_
    rintro ⟨found, revokedBefore⟩
    refine Prog.Within.bind (Prog.within_embed fun _ => trivial) fun result => ?_
    split
    · exact Prog.within_issue trivial fun _ => trivial
    · trivial
  · trivial

end AgentBell.App
