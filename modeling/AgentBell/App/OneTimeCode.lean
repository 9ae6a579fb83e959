import AgentBell.App.Transactions
import AgentBell.Relay.Receipts

/-!
# One peer for each pairing code

An enrollment claims its code for two minutes, adds its peer to `relay.json`, and then uses the
code up.  A claim that is written while a peer enrolled with the code is in `relay.json`, or
while the call that claimed the code before is still running, can add a second peer.  These are
the only ways: in every run without such claims no code has two peers.
-/

namespace AgentBell.App

open Interleaving

open Relay (Primitives PairingCmd PairingClaim)

open RemoteConfig (Libraries RelayConfig PeerChange PeerResult applyPeerChange relaySnapshot)

variable {config changed : RelayConfig} {peer : RemoteConfig.Peer} {i : Nat} {s v : Store}
  {L : Libraries} {x : Choice}

/-! ## Peers of a code -/

/-- How many peers in `relay.json` were enrolled with a code. -/
def enrolled (id : String) : Option RelayConfig → Nat
  | none => 0
  | some config => config.peers.countP fun peer => peer.enrollmentID = id

/-- No code has two peers.  Peers without an enrollment id were not enrolled with a code. -/
def OnePeerPerCode (relay : Option RelayConfig) : Prop :=
  ∀ id, id ≠ "" → enrolled id relay ≤ 1

/-- Adding a peer adds one peer of its code. -/
lemma enrolled_added {added : RelayConfig} (hadded : added.peers = config.peers ++ [peer])
    (id : String) : enrolled id (some added) =
      enrolled id (some config) + if peer.enrollmentID = id then 1 else 0 := by
  simp [enrolled, hadded, List.countP_append, List.countP_singleton]

/-- Revoking a peer changes no code. -/
lemma enrolled_revoked {left right : List RemoteConfig.Peer}
    (hpeers : config.peers = left ++ peer :: right)
    (hchanged : changed.peers = left ++ { peer with revoked := true } :: right) (id : String) :
    enrolled id (some changed) = enrolled id (some config) := by
  simp [enrolled, hpeers, hchanged, List.countP_append, List.countP_cons]

/-- Removing peers adds none. -/
lemma enrolled_removed {keep : RemoteConfig.Peer → Bool}
    (hchanged : changed.peers = config.peers.filter keep) (id : String) :
    enrolled id (some changed) ≤ enrolled id (some config) := by
  simp only [enrolled, hchanged]
  exact List.Sublist.countP_le List.filter_sublist

/-! ## The contract of the calls -/

/-- In which stores process `i` publishes `relay.json`: the peers of a code do not become more,
except that the claimant of a code without peers may add one. -/
def Cmd.Admits (i : Nat) : Cmd → Store → Prop
  | .save _ config _, s => ∀ id, enrolled id (some config) ≤ enrolled id s.relay ∨
      (s.pairings.claimants.lookup id = some i ∧ enrolled id s.relay = 0 ∧
        enrolled id (some config) ≤ 1)
  | .pairing (.writeClaim process _ _ _), _ => process = i
  | _, _ => True

/-- A claim is written while no peer enrolled with its code is in `relay.json`. -/
def claimsUnused (_ : Choice) : Cmd → Store → Prop
  | .pairing (.writeClaim _ _ _ record), s => enrolled record.id s.relay = 0
  | _, _ => True

/-- Whether a call enrolls a peer. -/
def Call.Enrolls : Call → Prop
  | .enroll _ _ _ => True
  | _ => False

/-- What an enrollment by process `i` expects of the others: the codes it claimed last stay
claimed by it, and get no peer. -/
def ClaimKept (i : Nat) (k : Call) (s t : Store) : Prop :=
  k.Enrolls → ∀ id, s.pairings.claimants.lookup id = some i →
    t.pairings.claimants.lookup id = some i ∧ (enrolled id s.relay = 0 → enrolled id t.relay = 0)

lemma ClaimKept.refl (i : Nat) (k : Call) (s : Store) : ClaimKept i k s s :=
  fun _ _ h => ⟨h, fun h => h⟩

variable {k : Call}

lemma ClaimKept.trans {t : Store} (hst : ClaimKept i k s t) (htv : ClaimKept i k t v) :
    ClaimKept i k s v := by
  intro hk id hs
  obtain ⟨ht, hcount⟩ := hst hk id hs
  obtain ⟨hv, hcount'⟩ := htv hk id ht
  exact ⟨hv, hcount' ∘ hcount⟩

/-- What a call of process `i` expects of the others. -/
structure OnceRely (i : Nat) (k : Call) (o : Option Cmd) (s t : Store) : Prop where
  lock : LockKept i o s t
  claim : ClaimKept i k s t
  once : OnePeerPerCode s.relay → OnePeerPerCode t.relay

/-- The contract of process `i`. -/
def onceContract (i : Nat) : Contract Cmd Store Call Unit where
  rest := fun _ _ => True
  rely := OnceRely i
  pre := fun _ c s => c.Owned i s ∧ c.Admits i s
  idle := fun _ _ => True
  done := fun _ _ _ => True

lemma onceContract_lawful (i : Nat) : (onceContract i).Lawful where
  rely_refl := fun k o s => ⟨LockKept.refl i o s, ClaimKept.refl i k s, id⟩
  rely_trans := fun _ _ _ _ _ hst htv =>
    ⟨hst.lock.trans htv.lock, hst.claim.trans htv.claim, htv.once ∘ hst.once⟩
  rest_refl := fun _ => trivial
  idle_stable := fun _ _ _ _ _ => trivial
  idle_of_done := fun _ _ _ _ => trivial

/-- The machine on which codes are claimed only while they have no peer. -/
noncomputable abbrev onceMachine (L : Libraries) : Machine Cmd Reply Store Choice :=
  (machine L).guard claimsUnused

/-! ## Steps -/

/-- A step of the pairing store changes the claimants only by writing a claim. -/
lemma claimants_of_pairingExec {y : Relay.PairingChoice} {c : PairingCmd}
    {s q : Relay.PairingStore} {r : Relay.PairingReply c}
    (h : Relay.pairingExec y c s = some (r, q)) :
    q.claimants = s.claimants ∨ ∃ process directory id record,
      c = .writeClaim process directory id record ∧
      q.claimants = s.claimants.insert record.id process := by
  cases c with
  | writeClaim process directory id record =>
    cases y <;> cases h
    · exact .inr ⟨process, directory, id, record, rfl, rfl⟩
    · exact .inl rfl
    · exact .inl rfl
  | create id record =>
    cases y with
    | works | failsAfter =>
      simp only [Relay.pairingExec] at h
      split at h <;> cases h <;> exact .inl rfl
    | failsBefore =>
      cases h
      exact .inl rfl
    | _ => cases h
  | move source destination id =>
    have hmove : ∀ moved, s.move source destination id = some moved →
        moved.claimants = s.claimants := by
      intro moved hmoved
      obtain ⟨record, -, rfl⟩ := Option.map_eq_some_iff.mp hmoved
      rfl
    cases y with
    | works =>
      simp only [Relay.pairingExec] at h
      split at h
      · rename_i moved hmoved
        cases h
        exact .inl (hmove _ hmoved)
      · cases h
        exact .inl rfl
    | failsBefore =>
      cases h
      exact .inl rfl
    | failsAfter =>
      cases h
      cases hmoved : s.move source destination id with
      | none => exact .inl rfl
      | some moved => exact .inl (hmove moved hmoved)
    | _ => cases h
  | clock | newCode | randomHex | lock | unlock | read | stat | write =>
    cases y <;> cases h <;> exact .inl rfl

variable {c : Cmd} {r : Reply c}

/-- A step changes `relay.json` only by publishing it. -/
lemma relay_of_exec (h : exec L x c s = some (r, v)) :
    v.relay = s.relay ∨ ∃ token config revokes, c = .save token config revokes ∧
      v = s.publish config revokes := by
  cases storeEffect_of_exec h with
  | published token config revokes => exact .inr ⟨token, config, revokes, rfl, rfl⟩
  | _ => exact .inl rfl

/-- Every step that a call may make keeps one peer for each code. -/
lemma onePeerPerCode_of_exec (hs : OnePeerPerCode s.relay) (hadmits : c.Admits i s)
    (h : exec L x c s = some (r, v)) : OnePeerPerCode v.relay := by
  rcases relay_of_exec h with hsame | ⟨token, config, revokes, rfl, rfl⟩
  · rwa [hsame]
  · intro id hid
    rcases hadmits id with hle | ⟨-, -, hone⟩
    · exact hle.trans (hs id hid)
    · exact hone

/-- What the pairing store records as claimed changes only when a claim is written. -/
lemma claimants_of_exec (h : exec L x c s = some (r, v)) :
    v.pairings.claimants = s.pairings.claimants ∨ ∃ process directory id record,
      c = .pairing (.writeClaim process directory id record) ∧ v.relay = s.relay ∧
      v.pairings.claimants = s.pairings.claimants.insert record.id process := by
  cases storeEffect_of_exec h with
  | paired command y r q result =>
    rcases claimants_of_pairingExec result with hsame | ⟨process, directory, id, record, rfl, hnew⟩
    · exact .inl hsame
    · exact .inr ⟨process, directory, id, record, rfl, rfl, hnew⟩
  | _ => exact .inl rfl

/-- What one process does keeps the claims of another one, when it writes no claim of a code that
the other one claimed last. -/
lemma claimKept_of_exec {j : Nat} (hji : j ≠ i) (hadmits : c.Admits i s)
    (hclaims : ∀ process directory id record,
      c = .pairing (.writeClaim process directory id record) → k.Enrolls →
      s.pairings.claimants.lookup record.id ≠ some j) (h : exec L x c s = some (r, v)) :
    ClaimKept j k s v := by
  intro hk id hid
  rcases claimants_of_exec h with hsame | ⟨process, directory, name, record, rfl, hrelay, hnew⟩
  · refine ⟨by rw [hsame]; exact hid, fun hnone => ?_⟩
    rcases relay_of_exec h with hrelay | ⟨token, config, revokes, rfl, rfl⟩
    · rwa [hrelay]
    · rcases hadmits id with hle | ⟨hclaimed, -⟩
      · exact Nat.le_zero.mp (hnone ▸ hle)
      · exact absurd (Option.mem_unique hid hclaimed) hji
  · have hne : id ≠ record.id := by
      rintro rfl
      exact hclaims process directory name record rfl hk hid
    refine ⟨?_, fun hnone => by rwa [hrelay]⟩
    rw [hnew, AList.lookup_insert_ne hne]
    exact hid

/-! ## The calls -/

section Calls

variable {L : Libraries} {i : Nat} {k : Call} {α : Type} {s v : Store} {p : Relay.PairingProg α}
  {peerID : String} {config : RelayConfig} {result : PeerResult} {x : Choice} {c : PairingCmd}
  {r : Relay.PairingReply c} {A : Store → Prop}

lemma onceRely_refl (o : Option Cmd) (s : Store) : OnceRely i k o s s :=
  ⟨LockKept.refl i o s, ClaimKept.refl i k s, id⟩

/-- A call of process `i` among the others. -/
noncomputable abbrev onceSide (L : Libraries) (i : Nat) (k : Call) : Side Store :=
  ⟨onceMachine L, OnceRely i k, fun c s => c.Owned i s ∧ c.Admits i s⟩

lemma once_discipline : Discipline L (onceSide L i k) i where
  sub := fun _ _ _ _ _ h => (Machine.guard_exec.mp h).2
  locks := fun _ _ _ _ _ hc h => holder_of_exec hc (Machine.guard_exec.mp h).2
  refl := onceRely_refl
  lock := fun _ _ _ h => h.lock
  allowed := fun c _ hc h => ⟨h, by cases c <;> trivial⟩

/-- What every call keeps. -/
def Once (s : Store) : Prop := OnePeerPerCode s.relay

/-- What an enrollment knows from its claim until it adds its peer. -/
structure HoldsClaim (i : Nat) (id : String) (s : Store) : Prop where
  once : Once s
  claimed : s.pairings.claimants.lookup id = some i
  unused : enrolled id s.relay = 0

lemma kept_once : Kept (OnceRely i k) Once where
  stable := fun _ _ _ hs hst => hst.once hs
  holder := fun _ _ h => h

lemma kept_holdsClaim (hk : k.Enrolls) (id : String) : Kept (OnceRely i k) (HoldsClaim i id) where
  stable := fun _ _ _ hs hst =>
    ⟨hst.once hs.once, (hst.claim hk id hs.claimed).1, (hst.claim hk id hs.claimed).2 hs.unused⟩
  holder := fun _ _ h => ⟨h.once, h.claimed, h.unused⟩

/-- A call of process `i` that runs as its contract says. -/
abbrev OnceSafe (L : Libraries) (i : Nat) (k : Call) {α : Type} (post : α → Store → Prop)
    (p : RelayProg α) (s : Store) : Prop :=
  (onceSide L i k).Safe post p s

/-- A result that is returned while no code has two peers. -/
lemma onceSafe_return (a : α) (hs : Once s) :
    OnceSafe L i k (fun _ t => Once t) (Prog.ret a : RelayProg α) s :=
  safe_ret_of_stable hs (kept_once.stable none) fun _ ht => ht

/-- A pairing program that writes no claim. -/
lemma onceSafe_onPairings (hp : Claimless p) (hs : Once s) :
    OnceSafe L i k (fun _ t => Once t) (onPairings p) s := by
  refine safe_onPairings hp once_discipline kept_once ?_ (fun _ _ _ _ _ _ ht _ => ht) hs
  intro c t hc
  cases c with
  | writeClaim => cases hc
  | _ => exact ⟨trivial, trivial⟩

lemma sustained_once : Sustained (onceSide L i k) Once := ⟨kept_once, onceSafe_onPairings⟩

/-- Only adding a peer gives a code a further one. -/
lemma enrolled_le_of_applyPeerChange {change : PeerChange} (haction : change.action ≠ .add)
    (h : applyPeerChange L (relaySnapshot L config) change = .ok result) (id : String) :
    enrolled id (some result.after.config) ≤ enrolled id (some config) := by
  obtain ⟨hchanged, -⟩ := RemoteConfig.changed_of_applyPeerChange h
  generalize hafter : result.after.config.peers = peers at hchanged
  cases hchanged with
  | added peer action => exact absurd action haction
  | revoked left right peer action hid active hpeers =>
    exact (enrolled_revoked hpeers hafter id).le
  | removed => exact enrolled_removed hafter id

/-- The rules under which the configuration gets no further peer of any code. -/
lemma shrink_rules {change : PeerChange} (haction : change.action ≠ .add) :
    ChangeRules L (onceSide L i k) i change Once Once fun _ _ => Once where
  before := kept_once
  after := fun _ _ => kept_once
  either := kept_once
  of_before := fun _ h => h
  of_after := fun _ _ _ h => h
  allowed := fun config result s h =>
    ⟨h.inside.2.1, fun id => .inl (h.relay ▸ enrolled_le_of_applyPeerChange haction h.changed id)⟩
  published := fun config result s x r v h _ hv => by
    rw [hv]
    intro id hid
    have hold := h.inside.1 id hid
    rw [h.relay] at hold
    exact (enrolled_le_of_applyPeerChange haction h.changed id).trans hold

/-- The rules under which the claimant of a code adds its peer. -/
lemma admit_rules {id : String} (hpeer : peer.enrollmentID = id) (hk : k.Enrolls) :
    ChangeRules L (onceSide L i k) i (addChange peer) (HoldsClaim i id) Once fun _ _ => Once := by
  have hcount : ∀ config result,
      applyPeerChange L (relaySnapshot L config) (addChange peer) = .ok result →
      ∀ other, enrolled other (some result.after.config) =
        enrolled other (some config) + if id = other then 1 else 0 := by
    intro config result hresult other
    obtain ⟨hchanged, -⟩ := RemoteConfig.changed_of_applyPeerChange hresult
    generalize hafter : result.after.config.peers = peers at hchanged
    cases hchanged with
    | revoked left right peer action => cases action
    | removed action => cases action
    | added given action isGiven =>
      obtain rfl : peer = given := Option.some.inj isGiven
      rw [enrolled_added hafter, hpeer]
  have hallowed : ∀ config result s, Publishing L i (addChange peer) (HoldsClaim i id) config
      result s → Cmd.Admits i (publication L i (addChange peer) config result) s := by
    intro config result s h other
    have hother := hcount config result h.changed other
    have hs := h.inside.1
    by_cases hid : id = other
    · subst hid
      have hnone := hs.unused
      rw [h.relay] at hnone
      exact .inr ⟨hs.claimed, hs.unused, by simp [hother, hnone]⟩
    · rw [if_neg hid] at hother
      exact .inl (by rw [h.relay, hother, Nat.add_zero])
  exact
    { before := kept_holdsClaim hk id
      after := fun _ _ => kept_once
      either := kept_once
      of_before := fun _ h => h.once
      of_after := fun _ _ _ h => h
      allowed := fun config result s h => ⟨h.inside.2.1, hallowed config result s h⟩
      published := fun config result s x r v h hx _ =>
        onePeerPerCode_of_exec (L := L) h.inside.1.once (hallowed config result s h)
          (Machine.guard_exec.mp hx).2 }

/-- Removing the peer again that was added. -/
lemma onceSafe_compensate (peer : RemoteConfig.Peer) (added : Option PeerResult) (hs : Once s) :
    OnceSafe L i k (fun _ t => Once t) (compensate L i peer added) s := by
  cases added with
  | none => exact onceSafe_return _ hs
  | some result =>
    refine Safe.bind onceRely_refl
      (safe_apply once_discipline (shrink_rules nofun) hs) ?_
    exact fun _ t ht => onceSafe_return _ ht.1

/-! ### Claiming a code -/

/-- A pairing program of process `i` that runs as the contract says. -/
abbrev ClaimSafe (L : Libraries) (i : Nat) (k : Call) {α : Type} (post : α → Store → Prop)
    (p : Relay.PairingProg α) (s : Store) : Prop :=
  Safe ((onceMachine L).comap Cmd.pairing fun _ r => r)
    (fun o => OnceRely i k (o.map Cmd.pairing))
    (fun c s => (Cmd.pairing c).Owned i s ∧ (Cmd.pairing c).Admits i s) post p s

/-- What a command does for a pairing program. -/
lemma exec_of_comap
    (h : ((onceMachine L).comap Cmd.pairing fun _ r => r).exec x c s = some (r, v)) :
    claimsUnused x (.pairing c) s ∧ exec L x (.pairing c) s = some (r, v) := by
  simp only [Machine.comap, Option.map_eq_some_iff] at h
  obtain ⟨⟨r', v'⟩, hexec, heq⟩ := h
  cases heq
  exact Machine.guard_exec.mp hexec

/-- An assertion that speaks of the claimants and of `relay.json` only. -/
structure Enduring (i : Nat) (k : Call) (A : Store → Prop) : Prop
    extends Kept (OnceRely i k) A where
  frame : ∀ s q, q.claimants = s.pairings.claimants → A s → A { s with pairings := q }

lemma enduring_once : Enduring i k Once where
  toKept := kept_once
  frame := fun _ _ _ h => h

lemma enduring_holdsClaim (hk : k.Enrolls) (id : String) : Enduring i k (HoldsClaim i id) where
  toKept := kept_holdsClaim hk id
  frame := fun _ _ hq h => ⟨h.once, hq ▸ h.claimed, h.unused⟩

/-- A command that writes no claim keeps such an assertion. -/
lemma Enduring.exec (hA : Enduring i k A) (hc : claims c = false) (hs : A s)
    (h : ((onceMachine L).comap Cmd.pairing fun _ r => r).exec x c s = some (r, v)) : A v := by
  obtain ⟨y, q, hq, rfl⟩ := exec_pairing (exec_of_comap h).2
  rcases claimants_of_pairingExec hq with hsame | ⟨process, directory, id, record, rfl, -⟩
  · exact hA.frame s q hsame hs
  · cases hc

/-- A command that writes no claim is always allowed. -/
lemma admits_of_claims (hc : claims c = false) (s : Store) :
    (Cmd.pairing c).Owned i s ∧ (Cmd.pairing c).Admits i s := by
  cases c with
  | writeClaim => cases hc
  | _ => exact ⟨trivial, trivial⟩

/-- A program that writes no claim keeps such an assertion. -/
lemma claimSafe_of_claimless (hp : Claimless p) (hA : Enduring i k A) (hs : A s) :
    ClaimSafe L i k (fun _ t => A t) p s :=
  hp.safe (fun _ => hA.stable _) (fun _ t hc _ => admits_of_claims hc t)
    (fun _ _ _ _ _ hc ht hx => hA.exec hc ht hx) hs

/-- A command that writes no claim, and what follows it. -/
lemma claimSafe_cmd {post : α → Store → Prop} (hc : claims c = false)
    {next : Relay.PairingReply c → Relay.PairingProg α} (hA : Enduring i k A) (hs : A s)
    (hnext : ∀ r t, A t → ClaimSafe L i k post (next r) t) :
    ClaimSafe L i k post ((Prog.issue c).bind next) s :=
  safe_cmd_of_stable hs (hA.stable _) (fun t _ => admits_of_claims hc t)
    fun _ r _ v ht hx => hnext r v (hA.exec hc ht hx)

/-- What claiming a code gives: the code is claimed by this process, and has no peer. -/
def Claimed (i : Nat) (r : Except Relay.PairingError PairingClaim) (t : Store) : Prop :=
  Once t ∧ ∀ claim, r = .ok claim → HoldsClaim i claim.record.id t

lemma claimed_error {err : Relay.PairingError} {t : Store} (ht : Once t) :
    Claimed i (.error err) t := ⟨ht, nofun⟩

lemma claimSafe_error (err : Relay.PairingError) (hs : Once s) : ClaimSafe L i k (Claimed i)
      (Prog.ret (.error err) : Relay.PairingProg (Except Relay.PairingError PairingClaim)) s :=
  safe_ret_of_stable hs (kept_once.stable _) fun _ ht => claimed_error ht

/-- Writing a claim. -/
lemma claimSafe_writeClaim (hk : k.Enrolls) (id : String) (record : Relay.PairingRecord)
    (hs : Once s) : ClaimSafe L i k (Claimed i) (Relay.writeClaim i id record) s := by
  have hreturn : ∀ t, HoldsClaim i record.id t → ClaimSafe L i k (Claimed i)
      (Prog.ret (.ok ⟨record, record.claimID⟩)) t := by
    intro t ht
    refine safe_ret_of_stable ht ((enduring_holdsClaim hk record.id).stable _) fun u hu => ?_
    refine ⟨hu.once, fun claim h => ?_⟩
    cases h
    exact hu
  refine claimSafe_cmd rfl enduring_once hs fun found t ht => ?_
  simp only [Prog.bind_eq, Prog.issue_bind, Prog.pure_eq]
  refine safe_cmd_of_stable ht (kept_once.stable _) (fun _ _ => ⟨trivial, rfl⟩) ?_
  intro x written u v hu hx
  obtain ⟨hunused, hexec⟩ := exec_of_comap hx
  obtain ⟨y, q, hq, rfl⟩ := exec_pairing hexec
  have hclaim : written = true → HoldsClaim i record.id { u with pairings := q } := by
    intro hwritten
    cases y <;> cases hq
    · exact ⟨hu, AList.lookup_insert _, hunused⟩
    · cases hwritten
    · cases hwritten
  cases written with
  | false => exact claimSafe_error _ hu
  | true =>
    have hheld := hclaim rfl
    simp only [if_true]
    split
    · exact hreturn _ hheld
    · refine claimSafe_cmd rfl (enduring_holdsClaim hk record.id) hheld fun moved w hw => ?_
      cases moved with
      | false => exact claimSafe_error _ hw.once
      | true => exact hreturn w hw

/-- The part of `Claim` under the storage lock. -/
lemma claimSafe_claimLocked (hk : k.Enrolls) (codeHash id : String) (now : Time) (lease : Duration)
    (hs : Once s) : ClaimSafe L i k (Claimed i) (Relay.claimLocked i codeHash id now lease) s := by
  refine Safe.bind (fun o => onceRely_refl _)
    (claimSafe_of_claimless (claimless_readPairing .history id) enduring_once hs) ?_
  intro history t ht
  split
  · exact claimSafe_error _ ht
  · exact claimSafe_error _ ht
  · refine Safe.bind (fun o => onceRely_refl _)
      (claimSafe_of_claimless (claimless_claimableRecord codeHash id now) enduring_once ht) ?_
    intro found u hu
    split
    · exact claimSafe_error _ hu
    · split
      · exact claimSafe_error _ hu
      · refine claimSafe_cmd rfl enduring_once hu fun claimID v hv => ?_
        exact claimSafe_writeClaim hk id _ hv

/-- Claiming a code. -/
lemma claimSafe_claim (hk : k.Enrolls) (P : Primitives) (code : String) (now : Time)
    (lease : Duration) (hs : Once s) :
    ClaimSafe L i k (Claimed i) (Relay.claim P i code now lease) s := by
  unfold Relay.claim
  split
  · exact claimSafe_error _ hs
  split
  · exact claimSafe_error _ hs
  split
  · exact claimSafe_error _ hs
  refine claimSafe_cmd rfl enduring_once hs fun locked t ht => ?_
  split
  · refine Safe.bind (fun o => onceRely_refl _) (claimSafe_claimLocked hk _ _ now lease ht) ?_
    intro result u hu
    have hresult : Enduring i k (Claimed i result) :=
      { stable := fun o v w hv hvw => ⟨hvw.once hv.1, fun claim h =>
          (kept_holdsClaim hk claim.record.id).stable o v w (hv.2 claim h) hvw⟩
        holder := fun v h hv => ⟨hv.1, fun claim heq =>
          (kept_holdsClaim hk claim.record.id).holder v h (hv.2 claim heq)⟩
        frame := fun v q hq hv => ⟨hv.1, fun claim heq =>
          (enduring_holdsClaim hk claim.record.id).frame v q hq (hv.2 claim heq)⟩ }
    refine claimSafe_cmd rfl hresult hu fun _ v hv => ?_
    exact safe_ret_of_stable hv (hresult.stable _) fun _ h => h
  · exact claimSafe_error _ ht

/-- The rules under which a peer is enrolled. -/
lemma once_enrollRules (P : Primitives) {request : PairEnrollmentRequest} (hk : k.Enrolls) :
    EnrollRules P L (onceSide L i k) i request Once Once
      (fun claim => HoldsClaim i claim.record.id) fun _ _ => Once where
  idle := sustained_once
  ready := fun _ _ => sustained_once
  done := kept_once
  claims := fun now s hs => Safe.of_comap (claimSafe_claim hk P request.code now (2 * minute) hs)
  add := fun _ => (admit_rules rfl hk).transaction once_discipline
  listed := fun _ _ _ hs _ _ => hs
  compensates := fun _ added _ _ hs => onceSafe_compensate _ added hs
  unusable := fun _ _ _ _ _ _ hs => hs
  usable := by
    intro claim added runtime peer s hpeer hs
    refine ⟨⟨trivial, trivial⟩, fun x r v hx => ?_⟩
    cases (Machine.guard_exec.mp hx).2
    exact hs

/-- A call of commands that change no configuration. -/
lemma onceSafe_of_plain {p : RelayProg α} (hp : p.Within Cmd.plain) (hs : Once s) :
    OnceSafe L i k (fun _ t => Once t) p s := by
  have hfree : ∀ (c : Cmd) (s : Store), c.plain → c.Owned i s ∧ c.Admits i s := by
    intro c s hc
    cases c with
    | save | removeLock => cases hc
    | pairing c =>
      cases c with
      | writeClaim => cases hc
      | _ => exact ⟨trivial, trivial⟩
    | _ => exact ⟨trivial, trivial⟩
  refine hp.safe (fun o => kept_once.stable o) (fun c t hc _ => hfree c t hc) ?_ hs
  exact fun x c t r v hc ht hx => onePeerPerCode_of_exec ht (hfree c t hc).2
    (Machine.guard_exec.mp hx).2

/-- The other calls: none of them gives a code a further peer. -/
lemma onceSafe_body (P : Primitives) (k : Call) (hs : Once s) :
    OnceSafe L i k (fun _ _ => True) (body P L i k ()) s := by
  have hend : ∀ {α : Type} {p : RelayProg α}, OnceSafe L i k (fun _ t => Once t) p s →
      OnceSafe L i k (fun _ _ => True) (p.bind fun _ => Prog.ret ()) s := by
    intro α p hp
    exact Safe.bind onceRely_refl hp fun _ _ _ => safe_ret fun _ _ => trivial
  cases k with
  | configure value dryRun =>
    refine hend (safe_initializeRelay once_discipline kept_once ?_ ?_ dryRun hs)
    · exact fun t ht => ⟨ht.2.1, fun id => .inl (Nat.zero_le _)⟩
    · exact fun t _ id _ => Nat.zero_le 1
  | createPairing policy ttl now =>
    exact hend (onceSafe_onPairings (claimless_create P policy ttl now) hs)
  | serve runtime => exact hend (onceSafe_of_plain (within_serve runtime) hs)
  | accept runtime settings fuel request now =>
    exact hend (onceSafe_of_plain (within_accept P runtime settings fuel request now) hs)
  | enroll runtime expected request =>
    have hk : (Call.enroll runtime expected request).Enrolls := trivial
    refine hend ((safe_enroll once_discipline (once_enrollRules P hk) runtime expected hs).weaken
      (fun _ _ h => h) ?_)
    rintro (_ | _) t ht <;> exact ht
  | revoke peerID dryRun =>
    refine hend ?_
    refine Safe.bind onceRely_refl
      (safe_apply once_discipline (shrink_rules nofun) hs) ?_
    rintro result t ⟨ht, -⟩
    cases result with
    | error err => exact onceSafe_return _ ht
    | ok result =>
      simp only
      split
      · refine safe_cmd_of_stable ht (kept_once.stable _) (fun _ _ => ⟨trivial, trivial⟩) ?_
        intro x r u v hu hx
        cases (Machine.guard_exec.mp hx).2
        exact onceSafe_return _ hu
      · exact onceSafe_return _ ht

end Calls

/-! ## Runs -/

/-- A claim of a code is written only while no peer enrolled with the code is in `relay.json` and
the enrollment of another process that claimed the code last is over; and the lock is respected. -/
structure ClaimsOnce (e : Event Call Choice Nat) (c : RelayState) : Prop where
  lock : LockRespected e c
  unused : ∀ i x k process directory id record next, e = .step i x →
    c.procs i =
      some (.busy k (.cmd (.pairing (.writeClaim process directory id record)) next)) →
    enrolled record.id c.store.relay = 0
  finished : ∀ i x k process directory id record next, e = .step i x →
    c.procs i =
      some (.busy k (.cmd (.pairing (.writeClaim process directory id record)) next)) →
    ∀ j k' p, j ≠ i → c.store.pairings.claimants.lookup record.id = some j →
      c.procs j = some (.busy k' p) → ¬ k'.Enrolls

/-- No code has two peers and every process keeps its contract. -/
def OnceInvariant (L : Libraries) (c : RelayState) : Prop :=
  Once c.store ∧ c.Sound (onceMachine L) onceContract

variable {e : Event Call Choice Nat}

/-- Every event keeps one peer for each code, when codes are claimed once at a time. -/
lemma OnceInvariant.next {P : Primitives} {c c' : RelayState} (h : OnceInvariant L c)
    (honce : ClaimsOnce e c) (he : (relay P L).next e c = some c') : OnceInvariant L c' := by
  obtain ⟨hstore, hsound⟩ := h
  have hguard : ∀ i x k o next, e = .step i x → c.procs i = some (.busy k (.cmd o next)) →
      claimsUnused x o c.store := by
    intro i x k o next hstep hi
    cases o with
    | pairing command =>
      cases command with
      | writeClaim process directory id record =>
        exact honce.unused i x k process directory id record next hstep hi
      | _ => trivial
    | _ => trivial
  refine ⟨?_, Config.Sound.next hsound onceContract_lawful
    (Protocol.guard_next he hguard) (fun _ _ _ => trivial) ?_ ?_⟩
  · cases Protocol.effect_of_next he with
    | issued i x k o next r v runs result =>
      exact onePeerPerCode_of_exec hstore (hsound.pre onceContract_lawful runs).2 result
    | _ => exact hstore
  · intro i k m _ _ _
    exact onceSafe_body P k hstore
  · intro i x k o next r v hstep hi hpre hx j a hji hj
    have hexec := (Machine.guard_exec.mp hx).2
    cases a with
    | idle m => trivial
    | busy k' p =>
      refine ⟨lockKept_of_exec hji (hstep ▸ honce.lock) hj hpre.1 hexec,
        claimKept_of_exec hji hpre.2 ?_ hexec,
        fun hs => onePeerPerCode_of_exec hs hpre.2 hexec⟩
      rintro process directory id record rfl hk hlookup
      exact honce.finished i x k process directory id record next hstep hi j k' p hji hlookup hj hk

/-- When a code is claimed again only while it has no peer and the enrollment that claimed it
before is over, no pairing code ever has two peers in `relay.json`. -/
theorem one_peer_per_code (P : Primitives) (L : Libraries) (initial : Option RelayConfig)
    (hinitial : OnePeerPerCode initial) {c : RelayState}
    (h : Reachable (relay P L) ClaimsOnce (relayStart initial) c) {id : String} (hid : id ≠ "") :
    enrolled id c.store.relay ≤ 1 := by
  have hinvariant : OnceInvariant L c := by
    have hstart : OnceInvariant L (relayStart initial) :=
      ⟨hinitial, fun i a hi => by cases hi⟩
    exact h.invariant (OnceInvariant L) hstart fun c c' e hc honce he => hc.next honce he
  exact hinvariant.1 id hid

/-! ## Sample runs -/

open RemoteConfig (sampleLibraries sampleConfig)

open Relay (hashingPrimitives)

/-- The sample code. -/
def sampleCode : String := "AGBR-0123456Z-89ABCDEF-GHJKMNPQ-RSTVWXYZ"

/-- The id of the record of the sample code. -/
def sampleCodeID : String := hashingPrimitives.sha256 (Relay.utf8 sampleCode)

/-- A client that enrolls with the sample code. -/
def devbox : PairEnrollmentRequest where
  code := sampleCode
  peerID := "peer_a2438cecf4691b94a9fe1e0011c3b6cd"
  originID := "devbox"
  publicKey := List.replicate 32 0

/-- Another client that enrolls with it. -/
def laptop : PairEnrollmentRequest where
  code := sampleCode
  peerID := "peer_e6b9b28958f3040533dc3cb43b49a809"
  originID := "laptop"
  publicKey := List.replicate 32 1

/-- `n` steps of process `i` that work. -/
def worksOf (i n : Nat) : List (Event Call Choice Nat) := List.replicate n (.step i .works)

/-- `n` steps of process `i` on the pairing store that work. -/
def pairingWorks (i n : Nat) : List (Event Call Choice Nat) :=
  List.replicate n (.step i (.pairing .works))

/-- The sample code is created. -/
def createRun : List (Event Call Choice Nat) :=
  [.spawn 0, .call 0 (.createPairing ⟨"team", ["codex"], ["ssh"]⟩ (30 * minute) 1),
    .step 0 (.pairing (.text sampleCode))] ++ pairingWorks 0 1 ++ worksOf 0 1

/-- Process `i` starts to enroll a client. -/
def enrollRun (i : Nat) (request : PairEnrollmentRequest) (expected : Expected) (now : Time) :
    List (Event Call Choice Nat) :=
  [.spawn i, .call i (.enroll 0 expected request), .step i (.pairing (.time now))]

/-- A client claims the code and is added, and its call is killed before the code is used up;
after the lease another client claims the code. -/
def twiceRun : List (Event Call Choice Nat) :=
  createRun ++ enrollRun 1 devbox {} 2 ++ pairingWorks 1 4 ++
    [.step 1 (.pairing (.text "c"))] ++ pairingWorks 1 4 ++ worksOf 1 6 ++ [.kill 1] ++
    enrollRun 2 laptop {} (3 * minute) ++ pairingWorks 2 3 ++
    [.step 2 (.pairing (.text "d"))] ++ pairingWorks 2 3 ++ worksOf 2 3

/-- The configuration after the second client was added. -/
def twiceEnd : RelayState :=
  (relay hashingPrimitives sampleLibraries).endOf (fun _ _ => true) twiceRun
    (relayStart (some (sampleConfig [])))

/-- One pairing code admits two peers when the first call is killed before it uses the code up. -/
theorem two_peers_with_one_code :
    Reachable (relay hashingPrimitives sampleLibraries) (fun _ _ => True)
      (relayStart (some (sampleConfig []))) twiceEnd ∧
      enrolled sampleCodeID twiceEnd.store.relay = 2 := by
  have hrun : ((relay hashingPrimitives sampleLibraries).runIf (fun _ _ => true) twiceRun
      (relayStart (some (sampleConfig [])))).any (fun c =>
        enrolled sampleCodeID c.store.relay = 2) = true := by
    decide +kernel
  obtain ⟨hreach, hgood⟩ :=
    reachable_endOf (fun _ _ _ => trivial) .start hrun (rfl : twiceEnd = _)
  exact ⟨hreach, of_decide_eq_true hgood⟩

/-- Whether an event claims a code only while it may. -/
def claimsOnce (e : Event Call Choice Nat) (c : RelayState) : Bool :=
  match e with
  | .step _ .takesOver => false
  | .step i _ =>
    match c.procs i with
    | some (.busy _ (.cmd (.pairing (.writeClaim _ _ _ record)) _)) =>
      enrolled record.id c.store.relay = 0 &&
        match c.store.pairings.claimants.lookup record.id with
        | none => true
        | some j =>
          match c.procs j with
          | some (.busy _ _) => j = i
          | _ => true
    | _ => true
  | _ => true

lemma claimsOnce_of_check {c : RelayState} (h : claimsOnce e c = true) : ClaimsOnce e c := by
  refine ⟨?_, ?_, ?_⟩
  · rintro i j rfl
    cases h
  · rintro i x k process directory id record next rfl hi
    cases x <;> simp [claimsOnce, hi] at h <;> exact h.1
  · rintro i x k process directory id record next rfl hi j k' p hji hlookup hj
    cases x <;> simp [claimsOnce, hi, hlookup, hj] at h <;> exact absurd h.2 hji

/-- A client claims the code and gives it back, since the policy is not what it expects; then
another client is enrolled with it. -/
def onceRun : List (Event Call Choice Nat) :=
  createRun ++ enrollRun 1 devbox { teamID := "other" } 2 ++
    pairingWorks 1 4 ++ [.step 1 (.pairing (.text "c"))] ++ pairingWorks 1 4 ++
    [.step 1 (.pairing (.time 3))] ++ pairingWorks 1 5 ++ worksOf 1 1 ++
    enrollRun 2 laptop {} 4 ++ pairingWorks 2 4 ++
    [.step 2 (.pairing (.text "d"))] ++ pairingWorks 2 4 ++ worksOf 2 6 ++
    [.step 2 (.pairing (.time 5))] ++ pairingWorks 2 5 ++ worksOf 2 2

/-- The configuration after the second client was enrolled. -/
def onceEnd : RelayState :=
  (relay hashingPrimitives sampleLibraries).endOf claimsOnce onceRun
    (relayStart (some (sampleConfig [])))

/-- A code that was given back admits the next client, and only this one. -/
theorem one_peer_after_release : Reachable (relay hashingPrimitives sampleLibraries) ClaimsOnce
      (relayStart (some (sampleConfig []))) onceEnd ∧
      enrolled sampleCodeID onceEnd.store.relay = 1 ∧
      ∀ id, id ≠ "" → enrolled id onceEnd.store.relay ≤ 1 := by
  have hrun : ((relay hashingPrimitives sampleLibraries).runIf claimsOnce onceRun
      (relayStart (some (sampleConfig [])))).any (fun c =>
        enrolled sampleCodeID c.store.relay = 1) = true := by
    decide +kernel
  obtain ⟨hreach, hgood⟩ :=
    reachable_endOf (fun _ _ => claimsOnce_of_check) .start hrun (rfl : onceEnd = _)
  exact ⟨hreach, of_decide_eq_true hgood, fun id hid => one_peer_per_code hashingPrimitives
    sampleLibraries (some (sampleConfig [])) (fun _ _ => Nat.zero_le 1) hreach hid⟩

end AgentBell.App
