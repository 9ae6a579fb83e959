import AgentBell.Relay.Receipts

/-!
# Sending a request again

A request is sent again after a first `Accept` of it has reserved its nonce and was cut or
failed before the receipt was committed.  The second `Accept` runs in a working environment:
links, locks and removals succeed, the random source gives an id that names no item, a marker
an earlier request has left is older than a second, and the wait for it passes its deadline
after a bounded number of polls.  Every such run ends, and it ends with an acknowledgement
exactly when the reservation of the nonce has expired and no receipt of another body is
pending; before that the nonce counts as used.
-/

namespace AgentBell.Queue

open Interleaving

open Relay (Recorded)

/-! ## Enqueue in a working environment -/

/-- The polls left after a choice, when a working environment makes it. -/
def works (c : Cmd) (x : Choice) (s : Store) (polls : Nat) : Option Nat :=
  match c, x with
  | .randomID, .id value => if value ∈ s.written then none else some polls
  | .keyStale _, .flag false => none
  | .deadlinePassed, .flag false =>
    match polls with
    | 0 => none
    | left + 1 => some left
  | _, _ => some polls

/-- The queue in a working environment. -/
def working : Machine Cmd Reply (Store × Nat) Choice := machine.limit works

section Working

variable {α : Type} {post : α → Store × Nat → Prop} {s : Store} {polls : Nat} {v : Store}
  {key : String} {x : Choice} {left fuel : Nat} {notification : Notification} {now : Time}

/-- A command that leaves nothing open. -/
lemma ensures_plain {c : Cmd} {next : Reply c → QueueProg α} {r : Reply c}
    (hexec : ∀ x, exec x c s = some (r, v)) (hworks : ∀ x, works c x s polls = some polls)
    (hnext : Ensures working post (next r) (v, polls)) :
    Ensures working post (.cmd c next) (s, polls) := by
  have hstep : ∀ x, working.exec x c (s, polls) = some (r, (v, polls)) :=
    fun x => Machine.limit_exec.mpr ⟨hworks x, hexec x⟩
  refine ensures_cmd (hstep .nothing) fun x r' v' hx => ?_
  rw [hstep x] at hx
  cases hx
  exact hnext

/-- Looking for the item of a marker changes nothing, and an item is found only by an id. -/
lemma ensures_reservedItemExists (id : String) (s : Store) (polls : Nat) :
    Ensures working (fun found t => t = (s, polls) ∧ (found = true → id ≠ ""))
      (reservedItemExists id) (s, polls) := by
  unfold reservedItemExists itemExists
  by_cases hid : id ≠ ""
  · rw [if_pos hid]
    have hret : ∀ found : Bool, Ensures working
        (fun found t => t = (s, polls) ∧ (found = true → id ≠ "")) (.ret found) (s, polls) :=
      fun found => ensures_ret ⟨rfl, fun _ => hid⟩
    refine ensures_plain (fun _ => rfl) (fun _ => rfl) ?_
    rw [Prog.ret_bind]
    split
    · exact hret true
    refine ensures_plain (fun _ => rfl) (fun _ => rfl) ?_
    rw [Prog.ret_bind]
    split
    · exact hret true
    refine ensures_plain (fun _ => rfl) (fun _ => rfl) ?_
    rw [Prog.ret_bind]
    split
    · exact hret true
    exact ensures_plain (fun _ => rfl) (fun _ => rfl) (hret _)
  · rw [if_neg hid]
    exact ensures_ret ⟨rfl, nofun⟩

/-- How the wait for the item of a marker ends: an item with an id is found, or the marker is
gone and the items are as before. -/
def WaitEnds (key : String) (s : Store) (result : Reservation) (t : Store) : Prop :=
  (∃ id, result = .durable id ∧ id ≠ "") ∨ result = .retry ∧ key ∉ t.keys ∧ s.SameItems t

/-- A marker without an item is dropped. -/
lemma ensures_dropStale (hkey : key ∈ s.keys) :
    Ensures working (fun result t => WaitEnds key s result t.1)
      (do
        match ← perform (.keyStale key) with
        | none => return .retry
        | some true =>
          perform (.removeKey key)
          return .retry
        | some false => return .failed "idempotency reservation is not durable yet")
      (s, polls) := by
  refine ensures_cmd (x := .flag true) (o := (some true, (s, polls)))
    (Machine.limit_exec.mpr ⟨rfl, by simp [exec, hkey]⟩) ?_
  rintro x stale ⟨v, left⟩ hx
  obtain ⟨hworks, hexec⟩ := Machine.limit_exec.mp hx
  cases x with
  | nothing | id | order => cases hexec
  | flag stale =>
    simp only [machine, exec, if_pos hkey] at hexec
    cases hexec
    cases stale with
    | false => cases hworks
    | true =>
      refine ensures_plain (fun _ => rfl) (fun _ => rfl) (ensures_ret (Or.inr ⟨rfl, ?_, ?_⟩))
      · simp
      · exact ⟨rfl, rfl, rfl, rfl, rfl⟩

/-- A poll of the deadline changes nothing and uses up one poll when it is early. -/
lemma deadlinePassed_working {passed : Bool}
    (h : working.exec x .deadlinePassed (s, polls) = some (passed, (v, left))) :
    passed = true ∧ (v, left) = (s, polls) ∨ passed = false ∧ v = s ∧ polls = left + 1 := by
  obtain ⟨hworks, hexec⟩ := Machine.limit_exec.mp h
  cases x with
  | nothing | id | order => cases hexec
  | flag value =>
    cases hexec
    cases passed with
    | true =>
      cases hworks
      exact Or.inl ⟨rfl, rfl⟩
    | false =>
      cases polls with
      | zero => cases hworks
      | succ polls =>
        cases hworks
        exact Or.inr ⟨rfl, rfl, rfl⟩

/-- The wait ends within the polls of the environment. -/
lemma ensures_waitForDurableReservation (key : String) (s : Store) (hfuel : polls < fuel) :
    Ensures working (fun result t => WaitEnds key s result t.1)
      (waitForDurableReservation key fuel) (s, polls) := by
  induction fuel generalizing polls with
  | zero => omega
  | succ fuel ih =>
    refine ensures_plain (fun _ => rfl) (fun _ => rfl) ?_
    cases hlookup : s.keys.lookup key with
    | none =>
      have habsent : key ∉ s.keys := AList.lookup_eq_none.mp hlookup
      exact ensures_ret (Or.inr ⟨rfl, habsent, .refl s⟩)
    | some file =>
      refine (ensures_reservedItemExists (file.content.getD "") s polls).bind ?_
      rintro found t ⟨rfl, hid⟩
      cases found with
      | true => exact ensures_ret (Or.inl ⟨_, rfl, hid rfl⟩)
      | false =>
        refine ensures_cmd (x := .flag true) (o := (true, (s, polls)))
          (Machine.limit_exec.mpr ⟨rfl, rfl⟩) ?_
        rintro x passed ⟨v, left⟩ hx
        rcases deadlinePassed_working hx with ⟨rfl, heq⟩ | ⟨rfl, heq, hleft⟩
        · cases heq
          exact ensures_dropStale (AList.lookup_isSome.mp (by rw [hlookup]; rfl))
        · cases heq
          exact ih (by omega)

/-- A marker that is not there is created, and the item is written. -/
lemma ensures_reserve_new {id : String} (hfuel : 0 < fuel) (hs : Recorded s) (hkey : key ∉ s.keys)
    (hid : id ∉ s.written) (henc : (newEnvelope id notification now).encodable = true) :
    Ensures working (fun result _ => result = some (.ok (id, false)))
      (reserve key id notification now fuel) (s, polls) := by
  obtain ⟨fuel, rfl⟩ : ∃ n, fuel = n + 1 := ⟨fuel - 1, by omega⟩
  unfold reserve
  have hcreate : ∀ x, exec x (.createKey key) s = some (some s.nextInode,
      { s with keys := s.keys.insert key ⟨s.nextInode, none⟩, nextInode := s.nextInode + 1 }) :=
    fun x => if_neg hkey
  refine ensures_plain hcreate (fun _ => rfl) ?_
  have hwrite : ∀ (x : Choice) (t : Store), t.keys.lookup key = some ⟨s.nextInode, none⟩ →
      exec x (.writeKey key s.nextInode id) t =
        some ((), { t with keys := t.keys.insert key ⟨s.nextInode, some id⟩ }) := by
    intro x t hlookup
    simp [exec, hlookup]
  refine ensures_plain (fun x => hwrite x _ (AList.lookup_insert _)) (fun _ => rfl) ?_
  have hnew : (Directory.pending, (⟨now, id⟩ : FileName)) ∉ s.files :=
    fun hmem => hid (hs _ _ hmem)
  have hstat : ∀ (x : Choice) (t : Store), t.files = s.files →
      exec x (.stat (.pending, ⟨now, id⟩)) t = some (false, t) := by
    intro x t hfiles
    simp [exec, hfiles, hnew]
  refine ensures_plain (fun x => hstat x _ rfl) (fun _ => rfl) ?_
  rw [write, henc]
  exact ensures_plain (fun _ => rfl) (fun _ => rfl) (ensures_ret rfl)

/-- The random source gives an id that names no item. -/
lemma randomID_working {id : String}
    (h : working.exec x .randomID (s, polls) = some (id, (v, left))) :
    id ≠ "" ∧ id ∉ s.written ∧ v = { s with issued := id :: s.issued } ∧ left = polls := by
  obtain ⟨hworks, hexec⟩ := Machine.limit_exec.mp h
  cases x with
  | nothing | flag | order => cases hexec
  | id value =>
    simp only [machine, exec] at hexec
    split at hexec
    · rename_i hfresh
      cases hexec
      simp only [works] at hworks
      split at hworks
      · cases hworks
      · rename_i hwritten
        cases hworks
        exact ⟨ne_empty_of_isRandomID hfresh.1, hwritten, rfl, rfl⟩
    · cases hexec

/-- `Enqueue` returns an id. -/
lemma ensures_enqueue (sha256 : String → String) (hfuel : polls + 2 < fuel) (hs : Recorded s)
    (hvalid : notification.validate = .ok ()) (hoccurred : Time.encodable notification.occurredAt)
    (hnow : Time.encodable now)
    (hrandom : ∃ id, isRandomID id = true ∧ id ∉ s.issued ∧ id ∉ s.written) :
    Ensures working (fun result _ => ∃ id again, result = some (.ok (id, again)) ∧ id ≠ "")
      (enqueue sha256 fuel notification now) (s, polls) := by
  obtain ⟨fresh, hform, hissued, hwritten⟩ := hrandom
  simp only [enqueue, hvalid, perform, Prog.bind_eq, Prog.issue_bind]
  have hpossible : exec (.id fresh) .randomID s =
      some (fresh, { s with issued := fresh :: s.issued }) := if_pos ⟨hform, hissued⟩
  refine ensures_cmd (x := .id fresh)
    (o := (fresh, ({ s with issued := fresh :: s.issued }, polls)))
    (Machine.limit_exec.mpr ⟨if_neg hwritten, hpossible⟩) ?_
  rintro x id ⟨v, left⟩ hx
  obtain ⟨hid, hnew, rfl, rfl⟩ := randomID_working hx
  have henc : (newEnvelope id notification now).encodable = true := by
    simp [Envelope.encodable, newEnvelope, hoccurred, hnow]
    decide
  obtain ⟨fuel, rfl⟩ : ∃ n, fuel = n + 1 := ⟨fuel - 1, by omega⟩
  by_cases hkey : sha256 notification.idempotencyKey ++ ".key" ∈ s.keys
  · refine ensures_plain (r := none) (v := { s with issued := id :: s.issued })
      (fun x => if_pos hkey) (fun _ => rfl) ?_
    refine (ensures_waitForDurableReservation _ _ (show left < fuel by omega)).bind ?_
    rintro result ⟨t, left'⟩ (⟨existing, rfl, hne⟩ | ⟨rfl, habsent, hsame⟩)
    · exact ensures_ret ⟨existing, true, rfl, hne⟩
    · refine (ensures_reserve_new (by omega) ?_ habsent ?_ henc).weaken ?_
      · intro d fileName hmem
        rw [hsame.files] at hmem
        rw [hsame.written]
        exact hs d fileName hmem
      · rw [hsame.written]
        exact hnew
      · rintro result t rfl
        exact ⟨id, false, rfl, hid⟩
  · refine (ensures_reserve_new (s := { s with issued := id :: s.issued }) (Nat.succ_pos fuel) hs
      hkey hnew henc).weaken ?_
    rintro result t rfl
    exact ⟨id, false, rfl, hid⟩

end Working

end AgentBell.Queue

namespace AgentBell.Relay

open Interleaving

/-! ## Accept in a working environment -/

/-- The polls left after a choice, when a working environment makes it. -/
def works (c : Cmd) (x : Choice) (s : Store) (polls : Nat) : Option Nat :=
  match c, x with
  | .queue c, .queue y => Queue.works c y s.queue polls
  | _, .failsBefore => none
  | _, .failsAfter => none
  | _, _ => some polls

/-- The state directory in a working environment. -/
def working : Machine Cmd Reply (Store × Nat) Choice := machine.limit works

/-- Whether a command is one on the records of the ingress, other than a listing. -/
def Cmd.onRecords : Cmd → Bool
  | .queue _ | .listNonces => false
  | _ => true

/-- In a working environment a command on the records works. -/
lemma exec_works_of_working {c : Cmd} (hc : c.onRecords = true) {x : Choice} {s : Store}
    {polls left : Nat} {o : Reply c × Store} (hworks : works c x s polls = some left)
    (hexec : exec x c s = some o) : left = polls ∧ exec .works c s = some o := by
  cases c with
  | queue | listNonces => cases hc
  | readNonce | removeNonce | unlock | readCommitted | readPending | answer =>
    cases x <;> cases hworks <;> exact ⟨rfl, hexec⟩
  | linkNonce | linkPending | linkCommitted | lock | removePending =>
    cases x with
    | works =>
      cases hworks
      exact ⟨rfl, hexec⟩
    | failsBefore | failsAfter => cases hworks
    | queue | order => cases hexec

section Working

variable {α : Type} {post : α → Store × Nat → Prop} {s : Store} {polls : Nat} {envelope : Envelope}

/-- A command on the records. -/
lemma ensures_works {c : Cmd} {next : Reply c → IngressProg α} {r : Reply c} {v : Store}
    (hc : c.onRecords = true) (hexec : exec .works c s = some (r, v))
    (hnext : Ensures working post (next r) (v, polls)) :
    Ensures working post (.cmd c next) (s, polls) := by
  have hallowed : works c .works s polls = some polls := by
    cases c <;> rfl
  refine ensures_cmd (x := .works) (o := (r, (v, polls)))
    (Machine.limit_exec.mpr ⟨hallowed, hexec⟩) ?_
  rintro x r' ⟨v', left⟩ hx
  obtain ⟨hworks, hexec'⟩ := Machine.limit_exec.mp hx
  obtain ⟨rfl, hsame⟩ := exec_works_of_working hc hworks hexec'
  rw [hexec] at hsame
  cases hsame
  exact hnext

/-- A program of the queue as part of a request, in a working environment. -/
lemma ensures_onQueue {Q : α → Queue.Store × Nat → Prop} {p : Queue.QueueProg α}
    (hp : Ensures Queue.working Q p (s.queue, polls)) : Ensures working
      (fun a t => (t.1.committed = s.committed ∧ t.1.pending = s.pending) ∧
        Q a (t.1.queue, t.2)) (onQueue p) (s, polls) := by
  refine Ensures.embed ?_ ?_ ⟨rfl, rfl⟩ hp
  · rintro x c ⟨t, left⟩ ⟨r, q, left'⟩ hx
    obtain ⟨hworks, hexec⟩ := Machine.limit_exec.mp hx
    have hexec' : exec (.queue x) (.queue c) t = some (r, { t with queue := q }) := by
      simp only [exec]
      rw [show Queue.exec x c t.queue = some (r, q) from hexec]
      rfl
    exact ⟨.queue x, (r, ({ t with queue := q }, left')), Machine.limit_exec.mpr ⟨hworks, hexec'⟩⟩
  · rintro x c ⟨t, left⟩ r ⟨v, left'⟩ hF hx
    obtain ⟨hworks, hexec⟩ := Machine.limit_exec.mp hx
    simp only [machine, exec] at hexec
    split at hexec
    · rename_i y
      obtain ⟨⟨reply, q⟩, hq, heq⟩ := Option.map_eq_some_iff.mp hexec
      cases heq
      exact ⟨hF, y, Machine.limit_exec.mpr ⟨hworks, hq⟩⟩
    · cases hexec

/-- The look-up of a delivery that is not committed. -/
lemma ensures_lookupCommitted {P : Primitives} {exactBody : Bytes}
    {f : Except IngressError (Option Receipt) → IngressProg α}
    (hdecode : decode P exactBody = .ok envelope) (hnone : s.committed.lookup
      (envelope.receiptID P) = none)
    (hf : Ensures working post (f (.ok none)) (s, polls)) :
    Ensures working post ((lookupCommitted P exactBody).bind f) (s, polls) := by
  unfold lookupCommitted readCommitted
  rw [hdecode]
  refine ensures_works rfl (r := none) (v := s) ?_ hf
  rw [exec, hnone]

/-- The file a reservation of a nonce leaves. -/
def reservation (retention : Duration) (seenAt : Time) : NonceFile :=
  ⟨some ⟨nonceRecordVersion, seenAt, seenAt + retention⟩, seenAt⟩

/-- A reservation expires after its retention. -/
lemma expired_reservation (retention : Duration) (seenAt now : Time) :
    (reservation retention seenAt).expired retention now = decide (seenAt + retention ≤ now) := by
  simp only [NonceFile.expired, reservation]
  split <;> rfl

section Nonces

variable {P : Primitives} {fuel : Nat} {retention : Duration} {peerID nonce : String}
  {now seenAt : Time} {f : Except IngressError Bool → IngressProg α}

/-- A nonce that is reserved counts as used until its reservation has expired, and is reserved
anew then. -/
lemma ensures_acceptNonce (hcheck : checkNonce peerID nonce retention now = .ok ())
    (hfuel : 0 < fuel)
    (hreserved : s.nonces.lookup (noncePath P peerID nonce) = some (reservation retention seenAt))
    (hused : ¬ seenAt + retention ≤ now → Ensures working post (f (.ok false)) (s, polls))
    (hanew : seenAt + retention ≤ now → 1 < fuel ∧
      ∀ nonces, Ensures working post (f (.ok true)) ({ s with nonces := nonces }, polls)) :
    Ensures working post ((acceptNonce P fuel retention peerID nonce now).bind f) (s, polls) := by
  obtain ⟨fuel, rfl⟩ : ∃ n, fuel = n + 1 := ⟨fuel - 1, by omega⟩
  have hmem : noncePath P peerID nonce ∈ s.nonces :=
    AList.lookup_isSome.mp (by rw [hreserved]; rfl)
  unfold acceptNonce reserveNonce
  rw [hcheck]
  refine ensures_works rfl (r := .exists) (v := s) (by simp [exec, link, hmem]) ?_
  refine ensures_works rfl (r := some (reservation retention seenAt)) (v := s)
    (by simp [exec, hreserved]) ?_
  by_cases hexpired : seenAt + retention ≤ now
  · obtain ⟨hagain, hf⟩ := hanew hexpired
    obtain ⟨fuel, rfl⟩ : ∃ n, fuel = n + 1 := ⟨fuel - 1, by omega⟩
    simp only [Prog.ret_bind, expired_reservation, hexpired, decide_true]
    refine ensures_works rfl rfl ?_
    refine ensures_works rfl (r := .linked) (v := { s with
        nonces := (s.nonces.erase (noncePath P peerID nonce)).insert (noncePath P peerID nonce)
          (reservation retention now) }) ?_ (hf _)
    simp [exec, link, reservation]
  · simp only [Prog.ret_bind, expired_reservation, hexpired, decide_false]
    exact hused hexpired

end Nonces

/-- A notification stays valid under another idempotency key. -/
lemma validate_localNotification (h : envelope.Sane) :
    (localNotification envelope).validate = .ok () := by
  have hevent := h.event
  simp only [Notification.validate, bind_eq_ok, failIf_eq_ok, exists_const] at hevent
  obtain ⟨hversion, hsource, hsurface, hruntime, hknown, hstatus, hoccurred, -, hrest⟩ := hevent
  simp only [Notification.validate, bind_eq_ok, failIf_eq_ok]
  exact ⟨(), hversion, (), hsource, (), hsurface, (), hruntime, (), hknown, (), hstatus, (),
    hoccurred, (), h.deliveryKey, by simp only [exists_const]; exact hrest⟩

section Commit

variable {P : Primitives} {exactBody : Bytes} {envelope : Envelope} {now : Time} {fuel : Nat}

/-- The pending receipt of a delivery is found or written, unless one of another body is
pending. -/
lemma ensures_preparePending (hencodable : Queue.Time.encodable now = true) (hs : s.Sound)
    (hid : envelope.receiptID P ≠ "") (hsame : ∀ pending, s.pending.lookup
        (envelope.receiptID P) = some pending →
      pending.bodyDigest = bodyDigest P exactBody) :
    Ensures working
      (fun result t => (t.1.queue = s.queue ∧ t.1.committed = s.committed ∧ t.2 = polls) ∧
        ∃ pending duplicate, result = .ok (pending, duplicate) ∧ pending.version = receiptVersion)
      (preparePending P envelope exactBody now) (s, polls) := by
  cases hlookup : s.pending.lookup (newReceipt P envelope exactBody now).id with
  | none =>
    refine ensures_works rfl (by rw [exec, hlookup]) ?_
    simp only [Prog.ret_bind, Prog.pure_eq, Prog.bind_eq, hencodable]
    have habsent : (newReceipt P envelope exactBody now).id ∉ s.pending :=
      AList.lookup_eq_none.mp hlookup
    have hlink : exec .works (.linkPending (newReceipt P envelope exactBody now).id
        (newReceipt P envelope exactBody now)) s = some (.linked, { s with
          pending := s.pending.insert (newReceipt P envelope exactBody now).id
            (newReceipt P envelope exactBody now) }) := by
      simp only [exec, link, if_neg habsent, Option.map_some]
    refine ensures_works rfl hlink ?_
    exact ensures_ret ⟨⟨rfl, rfl, rfl⟩, _, false, rfl, rfl⟩
  | some pending =>
    have hpersisted : pending.persisted .pending = true := (hs.waiting _ _ hlookup).2 hid
    have hversion : pending.version = receiptVersion := by
      simp only [Receipt.persisted, Bool.and_eq_true, decide_eq_true_eq] at hpersisted
      tauto
    refine ensures_works rfl (by rw [exec, hlookup]) ?_
    simp only [Prog.ret_bind, Prog.pure_eq, Prog.bind_eq, hpersisted, if_true,
      hsame pending hlookup, ne_eq, not_true, if_false]
    exact ensures_ret ⟨⟨rfl, rfl, rfl⟩, _, true, rfl, hversion⟩

/-- The receipt of a delivery that is not committed is published. -/
lemma ensures_publishCommitted {id : String} {committed : Receipt}
    (hencodable : Queue.Time.encodable committed.committedAt = true)
    (huncommitted : s.committed.lookup id = none) :
    Ensures working (fun result _ => result = .ok committed)
      (publishCommitted P id exactBody committed) (s, polls) := by
  have habsent : id ∉ s.committed := AList.lookup_eq_none.mp huncommitted
  have hlink : exec .works (.linkCommitted id committed) s =
      some (.linked, { s with committed := s.committed.insert id committed }) := by
    simp only [exec, link, if_neg habsent, Option.map_some]
  rw [publishCommitted, if_pos hencodable]
  exact ensures_works rfl hlink (ensures_ret rfl)

/-- A delivery is committed under the lock, unless a receipt of another body is pending for
it. -/
lemma ensures_commitLocked (hdecode : decode P exactBody = .ok envelope) (hnow : now.isZero = false)
    (hencodable : Queue.Time.encodable now = true)
    (hoccurred : Queue.Time.encodable envelope.event.occurredAt = true) (hs : s.Sound)
    (hfuel : polls + 2 < fuel)
    (hrandom : ∃ id, Queue.isRandomID id = true ∧ id ∉ s.queue.issued ∧ id ∉ s.queue.written)
    (hid : envelope.receiptID P ≠ "") (huncommitted : s.committed.lookup
      (envelope.receiptID P) = none)
    (hsame : ∀ pending, s.pending.lookup (envelope.receiptID P) = some pending →
      pending.bodyDigest = bodyDigest P exactBody) :
    Ensures working
      (fun result _ => ∃ receipt duplicate, result = .ok (receipt, duplicate) ∧
        receipt.ackEligible true = true)
      (commitLocked P fuel envelope exactBody now) (s, polls) := by
  refine ensures_works rfl (by rw [exec, huncommitted]) ?_
  refine (ensures_preparePending hencodable hs hid hsame).bind ?_
  rintro _ ⟨t, left⟩ ⟨⟨hqueue, hcommitted, hleft⟩, pending, duplicate, rfl, hversion⟩
  obtain rfl : left = polls := hleft
  have henqueue : Ensures Queue.working
      (fun result _ => ∃ id again, result = some (.ok (id, again)) ∧ id ≠ "")
      (Queue.enqueue (fun key => P.sha256 (utf8 key)) fuel (localNotification envelope) now)
      (t.queue, left) := by
    rw [hqueue]
    exact Queue.ensures_enqueue _ hfuel hs.recorded
      (validate_localNotification (sane_of_decode hdecode)) hoccurred hencodable hrandom
  refine (ensures_onQueue henqueue).bind ?_
  rintro _ ⟨u, left'⟩ ⟨⟨hcommitted', -⟩, localQueueID, again, rfl, hne⟩
  simp only [if_neg hne]
  have hpublish : Ensures working (fun result _ => result = .ok (pending.commit localQueueID now))
      (publishCommitted P (envelope.receiptID P)
        exactBody (pending.commit localQueueID now)) (u, left') := by
    refine ensures_publishCommitted hencodable ?_
    rw [hcommitted', hcommitted, huncommitted]
  refine hpublish.bind ?_
  rintro _ ⟨w, left''⟩ rfl
  refine ensures_works rfl rfl ?_
  refine ensures_ret ⟨pending.commit localQueueID now, duplicate, rfl, ?_⟩
  simp [Receipt.ackEligible, Receipt.commit, hversion, hne, hnow]

/-- A delivery whose receipt is pending for another body is refused. -/
lemma ensures_commitLocked_conflict (hs : s.Sound) {pending : Receipt}
    (hid : envelope.receiptID P ≠ "") (huncommitted : s.committed.lookup
      (envelope.receiptID P) = none)
    (hpending : s.pending.lookup (envelope.receiptID P) = some pending)
    (hother : pending.bodyDigest ≠ bodyDigest P exactBody) :
    Ensures working (fun result _ => result = .error .receiptConflict)
      (commitLocked P fuel envelope exactBody now) (s, polls) := by
  have hpersisted : pending.persisted .pending = true := (hs.waiting _ _ hpending).2 hid
  refine ensures_works rfl (by rw [exec, huncommitted]) ?_
  have hread : exec .works (.readPending (newReceipt P envelope exactBody now).id) s =
      some (some pending, s) := by
    exact congrArg (fun found => some (found, s)) hpending
  refine ensures_works rfl hread ?_
  simp only [Prog.ret_bind, Prog.pure_eq, Prog.bind_eq, hpersisted, if_true, if_pos hother]
  exact ensures_ret rfl

/-- What the commit under the lock ensures, `CommitIngress` ensures. -/
lemma ensures_commitIngress {Q : Except IngressError (Receipt × Bool) → Store × Nat → Prop}
    (hdecode : decode P exactBody = .ok envelope)
    (hprivacy : envelope.event.privacyLevel = Event.privacyMetadataOnly) (hnow : now.isZero = false)
    (hlocked : Ensures working Q (commitLocked P fuel envelope exactBody now) (s, polls)) :
    Ensures working Q (commitIngress P fuel exactBody now) (s, polls) := by
  unfold commitIngress
  simp only [hdecode, hprivacy, hnow, ne_eq, not_true, if_false, Bool.false_eq_true]
  refine ensures_works rfl rfl ?_
  refine hlocked.bind fun result t ht => ?_
  exact ensures_works rfl rfl (ensures_ret ht)

end Commit

end Working

/-! ## The request that is sent again -/

/-- A valid request for a delivery that is not committed, at a moment when the queue and the
clock can serve it. -/
structure Servable (P : Primitives) (settings : Settings) (peers : String → Option Peer)
    (request : IngressRequest) (now : Time) (peer : Peer) (envelope : Envelope) (s : Store) :
    Prop where
  complete : request.complete = true
  authenticated : authenticate P settings request (peers request.keyID) now = .ok (peer, envelope)
  metadataOnly : envelope.event.privacyLevel = Event.privacyMetadataOnly
  occurred : Queue.Time.encodable envelope.event.occurredAt = true
  dated : Queue.Time.encodable now = true
  expiry : Queue.Time.encodable (now + settings.retention) = true
  receiptID : Relay.receiptID P envelope.teamID envelope.origin.id envelope.delivery.key ≠ ""
  uncommitted : s.committed.lookup
    (Relay.receiptID P envelope.teamID envelope.origin.id envelope.delivery.key) = none
  random : ∃ id, Queue.isRandomID id = true ∧ id ∉ s.queue.issued ∧ id ∉ s.queue.written

section Resent

variable {P : Primitives} {settings : Settings} {peers : String → Option Peer}
  {request : IngressRequest} {seenAt now : Time} {peer : Peer} {envelope : Envelope} {s : Store}
  {fuel polls : Nat}

/-- The nonce of a valid request passes its check. -/
lemma Servable.checkNonce (h : Servable P settings peers request now peer envelope s) :
    checkNonce peer.id request.nonce settings.retention now = .ok () := by
  have hauth := authentic_of_authenticate h.authenticated
  simp [Relay.checkNonce, hauth.peerID, hauth.nonce, hauth.dated, h.dated, h.expiry]

/-- Before the reservation of its nonce expires, a request that is sent again is a replay. -/
lemma ensures_accept_replay (h : Servable P settings peers request now peer envelope s)
    (hfuel : 0 < fuel) (hreserved : s.nonces.lookup (noncePath P peer.id request.nonce) =
      some (reservation settings.retention seenAt))
    (hvalid : ¬ seenAt + settings.retention ≤ now) :
    Ensures working (fun result _ => result = .error .nonceReplay)
      (accept P settings fuel peers request now) (s, polls) := by
  have hauth := authentic_of_authenticate h.authenticated
  rw [accept, if_pos h.complete]
  unfold acceptFrom
  simp only [h.authenticated]
  refine ensures_lookupCommitted hauth.decoded h.uncommitted ?_
  refine ensures_acceptNonce h.checkNonce hfuel hreserved (fun _ => ?_) fun h => absurd h hvalid
  exact ensures_lookupCommitted hauth.decoded h.uncommitted (ensures_ret rfl)

/-- After the reservation of its nonce has expired, a request that is sent again is committed
like a new one. -/
lemma ensures_accept_commits {Q : Except IngressError (Receipt × Bool) → Store × Nat → Prop}
    {Q' : Except IngressError IngressACK → Store × Nat → Prop}
    (h : Servable P settings peers request now peer envelope s) (hfuel : 1 < fuel)
    (hreserved : s.nonces.lookup (noncePath P peer.id request.nonce) =
      some (reservation settings.retention seenAt))
    (hexpired : seenAt + settings.retention ≤ now)
    (hcommit : ∀ nonces, Ensures working Q (commitLocked P fuel envelope request.exactBody now)
      ({ s with nonces := nonces }, polls))
    (hanswer : ∀ err t, Q (.error err) t → Q' (.error err) t)
    (hack : ∀ receipt duplicate t, Q (.ok (receipt, duplicate)) t →
      Q' (ingressACK receipt duplicate) t) :
    Ensures working Q' (accept P settings fuel peers request now) (s, polls) := by
  have hauth := authentic_of_authenticate h.authenticated
  rw [accept, if_pos h.complete]
  unfold acceptFrom
  simp only [h.authenticated]
  refine ensures_lookupCommitted hauth.decoded h.uncommitted ?_
  refine ensures_acceptNonce h.checkNonce (by omega) hreserved (fun h => absurd hexpired h)
    fun _ => ⟨hfuel, fun nonces => ?_⟩
  refine (ensures_commitIngress hauth.decoded h.metadataOnly hauth.dated (hcommit nonces)).bind ?_
  rintro (err | ⟨receipt, duplicate⟩) t ht
  · exact ensures_ret (hanswer err t ht)
  · exact ensures_ret (hack receipt duplicate t ht)

/-- The condition under which a request that is sent again is acknowledged: the reservation of
its nonce has expired, and no receipt of another body is pending for its delivery. -/
def Resumable (P : Primitives) (settings : Settings) (request : IngressRequest)
    (envelope : Envelope) (seenAt now : Time) (s : Store) : Prop :=
  seenAt + settings.retention ≤ now ∧
    ∀ pending, s.pending.lookup
        (receiptID P envelope.teamID envelope.origin.id envelope.delivery.key) = some pending →
      pending.bodyDigest = bodyDigest P request.exactBody

/-- In every state a run of any processes leads to, a valid request whose nonce an earlier
`Accept` has reserved, and whose delivery is not committed, is acknowledged by every working run
of `Accept` exactly when the reservation has expired and no receipt of another body is
pending. -/
theorem resent_request_acknowledged_iff {c : RelaysConfig}
    (hc : Reachable (relays P) (fun _ _ => True) relaysStart c)
    (h : Servable P settings peers request now peer envelope c.store)
    (hreserved : c.store.nonces.lookup (noncePath P peer.id request.nonce) =
      some (reservation settings.retention seenAt))
    (hfuel : polls + 2 < fuel) :
    Ensures working (fun result _ => ∃ ack, result = .ok ack)
        (accept P settings fuel peers request now) (c.store, polls) ↔
      Resumable P settings request envelope seenAt now c.store := by
  have hauth := authentic_of_authenticate h.authenticated
  have hsound := (relaysInvariant_of_reachable hc).sound
  constructor
  · intro hack
    have hexpired : seenAt + settings.retention ≤ now := by
      by_contra hvalid
      obtain ⟨result, t, ⟨ack, rfl⟩, hreplay⟩ :=
        hack.exists_both (ensures_accept_replay h (by omega) hreserved hvalid)
      cases hreplay
    refine ⟨hexpired, fun pending hlookup => ?_⟩
    by_contra hdigest
    have hconflict : Ensures working (fun result _ => result = .error .receiptConflict)
        (accept P settings fuel peers request now) (c.store, polls) := by
      refine ensures_accept_commits h (by omega) hreserved hexpired (fun nonces =>
        ensures_commitLocked_conflict ?_ h.receiptID
          h.uncommitted hlookup hdigest) ?_ ?_
      · exact ⟨hsound.recorded, hsound.waiting, hsound.receipts⟩
      · rintro err t ⟨⟩
        rfl
      · rintro receipt duplicate t ⟨⟩
    obtain ⟨result, t, ⟨ack, rfl⟩, hrefused⟩ := hack.exists_both hconflict
    cases hrefused
  · rintro ⟨hexpired, hsame⟩
    refine ensures_accept_commits h (by omega) hreserved hexpired (fun nonces =>
      ensures_commitLocked hauth.decoded hauth.dated
        h.dated h.occurred ?_ hfuel h.random h.receiptID h.uncommitted hsame) ?_ ?_
    · exact ⟨hsound.recorded, hsound.waiting, hsound.receipts⟩
    · rintro err t ⟨receipt, duplicate, hok, -⟩
      cases hok
    · rintro receipt duplicate t ⟨receipt', duplicate', hok, heligible⟩
      cases hok
      exact ⟨_, if_pos heligible⟩

end Resent

/-! ## A request that was cut after its nonce was reserved -/

/-- The sample request is cut after its nonce was reserved. -/
def cutAcceptRun : List (Event Call Choice Nat) :=
  [.spawn 0, .call 0 (sampleAccept 1)] ++ worksOf 0 2 ++ [.kill 0]

/-- The configuration after the sample request was cut. -/
def cutAcceptEnd : RelaysConfig :=
  (relays samplePrimitives).endOf (fun _ _ => true) cutAcceptRun relaysStart

/-- The cut request leaves the reservation of its nonce and nothing else. -/
lemma cutAcceptEnd_reachable :
    Reachable (relays samplePrimitives) (fun _ _ => True) relaysStart cutAcceptEnd ∧
      cutAcceptEnd.store.nonces.lookup
        (noncePath samplePrimitives samplePeer.id sampleRequest.nonce) =
          some (reservation minimumNonceRetention 1) ∧
      cutAcceptEnd.store.pending.keys = [] ∧ cutAcceptEnd.store.committed.keys = [] ∧
      cutAcceptEnd.store.queue.issued = [] ∧ cutAcceptEnd.store.queue.written = [] := by
  have hrun : ((relays samplePrimitives).runIf (fun _ _ => true) cutAcceptRun relaysStart).any
      (fun c => c.store.nonces.lookup
          (noncePath samplePrimitives samplePeer.id sampleRequest.nonce) =
            some (reservation minimumNonceRetention 1) ∧
        c.store.pending.keys = [] ∧ c.store.committed.keys = [] ∧
        c.store.queue.issued = [] ∧ c.store.queue.written = []) = true := by
    decide +kernel
  obtain ⟨hreach, hgood⟩ := reachable_endOf (fun _ _ _ => trivial) .start hrun
    (rfl : cutAcceptEnd = _)
  exact ⟨hreach, of_decide_eq_true hgood⟩

/-- A record is not found when there is none. -/
lemma lookup_eq_none_of_keys {α : Type} {files : AList (fun _ : String => α)}
    (h : files.keys = []) (path : String) : files.lookup path = none := by
  rw [AList.lookup_eq_none, AList.mem_keys, h]
  exact List.not_mem_nil

/-- The sample request can be served at every moment at which it is authentic. -/
lemma sample_servable {now : Time}
    (hauth : authenticate samplePrimitives {} sampleRequest (some samplePeer) now =
      .ok (samplePeer, sampleEnvelope))
    (hdated : Queue.Time.encodable now = true)
    (hexpiry : Queue.Time.encodable (now + minimumNonceRetention) = true) :
    Servable samplePrimitives {} (fun _ => some samplePeer) sampleRequest now samplePeer
      sampleEnvelope cutAcceptEnd.store where
  complete := by decide +kernel
  authenticated := hauth
  metadataOnly := rfl
  occurred := by decide
  dated := hdated
  expiry := hexpiry
  receiptID := by decide +kernel
  uncommitted := lookup_eq_none_of_keys cutAcceptEnd_reachable.2.2.2.1 _
  random := by
    obtain ⟨-, -, -, -, hissued, hwritten⟩ := cutAcceptEnd_reachable
    refine ⟨sampleQueueID, by decide +kernel, ?_, ?_⟩
    · rw [hissued]
      exact List.not_mem_nil
    · rw [hwritten]
      exact List.not_mem_nil

/-- Ten minutes later, at the end of the skew its timestamp allows, the sample request is
acknowledged. -/
theorem cut_request_acknowledged_after_retention :
    Ensures working (fun result _ => ∃ ack, result = .ok ack)
      (accept samplePrimitives {} 3 (fun _ => some samplePeer) sampleRequest (10 * minute + 1))
      (cutAcceptEnd.store, 0) := by
  have hservable : Servable samplePrimitives {} (fun _ => some samplePeer) sampleRequest
      (10 * minute + 1) samplePeer sampleEnvelope cutAcceptEnd.store :=
    sample_servable (by decide +kernel) (by decide) (by decide)
  obtain ⟨hreach, hreserved, hpending, -⟩ := cutAcceptEnd_reachable
  refine (resent_request_acknowledged_iff hreach hservable hreserved (by decide)).mpr
    ⟨by decide, fun pending hlookup => ?_⟩
  rw [lookup_eq_none_of_keys hpending] at hlookup
  cases hlookup

/-- The sample request was cut after its nonce was reserved and before its receipt was
committed.  Sent again at once, it is valid, and every working run refuses it as a replay. -/
theorem cut_request_refused_as_replay :
    Reachable (relays samplePrimitives) (fun _ _ => True) relaysStart cutAcceptEnd ∧
      Servable samplePrimitives {} (fun _ => some samplePeer) sampleRequest 2 samplePeer
        sampleEnvelope cutAcceptEnd.store ∧
      ∀ fuel polls, 0 < fuel → Ensures working (fun result _ => result = .error .nonceReplay)
        (accept samplePrimitives {} fuel (fun _ => some samplePeer) sampleRequest 2)
        (cutAcceptEnd.store, polls) := by
  have hservable : Servable samplePrimitives {} (fun _ => some samplePeer) sampleRequest 2
      samplePeer sampleEnvelope cutAcceptEnd.store :=
    sample_servable (by decide +kernel) (by decide) (by decide)
  obtain ⟨hreach, hreserved, -⟩ := cutAcceptEnd_reachable
  exact ⟨hreach, hservable, fun fuel polls hfuel =>
    ensures_accept_replay hservable hfuel hreserved (by decide)⟩

end AgentBell.Relay
