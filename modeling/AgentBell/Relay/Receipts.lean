import AgentBell.Queue.Outcomes
import AgentBell.Relay.Ingress

/-!
# Acknowledgements and committed receipts

Any number of processes accept requests, commit deliveries, clean up nonces and work on the
local queue, on one state directory, interleaved in any way and killed at any step.  A
committed receipt is published once and never changed or removed, and its queue id was written
to the queue before; every acknowledgement repeats what a committed receipt for exactly its
body says.  Both hold whatever the receipt lock does.
-/

namespace AgentBell.Relay

open Interleaving

variable {α : Type} {P : Primitives} {x : Choice}

/-- Every item file of the queue is recorded as written. -/
def Recorded (q : Queue.Store) : Prop :=
  ∀ d fileName, (d, fileName) ∈ q.files → fileName.id ∈ q.written

/-- What may happen to the queue: it forgets no id that was written, and records all files. -/
structure QueueMoves (q r : Queue.Store) : Prop where
  written : ∀ id ∈ q.written, id ∈ r.written
  recorded : Recorded q → Recorded r

lemma QueueMoves.refl (q : Queue.Store) : QueueMoves q q := ⟨fun _ h => h, id⟩

variable {q : Queue.Store}

/-- Every command of the queue moves it in this way. -/
lemma queueMoves_of_exec {x : Queue.Choice} {c : Queue.Cmd} {r : Queue.Store}
    {reply : Queue.Reply c} (h : Queue.exec x c q = some (reply, r)) : QueueMoves q r := by
  have herase : ∀ (path : Queue.ItemPath) (u : Queue.Store),
      u.files = q.files.erase path → u.written = q.written → QueueMoves q u := by
    intro path u hfiles hwritten
    refine ⟨fun id hid => hwritten ▸ hid, fun hq d fileName hmem => ?_⟩
    rw [hfiles, AList.mem_erase] at hmem
    rw [hwritten]
    exact hq d fileName hmem.2
  cases Queue.storeEffect_of_exec h with
  | same files written cleaned answers =>
    refine ⟨fun id hid => written ▸ hid, fun hq d fileName hmem => ?_⟩
    rw [written]
    exact hq d fileName (files ▸ hmem)
  | stored path envelope =>
    refine ⟨fun id hid => List.mem_cons_of_mem _ hid, fun hq d fileName hmem => ?_⟩
    rcases Queue.Store.mem_put.mp hmem with rfl | hmem
    · exact List.mem_cons_self
    · exact List.mem_cons_of_mem _ (hq d fileName hmem)
  | removed path => exact herase path _ rfl rfl
  | discarded path => exact herase path _ rfl rfl
  | quarantined path => exact herase path _ rfl rfl
  | answered result => exact ⟨fun _ hid => hid, fun hq => hq⟩

/-- `Enqueue` answers only with ids that were written. -/
lemma safe_enqueue (sha256 : String → String) (fuel : Nat) (notification : Notification)
    (now : Time) (hq : Recorded q) :
    Safe Queue.machine (fun _ => QueueMoves) (fun _ _ => True)
      (fun result r => Recorded r ∧
        ∀ id again, result = some (.ok (id, again)) → id ∈ r.written)
      (Queue.enqueue sha256 fuel notification now) q := by
  have hsame : ∀ (q r : Queue.Store), q.SameItems r → QueueMoves q r := by
    intro q r h
    refine ⟨fun id hid => h.written ▸ hid, fun hq d fileName hmem => ?_⟩
    rw [h.written]
    exact hq d fileName (h.files ▸ hmem)
  have hview : ∀ id, Queue.EnqueueView (fun _ => QueueMoves) (fun _ _ => True) Recorded
      (fun r => Recorded r ∧ id ∈ r.written) (fun id r => id ∈ r.written) := fun id =>
    { refl := fun _ => QueueMoves.refl
      idle :=
        { stable := fun _ _ _ h hmove => hmove.recorded h
          same := fun q r h hqr => (hsame q r hqr).recorded h
          quiet := fun _ _ _ _ => trivial }
      seen := fun id =>
        { stable := fun _ _ _ h hmove => ⟨hmove.recorded h.1, hmove.written id h.2⟩
          same := fun q r h hqr => ⟨(hsame q r hqr).recorded h.1, (hsame q r hqr).written id h.2⟩
          quiet := fun _ _ _ _ => trivial }
      sight := fun r d fileName h hmem => h d fileName hmem
      written := fun _ _ h hmove => ⟨hmove.recorded h.1, hmove.written id h.2⟩ }
  unfold Queue.enqueue
  split
  · refine safe_ret_of_stable hq (fun _ _ h hmove => hmove.recorded h) fun r hr => ⟨hr, ?_⟩
    rintro id again ⟨⟩
  · refine safe_cmd_of_stable hq (fun _ _ h hmove => hmove.recorded h) (fun _ _ => trivial) ?_
    intro x id r v hr hx
    have hv : Recorded v := (queueMoves_of_exec (x := x) (c := .randomID) hx).recorded hr
    refine ((hview id).reserve _ id notification now fuel ?_ hv).weaken (fun _ _ h => h) ?_
    · intro u hu _
      refine ⟨trivial, ?_, List.mem_cons_self⟩
      intro d fileName hmem
      rcases Queue.Store.mem_put.mp hmem with heq | hmem
      · rw [(Prod.mk.inj heq).2]
        exact List.mem_cons_self
      · exact List.mem_cons_of_mem _ (hu d fileName hmem)
    · intro result u hresult
      match result, hresult with
      | none, hu => exact ⟨hu, nofun⟩
      | some (.error message), hu => exact ⟨hu, nofun⟩
      | some (.ok (answered, false)), ⟨heq, hu, hwritten⟩ =>
        refine ⟨hu, ?_⟩
        rintro id' again ⟨⟩
        rwa [heq]
      | some (.ok (answered, true)), ⟨hu, hwritten⟩ =>
        refine ⟨hu, ?_⟩
        rintro id' again ⟨⟩
        exact hwritten

/-- Every program of the queue keeps its files recorded. -/
lemma safe_recorded (p : Queue.QueueProg α) (hq : Recorded q) :
    Safe Queue.machine (fun _ => QueueMoves) (fun _ _ => True) (fun _ r => Recorded r) p q := by
  induction p generalizing q with
  | ret a => exact safe_ret_of_stable hq (fun _ _ h hmove => hmove.recorded h) fun r hr => hr
  | cmd c next ih =>
    refine safe_cmd_of_stable hq (fun _ _ h hmove => hmove.recorded h) (fun _ _ => trivial) ?_
    exact fun x reply r v hr hx => ih reply ((queueMoves_of_exec hx).recorded hr)

/-! ## What every step keeps -/

/-- A pending receipt that can be read back under its id. -/
def Receipt.Waiting (id : String) (receipt : Receipt) : Prop :=
  receipt.id = id ∧ (id ≠ "" → receipt.persisted .pending = true)

/-- The files of the queue are recorded, every receipt has the id of its path, and a committed
one has a queue id that was written. -/
structure Store.Sound (s : Store) : Prop where
  recorded : Recorded s.queue
  waiting : ∀ id receipt, s.pending.lookup id = some receipt → receipt.Waiting id
  receipts : ∀ id receipt, s.committed.lookup id = some receipt →
    receipt.id = id ∧ receipt.localQueueID ∈ s.queue.written

/-- What may happen while a request is worked on: committed receipts stay as they are. -/
structure Progress (s t : Store) : Prop where
  committed : ∀ id receipt, s.committed.lookup id = some receipt →
    t.committed.lookup id = some receipt
  written : ∀ id ∈ s.queue.written, id ∈ t.queue.written
  sound : s.Sound → t.Sound

lemma Progress.refl (s : Store) : Progress s s := ⟨fun _ _ h => h, fun _ h => h, id⟩

variable {s t : Store}

lemma Progress.trans {u : Store} (hst : Progress s t) (htu : Progress t u) : Progress s u where
  committed := fun id receipt h => htu.committed id receipt (hst.committed id receipt h)
  written := fun id h => htu.written id (hst.written id h)
  sound := htu.sound ∘ hst.sound

/-- The committed receipt of a delivery, for exactly this body. -/
def Committed (P : Primitives) (s : Store) (exactBody : Bytes) (receipt : Receipt) : Prop :=
  ∃ envelope, decode P exactBody = .ok envelope ∧
    s.committed.lookup (receiptID P envelope.teamID envelope.origin.id envelope.delivery.key) =
      some receipt ∧
    receipt.bodyDigest = bodyDigest P exactBody

/-- An acknowledgement that repeats the committed receipt of its request. -/
def Acknowledged (P : Primitives) (s : Store) (request : IngressRequest) (ack : IngressACK) :
    Prop :=
  ∃ receipt, Committed P s request.exactBody receipt ∧ receipt.ackEligible true = true ∧
    ack.receiptID = receipt.id ∧ ack.localQueueID = receipt.localQueueID

lemma Progress.keeps_committed (h : Progress s t) {exactBody : Bytes} {receipt : Receipt}
    (hs : Committed P s exactBody receipt) : Committed P t exactBody receipt := by
  obtain ⟨envelope, hdecode, hlookup, hdigest⟩ := hs
  exact ⟨envelope, hdecode, h.committed _ _ hlookup, hdigest⟩

lemma Progress.keeps_acknowledged (h : Progress s t) {request : IngressRequest} {ack : IngressACK}
    (hs : Acknowledged P s request ack) : Acknowledged P t request ack := by
  obtain ⟨receipt, hcommitted, hsays⟩ := hs
  exact ⟨receipt, h.keeps_committed hcommitted, hsays⟩

/-- The commands a process issues: it publishes a receipt only under its own id, a committed
one only with a queue id that was written, and acknowledges only what is committed. -/
def May (P : Primitives) : Cmd → Store → Prop
  | .linkPending id receipt, _ => receipt.Waiting id
  | .linkCommitted id receipt, s => receipt.id = id ∧ receipt.localQueueID ∈ s.queue.written
  | .answer request ack, s => Acknowledged P s request ack
  | _, _ => True

/-- Publishing a record changes no record that is there. -/
lemma lookup_link {files files' : AList (fun _ : String => α)} {path : String} {value : α}
    {result : LinkResult} (h : link files path value x = some (result, files')) :
    (files' = files ∨ path ∉ files ∧ files' = files.insert path value) ∧
      (result = .linked → files'.lookup path = some value) := by
  unfold link at h
  split at h
  · split at h
    · cases h
      exact ⟨Or.inl rfl, nofun⟩
    · rename_i hnew
      cases h
      exact ⟨Or.inr ⟨hnew, rfl⟩, fun _ => AList.lookup_insert _⟩
  · cases h
    exact ⟨Or.inl rfl, nofun⟩
  · split at h
    · cases h
      exact ⟨Or.inl rfl, nofun⟩
    · rename_i hnew
      cases h
      exact ⟨Or.inr ⟨hnew, rfl⟩, nofun⟩
  · cases h

/-- Every command a process may issue makes progress and records only acknowledgements of
committed receipts. -/
lemma progress_of_exec {c : Cmd} {r : Reply c} (hmay : May P c s) (h : exec x c s = some (r, t)) :
    Progress s t ∧ ∀ request ack, (request, ack) ∈ t.acks →
      (request, ack) ∈ s.acks ∨ Acknowledged P s request ack := by
  cases c with
  | queue c =>
    simp only [exec] at h
    split at h
    · obtain ⟨⟨reply, q⟩, hq, heq⟩ := Option.map_eq_some_iff.mp h
      cases heq
      have hmove := queueMoves_of_exec hq
      refine ⟨⟨fun _ _ h => h, hmove.written,
        fun hs => ⟨hmove.recorded hs.recorded, hs.waiting, ?_⟩⟩, fun _ _ h => Or.inl h⟩
      intro id receipt hlookup
      obtain ⟨hid, hwritten⟩ := hs.receipts id receipt hlookup
      exact ⟨hid, hmove.written _ hwritten⟩
    · cases h
  | linkCommitted id receipt =>
    obtain ⟨⟨result, files⟩, hlink, heq⟩ := Option.map_eq_some_iff.mp h
    cases heq
    obtain ⟨rfl | ⟨hnew, rfl⟩, -⟩ := lookup_link hlink
    · exact ⟨Progress.refl s, fun _ _ h => Or.inl h⟩
    · refine ⟨⟨?_, fun _ h => h, fun hs => ⟨hs.recorded, hs.waiting, ?_⟩⟩, fun _ _ h => Or.inl h⟩
      · intro other stored hlookup
        have hne : other ≠ id := by
          rintro rfl
          exact hnew (AList.lookup_isSome.mp (by rw [hlookup]; rfl))
        simpa [AList.lookup_insert_ne hne] using hlookup
      · intro other stored hlookup
        by_cases hid : other = id
        · subst hid
          simp only [AList.lookup_insert, Option.some.injEq] at hlookup
          rw [← hlookup]
          exact hmay
        · simp only [AList.lookup_insert_ne hid] at hlookup
          exact hs.receipts other stored hlookup
  | answer request ack =>
    cases h
    refine ⟨⟨fun _ _ h => h, fun _ h => h, fun hs => ⟨hs.recorded, hs.waiting, hs.receipts⟩⟩, ?_⟩
    intro other ack' hmem
    rcases List.mem_cons.mp hmem with heq | hmem
    · cases heq
      exact Or.inr hmay
    · exact Or.inl hmem
  | linkNonce path record =>
    obtain ⟨result, -, heq⟩ := Option.map_eq_some_iff.mp h
    cases heq
    exact ⟨⟨fun _ _ h => h, fun _ h => h, fun hs => ⟨hs.recorded, hs.waiting, hs.receipts⟩⟩,
      fun _ _ h => Or.inl h⟩
  | linkPending id receipt =>
    obtain ⟨⟨result, files⟩, hlink, heq⟩ := Option.map_eq_some_iff.mp h
    cases heq
    refine ⟨⟨fun _ _ h => h, fun _ h => h, fun hs => ⟨hs.recorded, ?_, hs.receipts⟩⟩,
      fun _ _ h => Or.inl h⟩
    obtain ⟨rfl | ⟨-, rfl⟩, -⟩ := lookup_link hlink
    · exact hs.waiting
    · intro other stored hlookup
      by_cases hid : other = id
      · subst hid
        simp only [AList.lookup_insert, Option.some.injEq] at hlookup
        rw [← hlookup]
        exact hmay
      · simp only [AList.lookup_insert_ne hid] at hlookup
        exact hs.waiting other stored hlookup
  | removePending id =>
    have hdrop : Progress s { s with pending := s.pending.erase id } := by
      refine ⟨fun _ _ h => h, fun _ h => h, fun hs => ⟨hs.recorded, ?_, hs.receipts⟩⟩
      intro other stored hlookup
      by_cases hid : other = id
      · subst hid
        simp only [AList.lookup_erase] at hlookup
        cases hlookup
      · simp only [AList.lookup_erase_ne hid] at hlookup
        exact hs.waiting other stored hlookup
    simp only [exec] at h
    split at h
    · cases h
      exact ⟨hdrop, fun _ _ h => Or.inl h⟩
    · cases h
      exact ⟨Progress.refl s, fun _ _ h => Or.inl h⟩
    · cases h
      exact ⟨hdrop, fun _ _ h => Or.inl h⟩
    · cases h
  | readNonce | removeNonce | listNonces | lock | unlock | readCommitted | readPending =>
    simp only [exec] at h
    repeat' split at h
    all_goals
      cases h
      try exact ⟨⟨fun _ _ h => h, fun _ h => h,
        fun hs => ⟨hs.recorded, hs.waiting, hs.receipts⟩⟩, fun _ _ h => Or.inl h⟩

/-! ## The parts of a request -/

/-- An assertion that progress keeps. -/
def Lasting (A : Store → Prop) : Prop := ∀ s t, Progress s t → A s → A t

/-- A program of a request that issues only commands it may issue. -/
abbrev Ingests {α : Type} (P : Primitives) (post : α → Store → Prop) (p : IngressProg α)
    (s : Store) : Prop :=
  Safe machine (fun _ => Progress) (May P) post p s

/-- A part of a request whose result, if it is one, has a property. -/
abbrev Yields {α : Type} (P : Primitives) (X : α → Store → Prop)
    (p : IngressProg (Except IngressError α)) (s : Store) : Prop :=
  Ingests P (fun result t => t.Sound ∧ ∀ a, result = .ok a → X a t) p s

section Request

variable {P : Primitives} {α β : Type} {s : Store} {post X : α → Store → Prop} {c : Cmd}
  {envelope : Envelope} {exactBody : Bytes} {now : Time}

/-- Sequential composition of parts of a request. -/
lemma Ingests.bind {Q : α → Store → Prop} {post : β → Store → Prop} {p : IngressProg α}
    {f : α → IngressProg β} (hp : Ingests P Q p s)
    (hf : ∀ a t, Q a t → Ingests P post (f a) t) : Ingests P post (p.bind f) s :=
  Safe.bind (fun _ => Progress.refl) hp hf

/-- A command issued under a lasting assertion. -/
lemma ingests_cmd {A : Store → Prop} {next : Reply c → IngressProg α} (hs : s.Sound) (hA : A s)
    (hlasting : Lasting A) (hmay : ∀ t, A t → May P c t)
    (hnext : ∀ x r t v, exec x c t = some (r, v) → v.Sound → A v → Ingests P post (next r) v) :
    Ingests P post (.cmd c next) s := by
  refine safe_cmd_of_stable (A := fun t => t.Sound ∧ A t) ⟨hs, hA⟩ ?_ (fun t ht => hmay t ht.2) ?_
  · exact fun a b ha hab => ⟨hab.sound ha.1, hlasting a b hab ha.2⟩
  · intro x r t v ht hx
    obtain ⟨hprogress, -⟩ := progress_of_exec (hmay t ht.2) hx
    exact hnext x r t v hx (hprogress.sound ht.1) (hlasting t v hprogress ht.2)

/-- A command that may always be issued. -/
lemma ingests_free {next : Reply c → IngressProg α} (hs : s.Sound) (hmay : ∀ t, May P c t)
    (hnext : ∀ x r t v, exec x c t = some (r, v) → v.Sound → Ingests P post (next r) v) :
    Ingests P post (.cmd c next) s :=
  ingests_cmd (A := fun _ => True) hs trivial (fun _ _ _ h => h) (fun t _ => hmay t)
    fun x r t v hx hv _ => hnext x r t v hx hv

/-- A result that is an error. -/
lemma yields_error (hs : s.Sound) (err : IngressError) : Yields P X (.ret (.error err)) s :=
  safe_ret_of_stable hs (fun _ _ h hab => hab.sound h) fun t ht =>
    ⟨ht, fun a h => by cases h⟩

/-- A result with a lasting property. -/
lemma yields_ok (hs : s.Sound) {a : α} (ha : X a s) (hlasting : Lasting (X a)) :
    Yields P X (.ret (.ok a)) s := by
  refine safe_ret_of_stable (A := fun t => t.Sound ∧ X a t) ⟨hs, ha⟩ ?_ fun t ht => ⟨ht.1, ?_⟩
  · exact fun u v hu huv => ⟨huv.sound hu.1, hlasting u v huv hu.2⟩
  · rintro b ⟨⟩
    exact ht.2

/-- Reading a committed receipt gives what is stored from then on. -/
lemma yields_readCommitted (id : String) (hs : s.Sound) :
    Yields P (fun found t => ∀ receipt, found = some receipt →
      t.committed.lookup id = some receipt) (readCommitted id) s := by
  simp only [readCommitted, perform, Prog.bind_eq, Prog.issue_bind, Prog.pure_eq]
  refine ingests_free hs (fun _ => trivial) fun x found t v hx hv => ?_
  cases hx
  cases hlookup : t.committed.lookup id with
  | none =>
    refine yields_ok hv ?_ ?_
    · rintro receipt ⟨⟩
    · rintro a b hab h receipt ⟨⟩
  | some receipt =>
    simp only
    split
    · refine yields_ok hv ?_ ?_
      · rintro other ⟨⟩
        exact hlookup
      · exact fun a b hab h other hother => hab.committed id other (h other hother)
    · exact yields_error hv _

/-- A receipt that is looked up is committed for exactly the body. -/
lemma yields_lookupCommitted (exactBody : Bytes) (hs : s.Sound) :
    Yields P (fun found t => ∀ receipt, found = some receipt → Committed P t exactBody receipt)
      (lookupCommitted P exactBody) s := by
  unfold lookupCommitted
  cases hdecode : decode P exactBody with
  | error message => exact yields_error hs _
  | ok envelope =>
    refine (yields_readCommitted _ hs).bind ?_
    rintro (err | _ | receipt) t ⟨ht, hread⟩
    · exact yields_error ht err
    · refine yields_ok ht ?_ ?_
      · rintro receipt ⟨⟩
      · rintro a b hab h receipt ⟨⟩
    · simp only
      split
      · exact yields_error ht _
      · rename_i hdigest
        refine yields_ok ht ?_ ?_
        · rintro other ⟨⟩
          exact ⟨envelope, hdecode, hread _ rfl receipt rfl, not_not.mp hdigest⟩
        · exact fun a b hab h other hother => hab.keeps_committed (h other hother)

/-- Reserving a nonce touches no receipt. -/
lemma yields_acceptNonce (fuel : Nat) (retention : Duration) (peerID nonce : String) (now : Time)
    (hs : s.Sound) :
    Yields P (fun _ _ => True) (acceptNonce P fuel retention peerID nonce now) s := by
  unfold acceptNonce
  split
  · exact yields_error hs _
  · induction fuel generalizing s with
    | zero => exact yields_error hs _
    | succ fuel ih =>
      simp only [reserveNonce, perform, Prog.bind_eq, Prog.issue_bind, Prog.pure_eq]
      refine ingests_free hs (fun _ => trivial) fun x result t v _ hv => ?_
      have hok : ∀ (b : Bool) (u : Store), u.Sound → Yields P (fun _ _ => True) (.ret (.ok b)) u :=
        fun b u hu => yields_ok hu trivial fun _ _ _ h => h
      cases result with
      | linked => exact hok true v hv
      | failed => exact yields_error hv _
      | «exists» =>
        refine ingests_free hv (fun _ => trivial) fun x file t u _ hu => ?_
        cases file with
        | none => exact ingests_free hu (fun _ => trivial) fun x _ t w _ hw => ih hw
        | some file =>
          simp only
          split
          · exact ingests_free hu (fun _ => trivial) fun x _ t w _ hw => ih hw
          · exact hok false u hu

/-- The pending receipt of a decoded delivery can be read back. -/
lemma waiting_newReceipt (hdecode : decode P exactBody = .ok envelope) (hnow : now.isZero = false) :
    (newReceipt P envelope exactBody now).Waiting (envelope.receiptID P) := by
  refine ⟨rfl, fun hid => ?_⟩
  have hsane := sane_of_decode hdecode
  have hdigest : bodyDigest P exactBody ≠ "" := by
    simp [bodyDigest]
  simp [Receipt.persisted, newReceipt, hid, hsane.teamID, hsane.originID, hsane.deliveryKey,
    hdigest, hnow]

/-- A pending receipt that is found or written has the id and the digest of the delivery. -/
lemma yields_preparePending (hdecode : decode P exactBody = .ok envelope)
    (hnow : now.isZero = false) (hs : s.Sound) : Yields P
      (fun pending _ => pending.1.bodyDigest = bodyDigest P exactBody ∧ pending.1.id =
        envelope.receiptID P)
      (preparePending P envelope exactBody now) s := by
  simp only [preparePending, readPending, perform, Prog.bind_eq, Prog.issue_bind, Prog.cmd_bind,
    Prog.pure_eq]
  refine safe_cmd_of_stable hs (fun _ _ h hab => hab.sound h)
    (fun _ _ => trivial) fun x found t v ht hx => ?_
  cases hx
  cases hlookup : t.pending.lookup (newReceipt P envelope exactBody now).id with
  | none =>
    simp only [Prog.ret_bind]
    split
    · refine ingests_free ht (fun _ => waiting_newReceipt hdecode hnow) fun x result t v _ hv => ?_
      cases result with
      | linked => exact yields_ok hv ⟨rfl, rfl⟩ fun _ _ _ h => h
      | failed => exact yields_error hv _
      | «exists» => exact yields_error hv _
    · exact yields_error ht _
  | some pending =>
    simp only
    split
    · simp only [Prog.ret_bind]
      split
      · exact yields_error ht _
      · rename_i hdigest
        exact yields_ok ht ⟨not_not.mp hdigest, (ht.waiting _ _ hlookup).1⟩ fun _ _ _ h => h
    · exact yields_error ht _

/-- A receipt that is published, or found in its place, is committed for exactly the body. -/
lemma yields_publishCommitted (hdecode : decode P exactBody = .ok envelope) {committed : Receipt}
    (hdigest : committed.bodyDigest = bodyDigest P exactBody)
    (hid : committed.id = envelope.receiptID P)
    (hs : s.Sound) (hqueue : committed.localQueueID ∈ s.queue.written) :
    Yields P (fun receipt t => Committed P t exactBody receipt)
      (publishCommitted P (envelope.receiptID P) exactBody committed) s := by
  have hlasting : ∀ receipt, Lasting fun t => Committed P t exactBody receipt :=
    fun receipt a b hab h => hab.keeps_committed h
  unfold publishCommitted
  split
  · refine ingests_cmd hs hqueue
      (fun a b hab h => hab.written _ h) (fun t ht => ⟨hid, ht⟩) fun x result t v hx hv _ => ?_
    obtain ⟨⟨outcome, files⟩, hlink, heq⟩ := Option.map_eq_some_iff.mp hx
    cases heq
    cases outcome with
    | linked =>
      exact yields_ok hv ⟨envelope, hdecode, (lookup_link hlink).2 rfl, hdigest⟩ (hlasting _)
    | failed => exact yields_error hv _
    | «exists» =>
      refine (yields_readCommitted _ hv).bind ?_
      rintro (err | _ | existing) u ⟨hu, hread⟩
      · exact yields_error hu err
      · exact yields_error hu _
      · simp only
        split
        · exact yields_error hu _
        · rename_i hsame
          exact yields_ok hu ⟨envelope, hdecode, hread _ rfl existing rfl, not_not.mp hsame⟩
            (hlasting _)
  · exact yields_error hs _

/-- A program of the queue as part of a request. -/
lemma ingests_onQueue {Q : α → Queue.Store → Prop} {p : Queue.QueueProg α} (hs : s.Sound)
    (hp : Safe Queue.machine (fun _ => QueueMoves) (fun _ _ => True) Q p s.queue) :
    Ingests P (fun result t => t.Sound ∧ Q result t.queue) (onQueue p) s := by
  refine Safe.embed ?_ ?_ ?_ ?_ ?_ hs hp
  · intro x c t r v hx
    simp only [machine, exec] at hx
    split at hx
    · rename_i y
      obtain ⟨⟨reply, q⟩, hq, heq⟩ := Option.map_eq_some_iff.mp hx
      cases heq
      exact ⟨y, hq⟩
    · cases hx
  · intro o a b ha hab
    exact ⟨hab.written, fun _ => (hab.sound ha).recorded⟩
  · exact fun _ _ _ _ => trivial
  · exact fun _ a b ha hab => hab.sound ha
  · intro x c t r v ht hx
    exact (progress_of_exec (P := P) (c := .queue c) trivial hx).1.sound ht

/-- The commit under the lock yields a receipt that is committed for exactly the body. -/
lemma yields_commitLocked (hdecode : decode P exactBody = .ok envelope) (fuel : Nat)
    (hnow : now.isZero = false) (hs : s.Sound) :
    Yields P (fun result t => Committed P t exactBody result.1)
      (commitLocked P fuel envelope exactBody now) s := by
  have hlasting : ∀ result : Receipt × Bool, Lasting fun t => Committed P t exactBody result.1 :=
    fun result a b hab h => hab.keeps_committed h
  refine (yields_readCommitted _ hs).bind ?_
  rintro (err | _ | existing) t ⟨ht, hread⟩
  · exact yields_error ht err
  · refine (yields_preparePending hdecode hnow ht).bind ?_
    rintro (err | ⟨pending, duplicate⟩) u ⟨hu, hpending⟩
    · exact yields_error hu err
    · obtain ⟨hdigest, hid⟩ := hpending _ rfl
      refine (ingests_onQueue hu (safe_enqueue _ fuel _ now hu.recorded)).bind ?_
      rintro (_ | message | ⟨localQueueID, again⟩) v ⟨hv, -, hwritten⟩
      · exact yields_error hv _
      · exact yields_error hv _
      · simp only
        split
        · exact yields_error hv _
        · have hpublish : Yields P (fun receipt t => Committed P t exactBody receipt)
              (publishCommitted P _ exactBody (pending.commit localQueueID now)) v :=
            yields_publishCommitted hdecode hdigest hid hv (hwritten localQueueID again rfl)
          refine hpublish.bind ?_
          rintro (err | committed) w ⟨hw, hcommitted⟩
          · exact yields_error hw err
          · refine ingests_cmd hw
              (hcommitted committed rfl) (hlasting (committed, duplicate)) (fun _ _ => trivial)
              fun x removed a b _ hb hcommitted => ?_
            cases removed with
            | true => exact yields_ok hb hcommitted (hlasting (committed, duplicate))
            | false => exact yields_error hb _
  · simp only
    split
    · exact yields_error ht _
    · rename_i hdigest
      exact yields_ok ht ⟨envelope, hdecode, hread _ rfl existing rfl, not_not.mp hdigest⟩
        (hlasting (existing, true))

/-- `CommitIngress` yields a receipt that is committed for exactly the body. -/
lemma yields_commitIngress (fuel : Nat) (exactBody : Bytes) (now : Time) (hs : s.Sound) :
    Yields P (fun result t => Committed P t exactBody result.1)
      (commitIngress P fuel exactBody now) s := by
  unfold commitIngress
  cases hdecode : decode P exactBody with
  | error message => exact yields_error hs _
  | ok envelope =>
    simp only
    split
    · exact yields_error hs _
    split
    · exact yields_error hs _
    · rename_i hnow
      refine ingests_free hs (fun _ => trivial) fun x locked t v _ hv => ?_
      cases locked with
      | false => exact yields_error hv _
      | true =>
        refine (yields_commitLocked hdecode fuel (by simpa using hnow) hv).bind ?_
        rintro (err | result) u ⟨hu, hcommitted⟩
        · exact ingests_free hu (fun _ => trivial) fun x _ a b _ hb => yields_error hb err
        · exact ingests_cmd hu
            (hcommitted result rfl) (fun a b hab h => hab.keeps_committed h) (fun _ _ => trivial)
            fun x _ a b _ hb h => yields_ok hb h fun c d hcd h => hcd.keeps_committed h

/-- The acknowledgement of a committed receipt repeats it. -/
lemma yields_ingressACK {request : IngressRequest} {receipt : Receipt} (duplicate : Bool)
    (hs : s.Sound) (hcommitted : Committed P s request.exactBody receipt) :
    Yields P (fun ack t => Acknowledged P t request ack)
      (.ret (ingressACK receipt duplicate)) s := by
  unfold ingressACK
  split
  · rename_i heligible
    exact yields_ok hs ⟨receipt, hcommitted, heligible, rfl, rfl⟩ fun a b hab h =>
      hab.keeps_acknowledged h
  · exact yields_error hs _

/-- `Accept` yields only acknowledgements of committed receipts. -/
lemma yields_accept (settings : Settings) (fuel : Nat) (peers : String → Option Peer)
    (request : IngressRequest) (now : Time) (hs : s.Sound) :
    Yields P (fun ack t => Acknowledged P t request ack)
      (accept P settings fuel peers request now) s := by
  by_cases hcomplete : request.complete = true
  · rw [accept, if_pos hcomplete]
    unfold acceptFrom
    cases authenticate P settings request (peers request.keyID) now with
    | error err => exact yields_error hs err
    | ok found =>
      refine (yields_lookupCommitted _ hs).bind ?_
      rintro (err | _ | existing) t ⟨ht, hread⟩
      · exact yields_error ht err
      · refine (yields_acceptNonce fuel _ _ _ now ht).bind ?_
        rintro (err | _ | _) u ⟨hu, -⟩
        · exact yields_error hu err
        · refine (yields_lookupCommitted _ hu).bind ?_
          rintro (err | _ | existing) v ⟨hv, hread⟩
          · exact yields_error hv err
          · exact yields_error hv _
          · exact yields_ingressACK true hv (hread _ rfl existing rfl)
        · refine (yields_commitIngress fuel _ now hu).bind ?_
          rintro (err | ⟨receipt, duplicate⟩) v ⟨hv, hcommitted⟩
          · exact yields_error hv err
          · exact yields_ingressACK duplicate hv (hcommitted _ rfl)
      · exact yields_ingressACK true ht (hread _ rfl existing rfl)
  · rw [accept, if_neg hcomplete]
    exact yields_error hs _

/-- Cleaning up nonces touches no receipt. -/
lemma yields_cleanup (retention : Duration) (now : Time) (hs : s.Sound) :
    Yields P (fun _ _ => True) (cleanup retention now) s := by
  have hpaths : ∀ (paths : List String) (removed : Nat) (t : Store), t.Sound →
      Yields P (fun _ _ => True) (cleanupNonces retention now removed paths) t := by
    intro paths
    induction paths with
    | nil => exact fun removed t ht => yields_ok ht trivial fun _ _ _ h => h
    | cons path rest ih =>
      intro removed t ht
      refine ingests_free ht (fun _ => trivial) fun x file a b _ hb => ?_
      rw [Prog.ret_bind]
      extract_lets expired
      split
      · exact ingests_free hb (fun _ => trivial) fun x _ a b _ hb => ih (removed + 1) b hb
      · exact ih removed b hb
  unfold cleanup
  split
  · exact yields_error hs _
  · exact ingests_free hs (fun _ => trivial) fun x paths a b _ hb => hpaths paths 0 b hb

end Request

/-! ## Runs of any number of processes -/

/-- The calls of a process on the state directory: an ingress accepts a request with the peers
it knows, a delivery is committed, nonces are cleaned up, or the local queue is worked on. -/
inductive Call where
  | accept (settings : Settings) (fuel : Nat) (peers : String → Option Peer)
      (request : IngressRequest) (now : Time)
  | commitIngress (fuel : Nat) (exactBody : Bytes) (now : Time)
  | cleanup (retention : Duration) (now : Time)
  | queue (k : Queue.Call)

/-- The program of a call.  An acknowledgement that is returned is recorded. -/
def body (P : Primitives) : Call → Queue.Memory → IngressProg Queue.Memory
  | .accept settings fuel peers request now, m => do
    match ← accept P settings fuel peers request now with
    | .error _ => return m
    | .ok ack =>
      perform (.answer request ack)
      return m
  | .commitIngress fuel exactBody now, m => do
    let _ ← commitIngress P fuel exactBody now
    return m
  | .cleanup retention now, m => do
    let _ ← cleanup retention now
    return m
  | .queue k, m => onQueue (Queue.body (fun key => P.sha256 (utf8 key)) k m)

/-- Any number of processes on one state directory. -/
def relays (P : Primitives) : Protocol Cmd Reply Store Choice Call Queue.Memory Nat where
  machine := machine
  may := fun _ _ _ _ => true
  body := fun _ => body P
  fresh := {}

/-- A configuration of the processes on a state directory. -/
abbrev RelaysConfig := Config Cmd Reply Store Call Queue.Memory Nat

/-- An empty state directory, before any process starts. -/
def relaysStart : RelaysConfig := { store := {}, procs := fun _ => none }

/-- What every process promises. -/
def relaysContract (P : Primitives) (_ : Nat) : Contract Cmd Store Call Queue.Memory where
  rest := Progress
  rely := fun _ _ => Progress
  pre := fun _ => May P
  idle := fun _ s => s.Sound
  done := fun _ _ s => s.Sound

lemma relaysContract_lawful (P : Primitives) (i : Nat) : (relaysContract P i).Lawful where
  rely_refl := fun _ _ => Progress.refl
  rely_trans := fun _ _ _ _ _ => Progress.trans
  rest_refl := Progress.refl
  idle_stable := fun _ _ _ h hst => hst.sound h
  idle_of_done := fun _ _ _ h => h

/-- A call returns its memory once it is done. -/
lemma ingests_memory (hs : s.Sound) (m : Memory) :
    Ingests P (fun _ t => t.Sound) (.ret m) s :=
  safe_ret_of_stable hs (fun _ _ h hab => hab.sound h) fun _ ht => ht

/-- Every call keeps the contract. -/
lemma ingests_body (P : Primitives) (k : Call) (m : Queue.Memory) (hs : s.Sound) :
    Ingests P (fun _ t => t.Sound) (body P k m) s := by
  cases k with
  | accept settings fuel peers request now =>
    refine (yields_accept settings fuel peers request now hs).bind ?_
    rintro (err | ack) t ⟨ht, hack⟩
    · exact ingests_memory ht m
    · exact ingests_cmd ht (hack ack rfl) (fun a b hab h => hab.keeps_acknowledged h) (fun _ h => h)
        fun x _ a b _ hb _ => ingests_memory hb m
  | commitIngress fuel exactBody now =>
    exact (yields_commitIngress fuel exactBody now hs).bind fun _ t ht => ingests_memory ht.1 m
  | cleanup retention now =>
    exact (yields_cleanup retention now hs).bind fun _ t ht => ingests_memory ht.1 m
  | queue k =>
    exact (ingests_onQueue hs (safe_recorded _ hs.recorded)).weaken (fun _ _ h => h)
      fun _ _ h => h.1

/-- What holds along every run. -/
structure RelaysInvariant (P : Primitives) (c : RelaysConfig) : Prop where
  processes : c.Sound machine (relaysContract P)
  sound : c.store.Sound
  acknowledged : ∀ request ack, (request, ack) ∈ c.store.acks →
    Acknowledged P c.store request ack

variable {c : RelaysConfig}

/-- One event keeps the invariant and changes no committed receipt. -/
lemma RelaysInvariant.next {c' : RelaysConfig} {e : Event Call Choice Nat} (h : RelaysInvariant P c)
    (he : (relays P).next e c = some c') :
    RelaysInvariant P c' ∧ Progress c.store c'.store := by
  have hprocesses : c'.Sound machine (relaysContract P) := by
    refine h.processes.next (relaysContract_lawful P) he ?_ ?_ ?_
    · exact fun _ _ _ => h.sound
    · exact fun i k m _ _ _ => ingests_body P k m h.sound
    · intro i x k o next r v _ _ hpre hexec j a _ _
      obtain ⟨hprogress, -⟩ := progress_of_exec hpre hexec
      cases a with
      | idle m => exact hprogress
      | busy k p => exact hprogress
  cases Protocol.effect_of_next he with
  | spawned | called | returned | killed =>
    exact ⟨⟨hprocesses, h.sound, h.acknowledged⟩, .refl _⟩
  | issued i x k o next r v runs result =>
    have hpre : May P o c.store := h.processes.pre (relaysContract_lawful P) runs
    obtain ⟨hprogress, hacks⟩ := progress_of_exec hpre result
    refine ⟨⟨hprocesses, hprogress.sound h.sound, fun request ack hack => ?_⟩, hprogress⟩
    rcases hacks request ack hack with hold | hnew
    · exact hprogress.keeps_acknowledged (h.acknowledged request ack hold)
    · exact hprogress.keeps_acknowledged hnew

/-- Nor does a whole run. -/
lemma RelaysInvariant.run {c' : RelaysConfig} (h : RelaysInvariant P c)
    (hc' : Reachable (relays P) (fun _ _ => True) c c') :
    RelaysInvariant P c' ∧ Progress c.store c'.store :=
  hc'.invariant (fun c' => RelaysInvariant P c' ∧ Progress c.store c'.store) ⟨h, .refl _⟩
    fun _ _ _ hinv _ he => (hinv.1.next he).imp_right hinv.2.trans

/-- The invariant holds in every run. -/
lemma relaysInvariant_of_reachable (hc : Reachable (relays P) (fun _ _ => True) relaysStart c) :
    RelaysInvariant P c := by
  refine (RelaysInvariant.run ⟨?_, ⟨?_, ?_, ?_⟩, ?_⟩ hc).1
  · intro i a hi
    cases hi
  · intro d fileName hmem
    cases hmem
  · intro id receipt hlookup
    cases hlookup
  · intro id receipt hlookup
    cases hlookup
  · intro request ack hack
    cases hack

/-- Bodies with the same digest are the same when SHA-256 has no collisions. -/
lemma eq_of_bodyDigest_eq (hsha : Function.Injective P.sha256) {first second : Bytes}
    (h : bodyDigest P first = bodyDigest P second) : first = second :=
  hsha (String.append_right_inj _ |>.mp h)

/-- In every run, every acknowledgement has its committed receipt on disk and a queue id that
was written to the queue; and when SHA-256 has no collisions, two acknowledgements of the same
delivery have the same receipt, the same queue id and the same body. -/
theorem acks_match_receipts (P : Primitives) (hsha : Function.Injective P.sha256)
    {c : RelaysConfig} (hc : Reachable (relays P) (fun _ _ => True) relaysStart c) :
    (∀ request ack, (request, ack) ∈ c.store.acks →
      (∃ receipt, c.store.committed.lookup ack.receiptID = some receipt ∧
        receipt.ackEligible true = true ∧ receipt.id = ack.receiptID ∧
        receipt.localQueueID = ack.localQueueID) ∧
      ack.localQueueID ∈ c.store.queue.written) ∧
    ∀ request₁ ack₁ request₂ ack₂ envelope₁ envelope₂,
      (request₁, ack₁) ∈ c.store.acks → (request₂, ack₂) ∈ c.store.acks →
      decode P request₁.exactBody = .ok envelope₁ → decode P request₂.exactBody = .ok envelope₂ →
      envelope₁.teamID = envelope₂.teamID → envelope₁.origin.id = envelope₂.origin.id →
      envelope₁.delivery.key = envelope₂.delivery.key →
      ack₁.receiptID = ack₂.receiptID ∧ ack₁.localQueueID = ack₂.localQueueID ∧
        request₁.exactBody = request₂.exactBody := by
  have hinv := relaysInvariant_of_reachable hc
  constructor
  · intro request ack hack
    obtain ⟨receipt, ⟨envelope, -, hlookup, -⟩, heligible, hid, hqueue⟩ :=
      hinv.acknowledged request ack hack
    obtain ⟨hpath, hwritten⟩ := hinv.sound.receipts _ receipt hlookup
    refine ⟨⟨receipt, ?_, heligible, hid.symm, hqueue.symm⟩, hqueue ▸ hwritten⟩
    rw [hid, hpath]
    exact hlookup
  · intro request₁ ack₁ request₂ ack₂ envelope₁ envelope₂ hack1 hack2 hdecode1 hdecode2 hteam
      horigin hkey
    obtain ⟨receipt1, ⟨decoded1, hd1, hlookup1, hdigest1⟩, -, hid1, hqueue1⟩ :=
      hinv.acknowledged request₁ ack₁ hack1
    obtain ⟨receipt2, ⟨decoded2, hd2, hlookup2, hdigest2⟩, -, hid2, hqueue2⟩ :=
      hinv.acknowledged request₂ ack₂ hack2
    obtain rfl : decoded1 = envelope₁ := Except.ok.inj (hd1.symm.trans hdecode1)
    obtain rfl : decoded2 = envelope₂ := Except.ok.inj (hd2.symm.trans hdecode2)
    rw [hteam, horigin, hkey, hlookup2] at hlookup1
    obtain rfl := Option.some.inj hlookup1
    exact ⟨hid1.trans hid2.symm, hqueue1.trans hqueue2.symm,
      eq_of_bodyDigest_eq hsha (hdigest1.symm.trans hdigest2)⟩

/-- A committed receipt is write-once: however the run goes on, it stays on disk as it is, its
queue id stays recorded, and every acknowledgement of its id is for the body it was committed
for and names its queue id. -/
theorem committed_receipts_stay (P : Primitives) {c c' : RelaysConfig}
    (hc : Reachable (relays P) (fun _ _ => True) relaysStart c)
    (hc' : Reachable (relays P) (fun _ _ => True) c c') {id : String} {receipt : Receipt}
    (hreceipt : c.store.committed.lookup id = some receipt) :
    c'.store.committed.lookup id = some receipt ∧
      receipt.localQueueID ∈ c'.store.queue.written ∧
      ∀ request ack, (request, ack) ∈ c'.store.acks → ack.receiptID = id →
        ack.localQueueID = receipt.localQueueID ∧
          bodyDigest P request.exactBody = receipt.bodyDigest := by
  obtain ⟨hinv, hprogress⟩ := (relaysInvariant_of_reachable hc).run hc'
  have hstays := hprogress.committed id receipt hreceipt
  refine ⟨hstays, (hinv.sound.receipts id receipt hstays).2, fun request ack hack hid => ?_⟩
  obtain ⟨named, ⟨envelope, -, hlookup, hdigest⟩, -, hackID, hqueue⟩ :=
    hinv.acknowledged request ack hack
  -- the receipt the acknowledgement repeats lies under its own id, so it is this one
  rw [← (hinv.sound.receipts _ named hlookup).1, ← hackID, hid, hstays] at hlookup
  obtain rfl := Option.some.inj hlookup
  exact ⟨hqueue, hdigest.symm⟩

/-! ## A sample delivery -/

/-- An injective stand-in for SHA-256: 64 equal digits for the key material and for the body of
the sample delivery, and the bytes behind an `x` for everything else. -/
def sampleHash (keyMaterial body bytes : Bytes) : String :=
  String.ofList (if bytes = keyMaterial then List.replicate 64 '0'
    else if bytes = body then List.replicate 64 '1'
    else 'x' :: bytes.map Char.ofUInt8)

lemma sampleHash_injective (keyMaterial body : Bytes) :
    Function.Injective (sampleHash keyMaterial body) := by
  have hchar : Function.Injective Char.ofUInt8 := by
    refine Function.LeftInverse.injective (g := Char.toUInt8) fun b => ?_
    delta Char.ofUInt8
    simp [Char.toUInt8]
  intro first second h
  have hdigits := String.ofList_injective h
  split_ifs at hdigits with hkey hkey' hbody' hbody hkey' hbody'
  all_goals simp_all [List.replicate_succ, hchar.list_map.eq_iff]

/-- The notification of the sample delivery. -/
def sampleEvent : Notification where
  version := "1"
  source := "codex"
  surface := "cli"
  runtime := "host"
  event := "task.completed"
  status := "completed"
  occurredAt := 1
  idempotencyKey := "turn-1"
  priority := "normal"
  privacyLevel := "metadata-only"

/-- The envelope of the sample delivery. -/
def sampleEnvelope : Envelope where
  protocolVersion := "1"
  teamID := "team"
  origin := ⟨"devbox", "host"⟩
  delivery := ⟨"sha256:" ++ String.ofList (List.replicate 64 '0'), "turn-1"⟩
  sentAt := 5 * minute + 1
  nonce := String.ofList (List.replicate 32 'a')
  hop := 0
  event := sampleEvent

/-- The body that spells the sample envelope. -/
def sampleBody : Bytes :=
  utf8 ("\x7b\"protocolVersion\":\"1\",\"teamId\":\"team\",\"origin\":\x7b\"id\":\"devbox\"," ++
    "\"runtime\":\"host\"\x7d,\"delivery\":\x7b\"key\":\"" ++ sampleEnvelope.delivery.key ++
    "\",\"producerKey\":\"turn-1\"\x7d,\"sentAt\":\"0001-01-01T00:05:00.000000001Z\"," ++
    "\"nonce\":\"" ++ sampleEnvelope.nonce ++ "\",\"hop\":0,\"event\":\x7b\"version\":\"1\"," ++
    "\"source\":\"codex\",\"surface\":\"cli\",\"runtime\":\"host\"," ++
    "\"event\":\"task.completed\",\"status\":\"completed\"," ++
    "\"occurredAt\":\"0001-01-01T00:00:00.000000001Z\",\"idempotencyKey\":\"turn-1\"," ++
    "\"priority\":\"normal\",\"privacyLevel\":\"metadata-only\"\x7d\x7d")

/-- Sample libraries that know the body of the sample envelope, and hash without collisions. -/
def samplePrimitives : Primitives :=
  { hashingPrimitives with
    decodeJSON := fun body =>
      if body = sampleBody then .ok sampleEnvelope else .error "no relay envelope"
    sha256 := sampleHash (hashInput "agentbell-relay-delivery-v1" "team" "devbox" "turn-1")
      sampleBody }

/-- The peer that sends the sample delivery. -/
def samplePeer : Peer where
  id := "peer"
  teamID := "team"
  originID := "devbox"
  publicKey := List.replicate 32 0
  scopes := ["relay:ingest"]
  allowedSources := ["codex"]
  allowedRuntimes := ["host"]
  revoked := false

/-- The request with the sample delivery. -/
def sampleRequest : IngressRequest where
  keyID := "peer"
  method := "POST"
  target := "/v1/events"
  sentAt := sampleEnvelope.sentAt
  nonce := sampleEnvelope.nonce
  exactBody := sampleBody
  signature :=
    match signingMaterial samplePrimitives "POST" "/v1/events" sampleEnvelope.sentAt
      sampleEnvelope.nonce sampleBody with
    | .ok material => samplePeer.publicKey ++ material.drop (material.length - 32)
    | .error _ => []

/-- The sample request arrives at a given time. -/
def sampleAccept (now : Time) : Call :=
  .accept {} 2 (fun _ => some samplePeer) sampleRequest now

/-- The queue id of the sample delivery. -/
def sampleQueueID : String := String.ofList (List.replicate 32 '0')

/-- The acknowledgement of the sample delivery. -/
def sampleACK (duplicate : Bool) : IngressACK where
  receiptID := receiptID samplePrimitives "team" "devbox" sampleEnvelope.delivery.key
  localQueueID := sampleQueueID
  duplicate := duplicate

/-- `n` steps of process `i` that work. -/
def worksOf (i n : Nat) : List (Event Call Choice Nat) := List.replicate n (.step i .works)

/-- Process `i` queues the notification of the sample delivery. -/
def queuesOf (i : Nat) : List (Event Call Choice Nat) :=
  .step i (.queue (.id sampleQueueID)) :: List.replicate 4 (.step i (.queue .nothing))

/-- The sample request is accepted and arrives again. -/
def acceptedRun : List (Event Call Choice Nat) :=
  [.spawn 0, .call 0 (sampleAccept 1)] ++ worksOf 0 6 ++ queuesOf 0 ++ worksOf 0 5 ++
    [.call 0 (sampleAccept 2)] ++ worksOf 0 2

/-- The configuration after the sample request was accepted twice. -/
def acceptedEnd : RelaysConfig :=
  (relays samplePrimitives).endOf (fun _ _ => true) acceptedRun relaysStart

/-- Both acknowledgements of the sample request name the item that was queued. -/
theorem acks_match_receipts_twice : Function.Injective samplePrimitives.sha256 ∧
      Reachable (relays samplePrimitives) (fun _ _ => True) relaysStart acceptedEnd ∧
      acceptedEnd.store.acks = [(sampleRequest, sampleACK true), (sampleRequest, sampleACK false)] ∧
      sampleQueueID ∈ acceptedEnd.store.queue.written := by
  have hsha : Function.Injective samplePrimitives.sha256 := sampleHash_injective _ _
  have hrun : ((relays samplePrimitives).runIf (fun _ _ => true) acceptedRun relaysStart).any
      (fun c => c.store.acks = [(sampleRequest, sampleACK true), (sampleRequest, sampleACK false)])
        = true := by decide +kernel
  obtain ⟨hreach, hgood⟩ := reachable_endOf (fun _ _ _ => trivial) .start hrun
    (rfl : acceptedEnd = _)
  have hacks := of_decide_eq_true hgood
  have hmem : (sampleRequest, sampleACK true) ∈ acceptedEnd.store.acks := by
    rw [hacks]
    exact List.mem_cons_self
  exact ⟨hsha, hreach, hacks,
    ((acks_match_receipts samplePrimitives hsha hreach).1 sampleRequest (sampleACK true) hmem).2⟩

lemma acceptedRun_committed :
    (((relays samplePrimitives).runIf (fun _ _ => true) (acceptedRun.take 18) relaysStart).any
      fun c => (c.store.committed.lookup (sampleACK true).receiptID).isSome &&
        ((relays samplePrimitives).runIf (fun _ _ => true) (acceptedRun.drop 18) c).any fun c' =>
          (sampleRequest, sampleACK true) ∈ c'.store.acks) = true := by
  decide +kernel

/-- The receipt of the sample request stays while the request arrives again, and the second
acknowledgement names its queue id. -/
theorem receipt_stays_at_retry : ∃ c c' receipt,
    Reachable (relays samplePrimitives) (fun _ _ => True) relaysStart c ∧
      Reachable (relays samplePrimitives) (fun _ _ => True) c c' ∧
      c.store.committed.lookup (sampleACK true).receiptID = some receipt ∧
      c'.store.committed.lookup (sampleACK true).receiptID = some receipt ∧
      sampleQueueID = receipt.localQueueID := by
  obtain ⟨c, hrun, hc⟩ := (Option.any_eq_true _ _).mp acceptedRun_committed
  obtain ⟨hcommitted, hretry⟩ := (Bool.and_eq_true _ _).mp hc
  obtain ⟨receipt, hreceipt⟩ := Option.isSome_iff_exists.mp hcommitted
  obtain ⟨c', hrun', hack⟩ := (Option.any_eq_true _ _).mp hretry
  have hreach : Reachable (relays samplePrimitives) (fun _ _ => True) relaysStart c :=
    reachable_of_runIf (fun _ _ _ => trivial) _ .start hrun
  have hreach' : Reachable (relays samplePrimitives) (fun _ _ => True) c c' :=
    reachable_of_runIf (fun _ _ _ => trivial) _ .start hrun'
  obtain ⟨hstays, -, hacks⟩ := committed_receipts_stay samplePrimitives hreach hreach' hreceipt
  exact ⟨c, c', receipt, hreach, hreach', hreceipt, hstays,
    (hacks sampleRequest (sampleACK true) (of_decide_eq_true hack) rfl).1⟩

end AgentBell.Relay
