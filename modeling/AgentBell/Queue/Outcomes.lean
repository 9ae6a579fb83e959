import AgentBell.Queue.Operations

/-!
# What the operations come down to

`listUnlocked` moves a file aside when its envelope does not pass the checks it makes.  Here
it is shown that the operations only ever write envelopes that pass them: the changes an
operation makes to the envelope it read or was given keep version, id, ledger and disposition,
or replace the last two by a pair that was checked.  An operation on a held item comes down to
an error, one move out of `inflight` or one new envelope (`HeldOutcome`).

The last two parts say what listing a directory and reserving an idempotency marker return
when other processes may change the queue in between, for any interference that keeps an
assertion `A`: an item of the list was in the directory at some moment of the listing, and an
id that was already there belongs to an item that was seen.
-/

namespace AgentBell.Queue

open Interleaving Interleaving.Routine

variable {fileName : FileName} {path : ItemPath}

/-- An envelope that passes the checks of a listing and has the id of its file name. -/
structure Envelope.Fits (envelope : Envelope) (fileName : FileName) : Prop where
  listable : envelope.listable = true
  id_eq : envelope.id = fileName.id

/-- An item whose envelope passes the checks of a listing. -/
abbrev Item.Fits (item : Item) : Prop := item.envelope.Fits item.fileName

/-- Every stored envelope passes the checks of a listing and can be written again. -/
def Store.Valid (s : Store) : Prop :=
  ∀ path envelope, s.files.lookup path = some envelope →
    envelope.Fits path.2 ∧ envelope.encodable = true

/-! ## Changes that keep an envelope valid -/

variable {a b : Envelope}

/-- Changing other fields than version, id, ledger and disposition keeps an envelope fit. -/
lemma Envelope.Fits.congr (h : a.Fits fileName) (hversion : b.queueVersion = a.queueVersion)
    (hid : b.id = a.id) (hledger : b.ledger = a.ledger)
    (hdisposition : b.disposition = a.disposition) : b.Fits fileName where
  listable := by rw [Envelope.listable_congr hversion hid hledger hdisposition, h.listable]
  id_eq := by rw [hid, h.id_eq]

/-- A ledger and a disposition that were checked keep an envelope fit. -/
lemma Envelope.Fits.of_valid (h : a.Fits fileName) (hversion : b.queueVersion = a.queueVersion)
    (hid : b.id = a.id) (hvalid : validateDeliveryEnvelope b = .ok ()) : b.Fits fileName where
  listable := by
    obtain ⟨ha, hne, -⟩ := Envelope.listable_iff.mp h.listable
    exact Envelope.listable_of_valid (hversion.trans ha) (hid ▸ hne) hvalid
  id_eq := by rw [hid, h.id_eq]

variable {envelope : Envelope}

/-- What is stored for a fit envelope is the envelope. -/
lemma Envelope.Fits.encoded_eq (h : envelope.Fits fileName) : envelope.encoded = envelope :=
  Envelope.encoded_of_listable h.listable

/-- The envelope of a new item is fit for its file name. -/
lemma newEnvelope_fits {id : String} (hid : id ≠ "") (notification : Notification)
    (now : Time) : (newEnvelope id notification now).Fits ⟨now, id⟩ where
  listable := Envelope.listable_of_valid rfl hid rfl
  id_eq := rfl

/-- A random id is not empty. -/
lemma ne_empty_of_isRandomID {id : String} (h : isRandomID id = true) : id ≠ "" := by
  rintro rfl
  simp [isRandomID] at h

variable {s t : Store}

/-- Storing a fit envelope that can be written keeps the store valid. -/
lemma Store.Valid.insert (h : s.Valid) (hfits : envelope.Fits path.2)
    (henc : envelope.encodable = true) (hfiles : t.files = s.files.insert path envelope.encoded) :
    t.Valid := by
  intro other stored hstored
  rw [hfiles] at hstored
  by_cases hpath : other = path
  · subst hpath
    rw [AList.lookup_insert] at hstored
    obtain rfl := Option.some.inj hstored
    rw [hfits.encoded_eq]
    exact ⟨hfits, henc⟩
  · rw [AList.lookup_insert_ne hpath] at hstored
    exact h other stored hstored

/-- Erasing a file keeps the store valid. -/
lemma Store.Valid.erase (h : s.Valid) (hfiles : t.files = s.files.erase path) : t.Valid := by
  intro other stored hstored
  rw [hfiles] at hstored
  by_cases hpath : other = path
  · subst hpath
    rw [AList.lookup_erase] at hstored
    cases hstored
  · rw [AList.lookup_erase_ne hpath] at hstored
    exact h other stored hstored

/-! ## Steps with a text in front of their failures -/

section Steps

variable {ℓ α : Type} {l : ℓ}

@[simp] lemma working_wrapping (text : String) (c : Cmd) :
    (wrapping text (step c) : QueueRoutine ℓ (Reply c)).working l =
      .cmd c fun r => .ret (.ok r, l) :=
  rfl

@[simp] lemma working_wrapping_bind (text : String) (c : Cmd) (f : Reply c → QueueRoutine ℓ α) :
    (wrapping text (step c) >>= f).working l = .cmd c fun r => (f r).working l := rfl

lemma working_looksPresent (path : ItemPath) :
    (looksPresent path : QueueRoutine ℓ Bool).working l =
      .cmd (.stat path) fun present => .ret (.ok present, l) := rfl

lemma working_looksPresent_bind (path : ItemPath) (f : Bool → QueueRoutine ℓ α) :
    (looksPresent path >>= f).working l = .cmd (.stat path) fun present => (f present).working l :=
  rfl

/-- A file that is in the place of the one to be written is no failure. -/
lemma working_writeUnlessExists (directory : Directory) (fileName : FileName)
    (envelope : Envelope) : (writeUnlessExists directory fileName envelope).working l =
      ((writeNew directory fileName envelope).working l).bind fun
        | (.ok _, l) => .ret (.ok true, l)
        | (.error err, l) => .ret (if err = .exist then .ok false else .error err, l) := by
  rw [writeUnlessExists, working_catching, working_bind, Prog.bind_assoc]
  refine congrArg _ (funext ?_)
  rintro ⟨err | ⟨⟩, l'⟩
  · simp only [Prog.ret_bind]
    split
    · rfl
    · rfl
  · rfl

end Steps

/-! ## Operations on a held item -/

/-- The checks on the item of a call pass only for a held inflight item. -/
lemma eq_of_validateInflightItem {held : Option Item} {item : Item}
    (h : validateInflightItem held = .ok item) :
    held = some item ∧ item.envelope.state = .inflight := by
  unfold validateInflightItem at h
  split at h
  · cases h
  · split at h
    · cases h
    · rename_i hstate
      cases h
      exact ⟨rfl, not_not.mp hstate⟩

/-- What an operation on a held item comes down to: nothing is written, the item is moved out of
`inflight`, or it gets a new envelope in `inflight`, after which targets may be listed. -/
inductive HeldOutcome (item : Item) : {α : Type} → QueueProg (Except OsError α × Item) → Prop where
  | kept {α : Type} (result : Except OsError α) : HeldOutcome item (.ret (result, item))
  | advance {destination : Directory} {updated : Envelope}
      (inflight : item.envelope.state = .inflight) (out : destination ≠ .inflight)
      (left : updated.state ≠ .inflight) (fits : item.Fits → updated.Fits item.fileName) :
      HeldOutcome item ((advance destination updated).working item)
  | rewrite {updated : Envelope} (inflight : item.envelope.state = .inflight)
      (fits : item.Fits → updated.Fits item.fileName) :
      HeldOutcome item ((rewrite updated).working item)
  | resolve {updated : Envelope} (ready : List DeliveryTarget)
      (inflight : item.envelope.state = .inflight)
      (fits : item.Fits → updated.Fits item.fileName) :
      HeldOutcome item ((rewrite updated >>= fun _ => pure ready).working item)

section Held

variable {α β : Type} {item : Item}

/-- A check fails before anything is written, or the rest of the operation follows. -/
lemma heldOutcome_check {x : Except String α} {f : α → QueueRoutine Item β}
    (h : ∀ a, x = .ok a → HeldOutcome item ((f a).working item)) :
    HeldOutcome item ((check x >>= f).working item) := by
  cases x with
  | error message => exact .kept _
  | ok a => exact h a rfl

lemma heldOutcome_raiseIf {bad : Prop} [Decidable bad] {e : OsError}
    {f : Unit → QueueRoutine Item β} (h : HeldOutcome item ((f ()).working item)) :
    HeldOutcome item ((raiseIf bad e >>= f).working item) := by
  rw [working_raiseIf_bind]
  split
  · exact .kept _
  · exact h

/-- The checks every operation starts with. -/
lemma heldOutcome_inflight {f : Item → QueueRoutine Item β}
    (h : item.envelope.state = .inflight → HeldOutcome item ((f item).working item)) :
    HeldOutcome item
      ((locals >>= fun held => check (validateInflightItem (some held)) >>= f).working item) := by
  rw [working_locals_bind]
  refine heldOutcome_check fun checked hchecked => ?_
  obtain ⟨⟨⟩, hstate⟩ := eq_of_validateInflightItem hchecked
  exact h hstate

/-- `Ack` moves the item to `history` or fails. -/
lemma heldOutcome_ack (now : Time) : HeldOutcome item ((ack now).working item) := by
  refine heldOutcome_inflight fun hstate => heldOutcome_check fun _ _ => ?_
  exact .advance hstate (by decide) (by simp [ackedEnvelope]) fun hfits =>
    hfits.congr rfl rfl rfl rfl

/-- `Nack` moves the item to `pending` or `dead` or fails. -/
lemma heldOutcome_nack (cause : Option String) (now : Time) (backoff : List Duration) :
    HeldOutcome item ((nack cause now backoff).working item) := by
  refine heldOutcome_inflight fun hstate => heldOutcome_raiseIf ?_
  dsimp only
  split
  · exact .advance hstate (by decide) (by simp) fun hfits => hfits.congr rfl rfl rfl rfl
  · exact .advance hstate (by decide) (by simp) fun hfits => hfits.congr rfl rfl rfl rfl

/-- `Defer` moves the item to `pending` or fails. -/
lemma heldOutcome_defer (now nextAttemptAt : Time) :
    HeldOutcome item ((defer now nextAttemptAt).working item) := by
  refine heldOutcome_inflight fun hstate => ?_
  split
  · exact .kept _
  · refine heldOutcome_raiseIf (heldOutcome_check fun _ _ => heldOutcome_raiseIf ?_)
    exact .advance hstate (by decide) (by simp) fun hfits => hfits.congr rfl rfl rfl rfl

/-- A change of one target writes a checked envelope or fails. -/
lemma heldOutcome_updateTarget (target : DeliveryTarget)
    (update : DeliveryLedgerEntry → Except String DeliveryLedgerEntry) (now : Time) :
    HeldOutcome item ((updateTarget target update now).working item) := by
  refine heldOutcome_inflight fun hstate => ?_
  split
  · exact .kept _
  · refine heldOutcome_check fun _ _ => heldOutcome_check fun ledger _ => ?_
    refine heldOutcome_check fun _ hvalid => .rewrite hstate fun hfits => ?_
    exact hfits.of_valid rfl rfl (mapError_eq_ok.mp hvalid)

/-- `NackTarget` writes a checked envelope or fails. -/
lemma heldOutcome_nackTarget (target : DeliveryTarget) (cause : Option String)
    (nextAttemptAt now : Time) :
    HeldOutcome item ((nackTarget target cause nextAttemptAt now).working item) := by
  cases cause with
  | none => exact .kept _
  | some cause => exact heldOutcome_updateTarget target _ now

/-- `DeadTarget` writes a checked envelope or fails. -/
lemma heldOutcome_deadTarget (target : DeliveryTarget) (cause : Option String) (now : Time) :
    HeldOutcome item ((deadTarget target cause now).working item) := by
  cases cause with
  | none => exact .kept _
  | some cause => exact heldOutcome_updateTarget target _ now

/-- `ResolveTargets` writes a checked envelope, finds the targets resolved, or fails. -/
lemma heldOutcome_resolveTargets (targets : List DeliveryTarget) (now : Time) :
    HeldOutcome item ((resolveTargets targets now).working item) := by
  refine heldOutcome_inflight fun hstate => ?_
  split
  · refine heldOutcome_check fun ledger _ => heldOutcome_check fun _ hvalid => ?_
    exact .resolve _ hstate fun hfits => hfits.of_valid rfl rfl hvalid
  · exact heldOutcome_check fun _ _ => .kept _

end Held

/-! ## Listing a directory while others work -/

section Listing

variable {rely : Option Cmd → Store → Store → Prop} {pre : Cmd → Store → Prop}
  {A : Store → Prop} {s : Store}

/-- An item that was in the directory in some store in which `A` held. -/
def Sighted (A : Store → Prop) (directory : Directory) (item : Item) : Prop :=
  ∃ t, A t ∧ t.files.lookup (directory, item.fileName) = some item.envelope

/-- What reading a list of files returns: the items of all of them, each sighted, or an error
because one of them had gone. -/
def ReadResult (A : Store → Prop) (directory : Directory) (fileNames : List FileName) :
    Except OsError (List Item) → Prop
  | .ok items => items.map Item.fileName = fileNames ∧ ∀ item ∈ items, Sighted A directory item
  | .error _ => ∃ t, A t ∧ ∃ fileName ∈ fileNames, (directory, fileName) ∉ t.files

/-- Reading files, in a store where every envelope is valid whatever the others do. -/
lemma safe_readItems (hrefl : ∀ o s, rely o s s) (hA : ∀ o s t, A s → rely o s t → A t)
    (hvalid : ∀ t, A t → t.Valid) (hpre : ∀ t path, A t → pre (.readFile path) t)
    (directory : Directory) (fileNames : List FileName) (hs : A s) : Safe machine rely pre
      (fun o t => A t ∧ ReadResult A directory fileNames o.1)
      ((readItems directory fileNames).working ()) s := by
  induction fileNames generalizing s with
  | nil =>
    refine safe_ret_of_stable hs (hA none) fun t ht => ⟨ht, rfl, ?_⟩
    intro item hitem
    cases hitem
  | cons fileName rest ih =>
    rw [readItems, working_perform_bind]
    refine safe_cmd_of_stable hs (hA _) (fun t ht => hpre t _ ht) ?_
    intro x r t v ht hx
    cases hx
    cases hread : t.files.lookup (directory, fileName) with
    | none =>
      refine safe_ret_of_stable ht (hA none) fun u hu => ⟨hu, t, ht, fileName, ?_, ?_⟩
      · exact List.mem_cons_self
      · exact AList.lookup_eq_none.mp hread
    | some envelope =>
      have hfits : envelope.Fits fileName := (hvalid t ht _ _ hread).1
      simp only [hfits.listable, if_true, working_bind]
      refine Safe.bind hrefl (ih ht) ?_
      rintro ⟨err | items, ⟨⟩⟩ u ⟨hu, hresult⟩
      · obtain ⟨w, hw, missing, hmem, hgone⟩ := hresult
        refine safe_ret_of_stable hu (hA none) fun y hy => ⟨hy, w, hw, missing, ?_, hgone⟩
        exact List.mem_cons_of_mem _ hmem
      · obtain ⟨hnames, hitems⟩ := hresult
        refine safe_ret_of_stable hu (hA none) fun y hy => ⟨hy, ?_, ?_⟩
        · rw [List.map_cons, hnames]
        · intro item hitem
          rcases List.mem_cons.mp hitem with rfl | hitem
          · exact ⟨t, ht, hread⟩
          · exact hitems item hitem

/-- What listing a directory returns: sighted items, among them one for each file that was
there when the directory was read, or an error because one of these files had gone. -/
def ListResult (A : Store → Prop) (directory : Directory) :
    Except OsError (List Item) → Prop
  | .ok items =>
    (∀ item ∈ items, Sighted A directory item) ∧
      ∃ t, A t ∧ ∀ fileName, (directory, fileName) ∈ t.files →
        ∃ item ∈ items, item.fileName = fileName
  | .error _ => ∃ t u fileName, A t ∧ A u ∧
      (directory, fileName) ∈ t.files ∧ (directory, fileName) ∉ u.files

/-- Listing a directory, in a store where every envelope is valid whatever the others do. -/
theorem safe_listUnlocked (hrefl : ∀ o s, rely o s s) (hA : ∀ o s t, A s → rely o s t → A t)
    (hvalid : ∀ t, A t → t.Valid) (hdir : ∀ t directory, A t → pre (.readDir directory) t)
    (hfile : ∀ t path, A t → pre (.readFile path) t) (directory : Directory) (hs : A s) :
    Safe machine rely pre (fun o t => A t ∧ ListResult A directory o.1)
      ((listUnlocked directory).working ()) s := by
  rw [listUnlocked, working_perform_bind]
  refine safe_cmd_of_stable hs (hA _) (fun t ht => hdir t _ ht) ?_
  intro x r t v ht hx
  obtain ⟨hperm, rfl⟩ : r.Perm (t.names directory) ∧ v = t := by
    simp only [machine_exec, exec] at hx
    split at hx
    · split at hx
      · cases hx
        exact ⟨by assumption, rfl⟩
      · cases hx
    · cases hx
  rw [working_bind]
  refine Safe.bind hrefl (safe_readItems hrefl hA hvalid hfile directory r ht) ?_
  rintro ⟨err | items, ⟨⟩⟩ u ⟨hu, hresult⟩
  · obtain ⟨w, hw, missing, hmem, hgone⟩ := hresult
    refine safe_ret_of_stable hu (hA none) fun y hy => ⟨hy, v, w, missing, ht, hw, ?_, hgone⟩
    exact Store.mem_names.mp (hperm.mem_iff.mp hmem)
  · obtain ⟨hnames, hitems⟩ := hresult
    refine safe_ret_of_stable hu (hA none) fun y hy => ⟨hy, ?_, v, ht, ?_⟩
    · intro item hitem
      exact hitems item ((List.mem_insertionSort _).mp hitem)
    · intro fileName hfileName
      have hmem : fileName ∈ items.map Item.fileName := by
        rw [hnames]
        exact hperm.mem_iff.mpr (Store.mem_names.mpr hfileName)
      obtain ⟨item, hitem, heq⟩ := List.mem_map.mp hmem
      exact ⟨item, (List.mem_insertionSort _).mpr hitem, heq⟩

end Listing

/-! ## Reserving a marker while others work -/

section Reserving

variable {rely : Option Cmd → Store → Store → Prop} {pre : Cmd → Store → Prop} {α : Type}
  {post : α → Store → Prop} {s : Store}

/-- Assertions that survive interference and commands that leave the items alone, and in which
such commands may be issued. -/
structure Undisturbed (rely : Option Cmd → Store → Store → Prop) (pre : Cmd → Store → Prop)
    (A : Store → Prop) : Prop where
  stable : ∀ o s t, A s → rely o s t → A t
  same : ∀ s t, A s → s.SameItems t → A t
  quiet : ∀ c s, c.quiet = true → A s → pre c s

/-- A command that leaves the items alone, issued under an assertion it cannot disturb. -/
lemma Undisturbed.cmd (hA : Undisturbed rely pre A) {c : Cmd} {next : Reply c → QueueProg α}
    (hs : A s) (hquiet : c.quiet = true) (hnext : ∀ x r t v, A t → exec x c t = some (r, v) → A v →
      Safe machine rely pre post (next r) v) : Safe machine rely pre post (.cmd c next) s := by
  refine safe_cmd_of_stable hs (hA.stable _) (fun t ht => hA.quiet c t hquiet ht) ?_
  intro x r t v ht hx
  exact hnext x r t v ht hx (hA.same t v ht (sameItems_of_quiet hquiet hx))

/-- A result returned under an assertion that survives interference. -/
lemma Undisturbed.ret (hA : Undisturbed rely pre A) {a : α} (hs : A s)
    (hpost : ∀ t, A t → post a t) : Safe machine rely pre post (.ret a) s :=
  safe_ret_of_stable hs (hA.stable none) hpost

/-- What `Enqueue` may know while others work: `A` all the time, `S id` from the moment it has
seen an item of that id, and `B` once it has written its own item. -/
structure EnqueueView (rely : Option Cmd → Store → Store → Prop) (pre : Cmd → Store → Prop)
    (A B : Store → Prop) (S : String → Store → Prop) : Prop where
  refl : ∀ o s, rely o s s
  idle : Undisturbed rely pre A
  seen : ∀ id, Undisturbed rely pre fun t => A t ∧ S id t
  sight : ∀ t d fileName, A t → (d, fileName) ∈ t.files → S fileName.id t
  written : ∀ s t, B s → rely none s t → B t

variable {A B : Store → Prop} {S : String → Store → Prop}

/-- The look for an item of an id. -/
lemma EnqueueView.itemExists (hview : EnqueueView rely pre A B S) (id : String) (hs : A s) :
    Safe machine rely pre (fun found t => A t ∧ (found = true → S id t)) (itemExists id) s := by
  have hglob : ∀ (d : Directory) (t : Store) (next : Bool → QueueProg Bool), A t →
      (∀ u, A u ∧ S id u →
        Safe machine rely pre (fun found t => A t ∧ (found = true → S id t)) (next true) u) →
      (∀ u, A u →
        Safe machine rely pre (fun found t => A t ∧ (found = true → S id t)) (next false) u) →
      Safe machine rely pre (fun found t => A t ∧ (found = true → S id t))
        (.cmd (.globItem d id) next) t := by
    intro d t next ht hhit hmiss
    refine hview.idle.cmd ht rfl ?_
    intro x found u v hu hx hv
    cases hx
    cases hany : (u.names d).any fun name => decide (name.id = id) with
    | false => exact hmiss u hv
    | true =>
      obtain ⟨name, hname, hid⟩ := List.any_eq_true.mp hany
      refine hhit u ⟨hv, ?_⟩
      rw [← of_decide_eq_true hid]
      exact hview.sight u d name hu (Store.mem_names.mp hname)
  have hfound : ∀ u, A u ∧ S id u →
      Safe machine rely pre (fun found t => A t ∧ (found = true → S id t)) (.ret true) u :=
    fun u hu => (hview.seen id).ret hu fun t ht => ⟨ht.1, fun _ => ht.2⟩
  refine hglob .pending s _ hs hfound fun t ht => ?_
  refine hglob .inflight t _ ht hfound fun u hu => ?_
  refine hglob .history u _ hu hfound fun v hv => ?_
  refine hglob .dead v _ hv hfound fun w hw => ?_
  exact hview.idle.ret hw fun y hy => ⟨hy, nofun⟩

/-- Waiting for a reservation: an id that is reported durable was seen. -/
lemma EnqueueView.waitForDurableReservation (hview : EnqueueView rely pre A B S) (key : String)
    (fuel : Nat) (hs : A s) :
    Safe machine rely pre (fun result t => A t ∧ ∀ id, result = .durable id → S id t)
      (waitForDurableReservation key fuel) s := by
  have hother : ∀ (result : Reservation) (t : Store), (∀ id, result ≠ .durable id) → A t →
      Safe machine rely pre (fun result t => A t ∧ ∀ id, result = .durable id → S id t)
        (.ret result) t :=
    fun result t hresult ht =>
      hview.idle.ret ht fun u hu => ⟨hu, fun id h => absurd h (hresult id)⟩
  induction fuel generalizing s with
  | zero => exact hother _ s nofun hs
  | succ fuel ih =>
    simp only [waitForDurableReservation, perform, Prog.bind_eq, Prog.issue_bind, Prog.pure_eq]
    refine hview.idle.cmd hs rfl fun x reply t v _ _ hv => ?_
    cases reply with
    | none => exact hother _ v nofun hv
    | some content =>
      have hexists : Safe machine rely pre
          (fun found t => A t ∧ (found = true → S (content.getD "") t))
          (reservedItemExists (content.getD "")) v := by
        unfold reservedItemExists
        split
        · exact hview.itemExists _ hv
        · exact hview.idle.ret hv fun t ht => ⟨ht, nofun⟩
      refine Safe.bind hview.refl hexists ?_
      rintro found u ⟨hu, hfound⟩
      split
      · rename_i hyes
        refine (hview.seen (content.getD "")).ret ⟨hu, hfound hyes⟩ fun t ht => ⟨ht.1, ?_⟩
        rintro id ⟨⟩
        exact ht.2
      refine hview.idle.cmd hu rfl fun x passed t w _ _ hw => ?_
      split
      · refine hview.idle.cmd hw rfl fun x stale t y _ _ hy => ?_
        split
        · exact hother _ y nofun hy
        · refine hview.idle.cmd hy rfl fun x _ t z _ _ hz => ?_
          exact hother _ z nofun hz
        · exact hother _ y nofun hy
      · exact ih hw

/-- What reserving a marker for a new id comes to: the new item was written, an item of another
id was seen, or nothing was stored. -/
def ReserveResult (A B : Store → Prop) (S : String → Store → Prop) (id : String) (t : Store) :
    Option Answer → Prop
  | some (.ok (answered, false)) => answered = id ∧ B t
  | some (.ok (answered, true)) => A t ∧ S answered t
  | some (.error _) => A t
  | none => A t

/-- Writing the item of a new id. -/
lemma EnqueueView.writeNew (hview : EnqueueView rely pre A B S)
    (hwrite : ∀ t, A t → envelope.encodable = true →
      pre (.write (.pending, fileName) envelope) t ∧ B (t.put (.pending, fileName) envelope))
    (hs : A s) : Safe machine rely pre
      (fun o t => either (fun _ => A t) (fun _ => B t) o.1)
      ((writeNew .pending fileName envelope).working ()) s := by
  simp only [Queue.writeNew, write, working_perform_bind, working_raiseIf_bind, working_perform]
  refine hview.idle.cmd hs rfl fun x found t v _ _ hv => ?_
  split
  · exact hview.idle.ret hv fun t ht => ht
  · cases henc : envelope.encodable with
    | false => exact hview.idle.ret hv fun t ht => ht
    | true =>
      refine safe_cmd_of_stable hv (hview.idle.stable _) (fun t ht => (hwrite t ht henc).1) ?_
      intro x r t v ht hx
      cases hx
      exact safe_ret_of_stable (hwrite t ht henc).2 hview.written fun w hw => hw

/-- Reserving a marker for a new id. -/
theorem EnqueueView.reserve (hview : EnqueueView rely pre A B S) (key id : String)
    (notification : Notification) (now : Time) (fuel : Nat)
    (hwrite : ∀ t, A t → (newEnvelope id notification now).encodable = true →
      pre (.write (.pending, ⟨now, id⟩) (newEnvelope id notification now)) t ∧
        B (t.put (.pending, ⟨now, id⟩) (newEnvelope id notification now))) (hs : A s) :
    Safe machine rely pre (fun result t => ReserveResult A B S id t result)
      (reserve key id notification now fuel) s := by
  induction fuel generalizing s with
  | zero => exact hview.idle.ret hs fun t ht => ht
  | succ fuel ih =>
    simp only [reserve, perform, Prog.bind_eq, Prog.issue_bind, Prog.pure_eq]
    refine hview.idle.cmd hs rfl fun x created t v _ _ hv => ?_
    split
    · refine Safe.bind hview.refl (hview.waitForDurableReservation key fuel hv) ?_
      rintro result u ⟨hu, hdurable⟩
      split
      · exact ih hu
      · exact hview.idle.ret hu fun t ht => ht
      · rename_i existing
        exact (hview.seen existing).ret ⟨hu, hdurable existing rfl⟩ fun t ht => ht
      · exact hview.idle.ret hu fun t ht => ht
    · refine hview.idle.cmd hv rfl fun x _ t u _ _ hu => ?_
      refine Safe.bind hview.refl (hview.writeNew hwrite hu) ?_
      rintro ⟨err | ⟨⟩, ⟨⟩⟩ v hv
      · refine hview.idle.cmd hv rfl fun x _ t w _ _ hw => ?_
        exact hview.idle.ret hw fun t ht => ht
      · exact safe_ret_of_stable hv hview.written fun t ht => ⟨rfl, ht⟩

/-- Drawing a random id gives one that was never drawn before. -/
lemma randomID_fresh {x : Choice} {id : String} (h : exec x .randomID s = some (id, t)) :
    id ≠ "" ∧ id ∉ s.issued ∧ t = { s with issued := id :: s.issued } := by
  simp only [exec] at h
  split at h
  · split at h
    · rename_i hid
      cases h
      exact ⟨ne_empty_of_isRandomID hid.1, hid.2, rfl⟩
    · cases h
  · cases h

end Reserving

end AgentBell.Queue
