import AgentBell.Queue.Operations

/-!
# A queue directory in use

The operations of the service run on a machine on which every step may fail and on which the other
users of the queue take steps in between.  Here are the machine, the rules for the operations on
any such machine, and the commands they issue.
-/

namespace AgentBell.Queue

open Interleaving Interleaving.Routine

/-- Whether a command may be one of a process that only enqueues notifications and retries dead
items. -/
def Cmd.ofClient : Cmd → Bool
  | .write path _ => path.1 = .pending
  | .remove path | .quarantine path => path.1 = .dead
  | .discard _ => false
  | _ => true

/-- What happens around one step of the service: the steps of other processes since its last one,
and whether the step works or fails. -/
structure Turn where
  others : List (Choice × Cmd) := []
  outcome : Except String Choice := .ok .nothing

/-- The directory after the steps of other processes. -/
def afterOthers : List (Choice × Cmd) → Store → Option Store
  | [], s => some s
  | (x, c) :: rest, s =>
    if c.ofClient then (exec x c s).bind fun o => afterOthers rest o.2 else none

/-- The machine of a queue directory in use: a step that fails leaves the directory as it is. -/
def inUse : Machine Cmd (fun c => Except OsError (Reply c)) Store Turn where
  exec turn c s := (afterOthers turn.others s).bind fun t =>
    match turn.outcome with
    | .ok x => (exec x c t).map fun o => (.ok o.1, o.2)
    | .error text => some (.error (.other text), t)

/-- A step works or fails, after the steps of other processes. -/
lemma inUse_cases {turn : Turn} {c : Cmd} {r : Except OsError (Reply c)} {s t : Store}
    (h : inUse.exec turn c s = some (r, t)) : ∃ u, afterOthers turn.others s = some u ∧
      ((∃ x r', turn.outcome = .ok x ∧ r = .ok r' ∧ exec x c u = some (r', t)) ∨
        ∃ text, turn.outcome = .error text ∧ r = .error (.other text) ∧ t = u) := by
  obtain ⟨u, hothers, hexec⟩ := Option.bind_eq_some_iff.mp h
  refine ⟨u, hothers, ?_⟩
  split at hexec
  · obtain ⟨⟨r', v⟩, hstep, heq⟩ := Option.map_eq_some_iff.mp hexec
    cases heq
    exact .inl ⟨_, r', ‹_›, rfl, hstep⟩
  · cases hexec
    exact .inr ⟨_, ‹_›, rfl, rfl⟩

/-- What the steps of clients keep. -/
lemma afterOthers_keeps {A : Store → Prop} {steps : List (Choice × Cmd)} {s t : Store}
    (hstep : ∀ step ∈ steps, step.2.ofClient = true → ∀ u v r, A u →
      exec step.1 step.2 u = some (r, v) → A v)
    (hs : A s) (h : afterOthers steps s = some t) : A t := by
  induction steps generalizing s with
  | nil => exact Option.some.inj h ▸ hs
  | cons step rest ih =>
    unfold afterOthers at h
    split at h
    · rename_i hclient
      obtain ⟨⟨r, u⟩, hexec, hrest⟩ := Option.bind_eq_some_iff.mp h
      refine ih (fun step hmem => hstep step (List.mem_cons_of_mem _ hmem)) ?_ hrest
      exact hstep _ List.mem_cons_self hclient s u r hs hexec
    · cases h

namespace Faulty

variable {ℓ : Type}

/-! ## Rules -/

section Rules

variable {l : ℓ} {s : Store}

/-- A check fails, or the rest runs. -/
lemma meets_check_bind {α β : Type} {x : Except String α} {k : α → QueueRoutine ℓ β}
    {M : Machine Cmd (fun c => Except OsError (Reply c)) Store Turn}
    {post : Except OsError β → ℓ → Store → Prop}
    (herror : ∀ message, x = .error message → post (.error (.other message)) l s)
    (hok : ∀ a, x = .ok a → Meets M post (k a) l s) : Meets M post (check x >>= k) l s := by
  refine meets_lift_bind ?_ fun a ha => hok a (mapError_eq_ok.mp ha)
  cases x with
  | error message =>
    intro e he
    cases he
    exact herror message rfl
  | ok a =>
    intro e he
    cases he

/-- A text in front of a failure. -/
lemma meets_wrapping {α : Type} {p : QueueRoutine ℓ α} {text : String}
    {M : Machine Cmd (fun c => Except OsError (Reply c)) Store Turn}
    {post : Except OsError α → ℓ → Store → Prop}
    (hp : Meets M (fun r l' t => match r with
      | .ok a => post (.ok a) l' t
      | .error err => post (.error (.other (text ++ ": " ++ err.message))) l' t) p l s) :
    Meets M post (wrapping text p) l s :=
  meets_catching hp (fun _ _ _ h => h) fun _ _ _ h => meets_raise h

end Rules

/-! ## Commands the routines issue -/

section Commands

variable {φ : Cmd → Prop} {inv : ℓ → Prop} {directory : Directory} {fileName : FileName}
  {envelope : Envelope}

lemma within_wrapping {α : Type} {text : String} {p : QueueRoutine ℓ α} (hp : p.Within φ) :
    (wrapping text p).Within φ :=
  hp.catching fun _ => within_raise _

lemma within_remove {path : ItemPath} (h : φ (.remove path)) :
    (step (.remove path) : QueueRoutine ℓ Unit).Within φ := within_perform h

lemma within_writeNew (hstat : φ (.stat (directory, fileName)))
    (hwrite : φ (.write (directory, fileName) envelope)) :
    (writeNew directory fileName envelope : QueueRoutine ℓ Unit).Within φ :=
  Within.bind (within_perform hstat) fun _ => (within_raiseIf _ _).bind fun _ =>
    (within_raiseIf _ _).bind fun _ => within_perform hwrite

lemma within_transition {source : Directory} (hstat : φ (.stat (directory, fileName)))
    (hwrite : φ (.write (directory, fileName) envelope))
    (hremove : φ (.remove (source, fileName))) :
    (transitionEnvelope source directory fileName envelope : QueueRoutine ℓ Unit).Within φ :=
  Within.bind (within_writeNew hstat hwrite) fun _ => within_wrapping (within_perform hremove)

lemma within_writeUnlessExists (hstat : φ (.stat (directory, fileName)))
    (hwrite : φ (.write (directory, fileName) envelope)) :
    (writeUnlessExists directory fileName envelope : QueueRoutine ℓ Bool).Within φ := by
  refine ((within_writeNew hstat hwrite).bind fun _ => within_pure _).catching fun err => ?_
  split
  · exact within_pure _
  · exact within_raise _

lemma within_completedTransition (hstat : ∀ path, φ (.stat path)) :
    (completedTransition fileName : QueueRoutine ℓ Bool).Within φ := by
  have hlook : ∀ path, (looksPresent path : QueueRoutine ℓ Bool).Within φ :=
    fun path => Within.catching (within_perform (hstat path)) fun _ => within_pure _
  refine (hlook _).bind fun present => ?_
  split
  · exact within_pure _
  · refine (hlook _).bind fun present => ?_
    split
    · exact within_pure _
    · exact hlook _

lemma confined_wrapping {α : Type} {text : String} {p : QueueRoutine ℓ α} (hp : Confined inv φ p) :
    Confined inv φ (wrapping text p) :=
  Confined.catching hp fun _ => confined_raise _

lemma confined_write {path : ItemPath} (hwrite : φ (.write path envelope)) :
    Confined inv φ (write path envelope) :=
  Confined.bind (confined_raiseIf _ _) fun _ => confined_perform hwrite

lemma confined_replace {directory : Directory} (hstat : φ (.stat (directory, fileName)))
    (hwrite : φ (.write (directory, fileName) envelope)) :
    Confined inv φ (replace directory fileName envelope) :=
  Confined.bind (confined_wrapping (confined_perform hstat)) fun _ =>
    Confined.bind (confined_raiseIf _ _) fun _ => confined_write hwrite

end Commands

/-! ## Listings -/

section Listings

/-- What a listing needs of the steps it takes: they keep `A` and move the store along `T`; an item
that is read has `Q` in the store the listing began with; and a file moved aside is `G` from then
on. -/
structure Walk (M : Machine Cmd (fun c => Except OsError (Reply c)) Store Turn)
    (directory : Directory) (ℓ : Type) (A : Store → Prop) (T : Store → Store → Prop)
    (Q : Store → Item → Prop) (G : FileName → Store → Prop) : Prop where
  refl : ∀ s, T s s
  trans : ∀ {s t u}, T s t → T t u → T s u
  earlier : ∀ {s t item}, T s t → Q t item → Q s item
  later : ∀ {s t fileName}, T s t → G fileName s → G fileName t
  read : ∀ fileName (l : ℓ) s, A s → Meets M (fun r _ t => A t ∧ T s t ∧
      ∀ envelope, r = .ok (some envelope) →
        (envelope.listable = true → Q s ⟨envelope, fileName⟩) ∧
        (envelope.listable = false → ∀ l : ℓ, Meets M (fun r _ u => A u ∧ T t u ∧
            ∀ moved, r = .ok moved → G fileName u)
          (wrapping "quarantine corrupt queue item" (step (.quarantine (directory, fileName)))) l
          t))
    (step (.readFile (directory, fileName))) l s

variable {M : Machine Cmd (fun c => Except OsError (Reply c)) Store Turn} {directory : Directory}
  {ℓ : Type} {A : Store → Prop} {T : Store → Store → Prop} {Q : Store → Item → Prop}
  {G : FileName → Store → Prop} {l : ℓ} {s : Store}

lemma Walk.readItems (h : Walk M directory ℓ A T Q G) (names : List FileName) (hs : A s) :
    Meets M (fun r _ t => A t ∧ T s t ∧ ∀ items, r = .ok items → (∀ item ∈ items, Q s item) ∧
        ∀ name ∈ names, G name t ∨ ∃ item ∈ items, item.fileName = name)
      (readItems directory names) l s := by
  induction names generalizing s l with
  | nil =>
    refine meets_pure ⟨hs, h.refl s, ?_⟩
    rintro items ⟨⟩
    exact ⟨List.forall_mem_nil _, List.forall_mem_nil _⟩
  | cons name names ih =>
    refine meets_bind (h.read name l s hs) ?_ fun _ _ _ ht => ⟨ht.1, ht.2.1, nofun⟩
    rintro (_ | envelope) l' t ⟨hA, hT, hfound⟩
    · exact meets_raise ⟨hA, hT, nofun⟩
    obtain ⟨hlisted, haside⟩ := hfound envelope rfl
    dsimp only
    split
    · rename_i hlistable
      refine meets_bind (ih hA) ?_ fun _ _ _ hu => ⟨hu.1, h.trans hT hu.2.1, nofun⟩
      rintro items l'' u ⟨hAu, hTu, hitems⟩
      obtain ⟨hQ, hnames⟩ := hitems items rfl
      refine meets_pure ⟨hAu, h.trans hT hTu, ?_⟩
      rintro _ ⟨⟩
      simp only [List.forall_mem_cons, List.exists_mem_cons_iff]
      exact ⟨⟨hlisted hlistable, fun item hitem => h.earlier hT (hQ item hitem)⟩,
        .inr (.inl trivial), fun other hother => (hnames other hother).imp_right .inr⟩
    · rename_i hbad
      refine meets_bind (haside (by simpa using hbad) l') ?_
        fun _ _ _ hu => ⟨hu.1, h.trans hT hu.2.1, nofun⟩
      rintro moved l'' u ⟨hAu, hTu, hgone⟩
      have hTu := h.trans hT hTu
      refine meets_raiseIf_bind (fun _ => ⟨hAu, hTu, nofun⟩) fun _ => ?_
      refine (ih hAu).weaken fun r _ v hv => ⟨hv.1, h.trans hTu hv.2.1, fun items hitems => ?_⟩
      obtain ⟨hQ, hnames⟩ := hv.2.2 items hitems
      exact ⟨fun item hitem => h.earlier hTu (hQ item hitem),
        List.forall_mem_cons.mpr ⟨.inl (h.later hv.2.1 (hgone moved rfl)), hnames⟩⟩

/-- A listing of a directory that shows every name that is not `G`. -/
lemma Walk.listUnlocked (h : Walk M directory ℓ A T Q G)
    (hdir : Meets M (fun r _ t => A t ∧ T s t ∧ ∀ names, r = .ok names →
        ∀ name, G name s ∨ name ∈ names) (step (.readDir directory)) l s) :
    Meets M (fun r _ t => A t ∧ T s t ∧ ∀ items, r = .ok items → (∀ item ∈ items, Q s item) ∧
        ∀ name, G name t ∨ ∃ item ∈ items, item.fileName = name)
      (listUnlocked directory) l s := by
  refine meets_bind hdir ?_ fun _ _ _ ht => ⟨ht.1, ht.2.1, nofun⟩
  rintro names l' t ⟨hA, hT, hlisted⟩
  refine meets_bind (h.readItems names hA) ?_ fun _ _ _ hu => ⟨hu.1, h.trans hT hu.2.1, nofun⟩
  rintro items l'' u ⟨hAu, hTu, hitems⟩
  obtain ⟨hQ, hnames⟩ := hitems items rfl
  have hTu := h.trans hT hTu
  refine meets_pure ⟨hAu, hTu, ?_⟩
  rintro _ ⟨⟩
  simp only [List.mem_insertionSort]
  exact ⟨fun item hitem => h.earlier hT (hQ item hitem),
    fun name => (hlisted names rfl name).elim (fun hG => .inl (h.later hTu hG)) (hnames name)⟩

end Listings

/-- A write that may find another file in its place. -/
lemma meets_writeUnlessExists {fileName : FileName} {envelope : Envelope}
    {post : Except OsError Bool → ℓ → Store → Prop}
    (h : Meets M (fun r l' t => match r with
        | .ok _ => post (.ok true) l' t
        | .error err => post (if err = .exist then .ok false else .error err) l' t)
      (writeNew directory fileName envelope) l s) :
    Meets M post (writeUnlessExists directory fileName envelope) l s := by
  refine meets_catching_map h (fun _ _ _ h => h) fun err l' t h => ?_
  dsimp only at h
  split
  · exact meets_pure (by rwa [if_pos ‹_›] at h)
  · exact meets_raise (by rwa [if_neg ‹_›] at h)

/-! ## Ledgers with a change -/

section Ledgers

variable {ledger done rest : List DeliveryLedgerEntry} {entry changed : DeliveryLedgerEntry}
  {index : Nat} {seen : List String} {now : Time} {envelope : Envelope}

lemma validate_ledgered (hne : ledger ≠ []) (h : validateLedgerEntries 0 [] ledger = .ok ()) :
    validateDeliveryEnvelope (ledgered ledger now envelope) = .ok () := by
  obtain ⟨entry, rest, rfl⟩ := List.exists_cons_of_ne_nil hne
  simp only [validateDeliveryEnvelope, ledgered, h, ne_eq, not_true_eq_false, if_false]

/-- The entry of a target is changed in its place. -/
lemma updatedLedger_eq {update : DeliveryLedgerEntry → Except String DeliveryLedgerEntry}
    (h : validateLedgerEntries index seen (done ++ entry :: rest) = .ok ()) :
    updatedLedger ⟨entry.channelID, entry.templateID⟩ update (done ++ entry :: rest) =
      (update entry).map fun changed => done ++ changed :: rest := by
  have hindex : deliveryTargetIndex (done ++ entry :: rest)
      ⟨entry.channelID, entry.templateID⟩ = some done.length := by
    unfold deliveryTargetIndex
    rw [List.findIdx?_append]
    have hnone : done.findIdx? (fun earlier => decide (earlier.channelID = entry.channelID ∧
        earlier.templateID = entry.templateID)) = none := by
      rw [List.findIdx?_eq_none_iff]
      intro earlier hearlier
      exact decide_eq_false ((validate_distinct h).2 earlier hearlier)
    rw [hnone, List.findIdx?_cons]
    simp
  simp only [updatedLedger, hindex, List.getElem?_append_right le_rfl, Nat.sub_self,
    List.getElem?_cons_zero, List.set_append_right _ _ le_rfl, List.set_cons_zero]

end Ledgers

end Faulty

end AgentBell.Queue
