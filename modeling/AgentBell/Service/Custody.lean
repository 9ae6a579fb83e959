import AgentBell.Service.Processing

/-!
# The item a call holds

A call of `ProcessOne` holds the item it claimed until it moves it on.  All it needs of the queue
directory is that the file of a held item can be rewritten in place, and that the item can be moved
to a directory that has no file of its name: that is a `Custody` of a machine.

Over any custody, this module says what each operation of the queue makes of a held item.  An
operation on the ledger changes one entry, unless the changed entry is not valid or its next attempt
cannot be written; so what several of them record is a map over the entries.  An operation that
moves the item has a verdict: the envelope that is held when the move is tried, and where the item
is moved, if it is.
-/

namespace AgentBell.Service

open Interleaving Interleaving.Routine Queue Queue.Faulty

/-! ## Custody -/

/-- What it means on a machine that an item is held, that it has moved and that there is no file in
its way, such that a held item can be rewritten in place and can be moved out of `inflight`. -/
structure Custody (M : Machine Cmd (fun c => Except OsError (Reply c)) Store Turn) where
  has : Item → Store → Prop
  gone : FileName → Directory → Envelope → Store → Prop
  free : Directory → Prop
  rewrite : ∀ {item : Item} {s : Store} {updated : Envelope}, has item s →
    validateDeliveryEnvelope updated = .ok () →
    Meets M (fun r item' t => has item' t ∧
      (updated.encodable = true → r = .ok () ∧ item' = { item with envelope := updated }) ∧
      (updated.encodable = false → (∃ e, r = .error e) ∧ item' = item))
      (rewrite updated) item s
  advance : ∀ {item : Item} {s : Store} {destination : Directory} {updated : Envelope},
    has item s → destination ≠ .inflight → validateDeliveryEnvelope updated = .ok () →
    Meets M (fun _ _ t => (updated.encodable = true ∧ free destination) ∧
        gone item.fileName destination updated t ∨
      ¬ (updated.encodable = true ∧ free destination) ∧ has item t)
      (advance destination updated) item s

/-- How often a delivery may be attempted. -/
def Options.limit (service : Options) : Int := service.delays.length

/-- The instants of an envelope that can be written. -/
lemma encodable_iff {envelope : Envelope} : envelope.encodable = true ↔
    Time.encodable envelope.event.occurredAt = true ∧ Time.encodable envelope.createdAt = true ∧
    Time.encodable envelope.updatedAt = true ∧ Time.encodable envelope.nextAttemptAt = true ∧
    Time.encodable envelope.leaseUntil = true ∧ Time.encodable envelope.lastRetriedAt = true ∧
    ∀ entry ∈ envelope.ledger.getD [], Time.encodable entry.nextAttemptAt = true := by
  simp only [Envelope.encodable, Bool.and_eq_true, List.all_eq_true, and_assoc]

lemma zero_encodable : Time.encodable (0 : Int) = true := by decide

/-! ## Ledger entries -/

/-- The ledger of an envelope, empty when its targets are not resolved. -/
def entries (envelope : Envelope) : List DeliveryLedgerEntry := envelope.ledger.getD []

/-- The target of a ledger entry. -/
def targetOf (entry : DeliveryLedgerEntry) : DeliveryTarget := ⟨entry.channelID, entry.templateID⟩

/-- The ledger entry of a target. -/
def entryAt (envelope : Envelope) (target : DeliveryTarget) : Option DeliveryLedgerEntry :=
  ledgerEntry (entries envelope) target

section Entries

variable {ledger : List DeliveryLedgerEntry} {entry other : DeliveryLedgerEntry}
  {target : DeliveryTarget} {envelope : Envelope} {index : Nat} {seen : List String}

lemma entries_of_ledger (h : envelope.ledger = some ledger) : entries envelope = ledger := by
  rw [entries, h, Option.getD_some]

/-- The ledger of a valid envelope has entries that pass the checks, and decides the disposition. -/
lemma validate_inv (h : validateDeliveryEnvelope envelope = .ok ())
    (hledger : envelope.ledger = some ledger) :
    ledger ≠ [] ∧ validateLedgerEntries 0 [] ledger = .ok () ∧
      envelope.disposition = some (dispositionFor ledger) := by
  unfold validateDeliveryEnvelope at h
  rw [hledger] at h
  cases ledger with
  | nil => cases h
  | cons entry rest =>
    dsimp only at h
    split at h
    · cases h
    rename_i hentries
    split at h
    · cases h
    · rename_i hdisposition
      exact ⟨List.cons_ne_nil _ _, hentries, not_not.mp hdisposition⟩

/-- The entries of a valid envelope pass the checks. -/
lemma validate_entries (h : validateDeliveryEnvelope envelope = .ok ()) :
    validateLedgerEntries 0 [] (entries envelope) = .ok () := by
  cases hledger : envelope.ledger with
  | none =>
    rw [entries, hledger]
    rfl
  | some ledger =>
    rw [entries_of_ledger hledger]
    exact (validate_inv h hledger).2.1

lemma matches_iff : (decide (entry.channelID = target.channelID ∧
    entry.templateID = target.templateID) = true) ↔ targetOf entry = target := by
  rw [decide_eq_true_iff, targetOf, DeliveryTarget.mk.injEq]

/-- No two entries of a valid ledger have the same target. -/
lemma eq_of_targetOf (h : validateLedgerEntries index seen ledger = .ok ())
    (hentry : entry ∈ ledger)
    (hother : other ∈ ledger) (hsame : targetOf other = targetOf entry) : other = entry := by
  obtain ⟨hchannel, htemplate⟩ := DeliveryTarget.mk.inj hsame
  exact validate_unique h hother hentry hchannel htemplate

/-- The entry of a target is the one that names it. -/
lemma ledgerEntry_iff (h : validateLedgerEntries index seen ledger = .ok ()) :
    ledgerEntry ledger target = some entry ↔ entry ∈ ledger ∧ targetOf entry = target := by
  constructor
  · intro hfind
    have hmatch := List.find?_some hfind
    exact ⟨List.mem_of_find?_eq_some hfind, matches_iff.mp hmatch⟩
  · rintro ⟨hmem, htarget⟩
    have hsome : (ledgerEntry ledger target).isSome = true :=
      List.find?_isSome.mpr ⟨entry, hmem, matches_iff.mpr htarget⟩
    obtain ⟨found, hfound⟩ := Option.isSome_iff_exists.mp hsome
    have hmatch := List.find?_some hfound
    have hsame : targetOf found = targetOf entry := (matches_iff.mp hmatch).trans htarget.symm
    rw [hfound, eq_of_targetOf h hmem (List.mem_of_find?_eq_some hfound) hsame]

lemma entryAt_iff (h : validateDeliveryEnvelope envelope = .ok ()) :
    entryAt envelope target = some entry ↔ entry ∈ entries envelope ∧ targetOf entry = target :=
  ledgerEntry_iff (validate_entries h)

/-- The targets of a valid ledger are distinct. -/
lemma nodup_targets (h : validateLedgerEntries index seen ledger = .ok ()) :
    (ledger.map targetOf).Nodup := by
  induction ledger generalizing index seen with
  | nil => exact List.nodup_nil
  | cons entry rest ih =>
    refine List.nodup_cons.mpr ⟨fun hmem => ?_, ih (validate_cons h).2.2.2⟩
    obtain ⟨later, hlater, hsame⟩ := List.mem_map.mp hmem
    exact validate_later h hlater (DeliveryTarget.mk.inj hsame.symm)

/-- The position of an entry only shows in the message. -/
lemma validateLedgerEntry_index (index : Nat) (entry : DeliveryLedgerEntry) :
    validateLedgerEntry index entry = .ok () ↔ validateLedgerEntry 0 entry = .ok () := by
  unfold validateLedgerEntry
  cases entry.state <;> dsimp only <;> split_ifs <;> simp

/-- Every entry of a valid ledger passes its own check. -/
lemma validate_entry (h : validateLedgerEntries index seen ledger = .ok ())
    (hentry : entry ∈ ledger) : validateLedgerEntry 0 entry = .ok () := by
  induction ledger generalizing index seen with
  | nil => cases hentry
  | cons first rest ih =>
    obtain ⟨-, -, hfirst, hrest⟩ := validate_cons h
    rcases List.mem_cons.mp hentry with rfl | hentry
    · exact (validateLedgerEntry_index index entry).mp hfirst
    · exact ih hrest hentry

lemma attempts_nonneg (h : validateLedgerEntry index entry = .ok ()) : 0 ≤ entry.attempts := by
  unfold validateLedgerEntry at h
  split at h
  · cases h
  · omega

end Entries

/-! ## Changes of entries -/

/-- The changed entry, if the change can be recorded: it is valid, and its next attempt can be
written. -/
def recordable (update : DeliveryLedgerEntry → Except String DeliveryLedgerEntry)
    (entry : DeliveryLedgerEntry) : Option DeliveryLedgerEntry :=
  match update entry with
  | .error _ => none
  | .ok changed =>
    if validateLedgerEntry 0 changed = .ok () ∧ Time.encodable changed.nextAttemptAt = true then
      some changed
    else none

/-- What becomes of an entry that is to be changed. -/
def changedEntry (update : DeliveryLedgerEntry → Except String DeliveryLedgerEntry)
    (entry : DeliveryLedgerEntry) : DeliveryLedgerEntry :=
  (recordable update entry).getD entry

/-- A change of entries that keeps their targets, their validity and that they can be written. -/
structure Proper (f : DeliveryLedgerEntry → DeliveryLedgerEntry) : Prop where
  target : ∀ entry, targetOf (f entry) = targetOf entry
  valid : ∀ entry, validateLedgerEntry 0 entry = .ok () → validateLedgerEntry 0 (f entry) = .ok ()
  encodable : ∀ entry, Time.encodable entry.nextAttemptAt = true →
    Time.encodable (f entry).nextAttemptAt = true

/-- The envelope whose entries have changed. -/
def rewritten (now : Time) (f : DeliveryLedgerEntry → DeliveryLedgerEntry) (envelope : Envelope) :
    Envelope :=
  match envelope.ledger with
  | none => envelope
  | some ledger => ledgered (ledger.map f) now envelope

/-- The change of the entries of some targets. -/
def among (targets : List DeliveryTarget) (f : DeliveryLedgerEntry → DeliveryLedgerEntry)
    (entry : DeliveryLedgerEntry) : DeliveryLedgerEntry :=
  if targetOf entry ∈ targets then f entry else entry

/-- A held envelope is claimed, valid, such that it can be written, and was last changed now. -/
structure Fit (now : Time) (envelope : Envelope) : Prop where
  claimed : envelope.state = .inflight
  valid : validateDeliveryEnvelope envelope = .ok ()
  encodable : envelope.encodable = true
  updated : envelope.updatedAt = now

section Changes

variable {update : DeliveryLedgerEntry → Except String DeliveryLedgerEntry}
  {f g : DeliveryLedgerEntry → DeliveryLedgerEntry} {entry changed : DeliveryLedgerEntry}
  {ledger : List DeliveryLedgerEntry} {target : DeliveryTarget} {targets : List DeliveryTarget}
  {envelope : Envelope} {now : Time} {index : Nat} {seen : List String}

lemma recordable_eq_some : recordable update entry = some changed ↔ update entry = .ok changed ∧
    validateLedgerEntry 0 changed = .ok () ∧ Time.encodable changed.nextAttemptAt = true := by
  unfold recordable
  cases update entry with
  | error message => simp
  | ok found =>
    simp only [Option.ite_none_right_eq_some, Option.some.injEq, Except.ok.injEq]
    constructor
    · rintro ⟨h, rfl⟩
      exact ⟨rfl, h⟩
    · rintro ⟨rfl, h⟩
      exact ⟨h, rfl⟩

lemma proper_changedEntry
    (h : ∀ entry changed, update entry = .ok changed → targetOf changed = targetOf entry) :
    Proper (changedEntry update) := by
  have hcases : ∀ entry, changedEntry update entry = entry ∨
      recordable update entry = some (changedEntry update entry) := by
    intro entry
    unfold changedEntry
    cases recordable update entry with
    | none => exact .inl rfl
    | some changed => exact .inr rfl
  refine ⟨fun entry => ?_, fun entry hvalid => ?_, fun entry hencodable => ?_⟩
  · rcases hcases entry with hsame | hsome
    · rw [hsame]
    · exact h entry _ (recordable_eq_some.mp hsome).1
  · rcases hcases entry with hsame | hsome
    · rwa [hsame]
    · exact (recordable_eq_some.mp hsome).2.1
  · rcases hcases entry with hsame | hsome
    · rwa [hsame]
    · exact (recordable_eq_some.mp hsome).2.2

/-- A change of some of the entries. -/
lemma Proper.ite (h : Proper f) (p : DeliveryLedgerEntry → Prop) [DecidablePred p] :
    Proper fun entry => if p entry then f entry else entry := by
  refine ⟨fun entry => ?_, fun entry hvalid => ?_, fun entry hencodable => ?_⟩
  · split
    · exact h.target entry
    · rfl
  · split
    · exact h.valid entry hvalid
    · exact hvalid
  · split
    · exact h.encodable entry hencodable
    · exact hencodable

lemma Proper.among (h : Proper f) : Proper (among targets f) := h.ite _

/-- A proper change keeps a ledger valid. -/
lemma validate_map (hf : Proper f) (h : validateLedgerEntries index seen ledger = .ok ()) :
    validateLedgerEntries index seen (ledger.map f) = .ok () := by
  induction ledger generalizing index seen with
  | nil => rfl
  | cons entry rest ih =>
    obtain ⟨htarget, hkey, hentry, hrest⟩ := validate_cons h
    obtain ⟨hchannel, htemplate⟩ := DeliveryTarget.mk.inj (hf.target entry)
    have hvalid := hf.valid entry ((validateLedgerEntry_index index entry).mp hentry)
    rw [← hchannel, ← htemplate] at htarget hkey hrest
    exact validate_cons_of htarget hkey ((validateLedgerEntry_index index _).mpr hvalid) (ih hrest)

lemma Fit.present (h : Fit now envelope) : Time.encodable now = true := by
  obtain ⟨-, -, hupdated, -⟩ := encodable_iff.mp h.encodable
  rwa [h.updated] at hupdated

lemma Fit.written (h : Fit now envelope) :
    ∀ entry ∈ entries envelope, Time.encodable entry.nextAttemptAt = true :=
  (encodable_iff.mp h.encodable).2.2.2.2.2.2

/-- A changed ledger of a held envelope can be written when its entries can. -/
lemma Fit.ledgered_encodable (h : Fit now envelope) :
    (ledgered ledger now envelope).encodable = true ↔
      ∀ entry ∈ ledger, Time.encodable entry.nextAttemptAt = true := by
  obtain ⟨h1, h2, -, h4, h5, h6, -⟩ := encodable_iff.mp h.encodable
  rw [encodable_iff]
  exact ⟨fun hall => hall.2.2.2.2.2.2, fun hall => ⟨h1, h2, h.present, h4, h5, h6, hall⟩⟩

lemma fit_ledgered (h : Fit now envelope) (hne : ledger ≠ [])
    (hvalid : validateLedgerEntries 0 [] ledger = .ok ())
    (hencodable : ∀ entry ∈ ledger, Time.encodable entry.nextAttemptAt = true) :
    Fit now (ledgered ledger now envelope) :=
  ⟨h.claimed, validate_ledgered hne hvalid, h.ledgered_encodable.mpr hencodable, rfl⟩

/-- A proper change of a held envelope gives one that may be held. -/
lemma fit_rewritten (h : Fit now envelope) (hf : Proper f) :
    Fit now (rewritten now f envelope) := by
  unfold rewritten
  split
  · exact h
  rename_i ledger hledger
  obtain ⟨hne, hvalid, -⟩ := validate_inv h.valid hledger
  refine fit_ledgered h (by simpa using hne) (validate_map hf hvalid) fun entry hentry => ?_
  obtain ⟨before, hbefore, rfl⟩ := List.mem_map.mp hentry
  exact hf.encodable before (h.written before (entries_of_ledger hledger ▸ hbefore))

lemma rewritten_of_ledger (h : envelope.ledger = some ledger) :
    rewritten now f envelope = ledgered (ledger.map f) now envelope := by
  simp only [rewritten, h]

/-- What is recorded in two steps. -/
lemma rewritten_rewritten :
    rewritten now g (rewritten now f envelope) = rewritten now (g ∘ f) envelope := by
  cases h : envelope.ledger with
  | none =>
    have hf : rewritten now f envelope = envelope := by simp only [rewritten, h]
    rw [hf]
    simp only [rewritten, h]
  | some ledger =>
    rw [rewritten_of_ledger h, rewritten_of_ledger h, ← List.map_map]
    rfl

lemma rewritten_congr (h : ∀ entry ∈ entries envelope, f entry = g entry) :
    rewritten now f envelope = rewritten now g envelope := by
  cases hledger : envelope.ledger with
  | none => simp only [rewritten, hledger]
  | some ledger =>
    rw [entries_of_ledger hledger] at h
    rw [rewritten_of_ledger hledger, rewritten_of_ledger hledger, List.map_congr_left h]

/-- What changes no entry leaves a held envelope as it is. -/
lemma rewritten_eq_self (h : Fit now envelope) (hf : ∀ entry ∈ entries envelope, f entry = entry) :
    rewritten now f envelope = envelope := by
  rw [rewritten_congr (g := id) hf]
  cases hledger : envelope.ledger with
  | none => simp only [rewritten, hledger]
  | some ledger =>
    obtain ⟨-, -, hdisposition⟩ := validate_inv h.valid hledger
    rw [rewritten_of_ledger hledger, List.map_id, ledgered, ← hdisposition, ← hledger, ← h.updated]

lemma entries_rewritten : entries (rewritten now f envelope) = (entries envelope).map f := by
  cases h : envelope.ledger with
  | none =>
    have hf : rewritten now f envelope = envelope := by simp only [rewritten, h]
    rw [hf, entries, h]
    rfl
  | some ledger =>
    rw [rewritten_of_ledger h, entries_of_ledger h]
    rfl

/-- The changed entry of a target. -/
lemma entryAt_rewritten (hf : Proper f) :
    entryAt (rewritten now f envelope) target = (entryAt envelope target).map f := by
  have hkeys : ∀ entry : DeliveryLedgerEntry, decide ((f entry).channelID = target.channelID ∧
      (f entry).templateID = target.templateID) =
        decide (entry.channelID = target.channelID ∧ entry.templateID = target.templateID) := by
    intro entry
    obtain ⟨hchannel, htemplate⟩ := DeliveryTarget.mk.inj (hf.target entry)
    rw [hchannel, htemplate]
  rw [entryAt, entries_rewritten, entryAt, ledgerEntry, ledgerEntry, List.find?_map]
  simp only [Function.comp_def, hkeys]

/-- The entry of one target is changed, and then those of others. -/
lemma among_cons (hf : Proper f) (hnew : target ∉ targets) :
    among targets f ∘ among [target] f = among (target :: targets) f := by
  funext entry
  rw [Function.comp_apply]
  by_cases htarget : targetOf entry = target
  · have hfirst : among [target] f entry = f entry := if_pos (List.mem_singleton.mpr htarget)
    rw [hfirst, among, among, hf.target, htarget, if_neg hnew, if_pos List.mem_cons_self]
  · have hskip : among [target] f entry = entry := if_neg (by simpa using htarget)
    rw [hskip]
    simp only [among, List.mem_cons, htarget, false_or]

/-- The ledger in which the entry of one target is changed. -/
lemma updatedLedger_map (h : validateLedgerEntries index seen ledger = .ok ())
    (hentry : entry ∈ ledger) : updatedLedger (targetOf entry) update ledger =
      (update entry).map fun changed => ledger.map (among [targetOf entry] fun _ => changed) := by
  obtain ⟨done, rest, rfl⟩ := List.append_of_mem hentry
  have hupdated : updatedLedger (targetOf entry) update (done ++ entry :: rest) =
      (update entry).map fun changed => done ++ changed :: rest := updatedLedger_eq h
  have hkeep : ∀ (changed : DeliveryLedgerEntry) (others : List DeliveryLedgerEntry),
      (∀ other ∈ others, targetOf other ≠ targetOf entry) →
      others.map (among [targetOf entry] fun _ => changed) = others := by
    intro changed others hothers
    refine (List.map_congr_left fun other hother => ?_).trans (List.map_id others)
    exact if_neg (by simpa using hothers other hother)
  have hdone : ∀ other ∈ done, targetOf other ≠ targetOf entry :=
    fun other hother heq => (validate_distinct h).2 other hother (DeliveryTarget.mk.inj heq)
  have hrest : ∀ other ∈ rest, targetOf other ≠ targetOf entry := by
    intro other hother heq
    obtain ⟨before, after, rfl⟩ := List.append_of_mem hother
    rw [← List.cons_append, ← List.append_assoc] at h
    exact (validate_distinct h).2 entry (by simp) (DeliveryTarget.mk.inj heq.symm)
  have hfirst : ∀ changed : DeliveryLedgerEntry,
      among [targetOf entry] (fun _ => changed) entry = changed :=
    fun changed => if_pos (List.mem_singleton.mpr rfl)
  simp only [hupdated, List.map_append, List.map_cons, hkeep _ done hdone, hkeep _ rest hrest,
    hfirst]

end Changes

/-! ## Verdicts -/

/-- What a call makes of its item: the envelope it holds at the end, and where it then moves the
item, if it does. -/
structure Verdict where
  held : Envelope
  move : Option (Directory × Envelope)

/-- The item moves to `history`. -/
def acked (now : Time) (envelope : Envelope) : Verdict :=
  ⟨envelope, some (.history, ackedEnvelope now envelope)⟩

/-- The item moves back to `pending`, or to `dead` when its attempts are used up. -/
def nacked (cause : String) (now : Time) (backoff : List Duration) (envelope : Envelope) :
    Verdict :=
  let updated := nackedEnvelope (some cause) now envelope
  ⟨envelope, some (
    if (backoff.length : Int) ≤ updated.attempts then
      (.dead, { updated with state := .dead, nextAttemptAt := 0 })
    else
      (.pending,
        { updated with
          state := .pending
          nextAttemptAt := now + backoff.getD (updated.attempts - 1).toNat 0 }))⟩

/-- The item moves back to `pending` until its next attempt, if that is a later time. -/
def deferred (now next : Time) (envelope : Envelope) : Verdict :=
  ⟨envelope,
    if next.isZero ∨ ¬ now < next then none
    else some (.pending,
      { envelope with
        state := .pending, updatedAt := now, leaseUntil := 0, nextAttemptAt := next })⟩

/-- A held item may be held, and it is. -/
structure Held {M : Machine Cmd (fun c => Except OsError (Reply c)) Store Turn} (c : Custody M)
    (now : Time) (item : Item) (s : Store) : Prop where
  fit : Fit now item.envelope
  has : c.has item s

/-- How a call ends: its item has moved as the verdict says, or it is still held because there is
no move, the moved envelope cannot be written or there is a file in its way. -/
def Ends {M : Machine Cmd (fun c => Except OsError (Reply c)) Store Turn} (c : Custody M)
    (now : Time) (name : FileName) (verdict : Verdict) (t : Store) : Prop :=
  (∃ directory after, verdict.move = some (directory, after) ∧
    (after.encodable = true ∧ c.free directory) ∧ c.gone name directory after t) ∨
  (∀ directory after, verdict.move = some (directory, after) →
    ¬ (after.encodable = true ∧ c.free directory)) ∧ Held c now ⟨verdict.held, name⟩ t

section Held

variable {M : Machine Cmd (fun c => Except OsError (Reply c)) Store Turn} {c : Custody M}
  {item : Item} {s : Store} {now : Time} {α : Type} {ledger : List DeliveryLedgerEntry}
  {target : DeliveryTarget} {entry : DeliveryLedgerEntry}

lemma Held.validated (h : Held c now item s) : validateInflightItem (some item) = .ok item := by
  simp [validateInflightItem, h.fit.claimed]

/-- The held item is checked, and then the rest runs. -/
lemma meets_validated_bind {k : Item → QueueRoutine Item α}
    {post : Except OsError α → Item → Store → Prop} (h : Held c now item s)
    (hok : Meets M post (k item) item s) :
    Meets M post (locals >>= fun held => check (validateInflightItem (some held)) >>= k)
      item s := by
  refine meets_locals_bind (meets_check_bind ?_ ?_)
  · intro message hmessage
    rw [h.validated] at hmessage
    cases hmessage
  · intro held hheld
    obtain rfl : item = held := Except.ok.inj (h.validated.symm.trans hheld)
    exact hok

/-- A check that succeeds. -/
lemma meets_checked_bind {β : Type} {x : Except String α} {a : α} {k : α → QueueRoutine Item β}
    {post : Except OsError β → Item → Store → Prop} (hx : x = .ok a)
    (hok : Meets M post (k a) item s) : Meets M post (check x >>= k) item s := by
  rw [hx]
  exact hok

/-! ### Moves -/

/-- The last move of a held item. -/
lemma meets_move (h : Held c now item s) {destination : Directory} (hne : destination ≠ .inflight)
    {updated : Envelope} (hledger : updated.ledger = item.envelope.ledger)
    (hdisposition : updated.disposition = item.envelope.disposition) :
    Meets M (fun _ _ t => Ends c now item.fileName
        ⟨item.envelope, some (destination, updated)⟩ t)
      (advance destination updated) item s := by
  have hvalid : validateDeliveryEnvelope updated = .ok () := by
    rw [← h.fit.valid]
    simp only [validateDeliveryEnvelope, hledger, hdisposition]
  refine (c.advance h.has hne hvalid).weaken ?_
  rintro r item' t (⟨hlands, hgone⟩ | ⟨hstays, hhas⟩)
  · exact .inl ⟨destination, updated, rfl, hlands, hgone⟩
  · refine .inr ⟨?_, h.fit, hhas⟩
    rintro directory after ⟨⟩
    exact hstays

/-- An item with nothing left to deliver moves to `history`. -/
lemma meets_ack (h : Held c now item s)
    (hterminal : ∀ ledger, item.envelope.ledger = some ledger →
      deliveryLedgerTerminal ledger = true) :
    Meets M (fun _ _ t => Ends c now item.fileName (acked now item.envelope) t) (ack now)
      item s := by
  refine meets_validated_bind h ?_
  have hackable : ackable item.envelope = .ok () := by
    unfold ackable
    cases hledger : item.envelope.ledger with
    | none => rfl
    | some ledger => simp only [h.fit.valid, hterminal ledger hledger, if_true]
  exact meets_checked_bind hackable (meets_move h (by decide) rfl rfl)

/-- An item without a ledger moves to `pending` or `dead`. -/
lemma meets_nack {cause : String} {backoff : List Duration} (h : Held c now item s)
    (hledger : item.envelope.ledger = none) :
    Meets M (fun _ _ t => Ends c now item.fileName (nacked cause now backoff item.envelope) t)
      (nack (some cause) now backoff) item s := by
  refine meets_validated_bind h ?_
  refine meets_raiseIf_bind (fun hbad => absurd hledger hbad) fun _ => ?_
  unfold nacked
  dsimp only
  split
  · exact meets_move h (by decide) rfl rfl
  · exact meets_move h (by decide) rfl rfl

/-- An item with something left to deliver moves to `pending`, if it is put off. -/
lemma meets_defer {next : Time} (h : Held c now item s)
    (hledger : item.envelope.ledger = some ledger)
    (hopen : deliveryLedgerTerminal ledger = false) :
    Meets M (fun _ _ t => Ends c now item.fileName (deferred now next item.envelope) t)
      (defer now next) item s := by
  refine meets_validated_bind h ?_
  split
  · rename_i hnone
    rw [hledger] at hnone
    cases hnone
  rename_i found hfound
  obtain rfl := Option.mem_unique hledger hfound
  refine meets_raiseIf_bind (fun hrefused => ?_) fun haccepted => ?_
  · refine .inr ⟨fun directory after hmove => ?_, h⟩
    rw [deferred, if_pos hrefused] at hmove
    cases hmove
  refine meets_checked_bind (mapError_eq_ok.mpr h.fit.valid) ?_
  refine meets_raiseIf_bind ?_ fun _ => ?_
  · intro hterminal
    rw [hopen] at hterminal
    cases hterminal
  rw [deferred, if_neg haccepted]
  exact meets_move h (by decide) rfl rfl

/-! ### Changes of the ledger -/

/-- A change of the entry of one target.  It works when it can be recorded. -/
lemma meets_updateTarget {update : DeliveryLedgerEntry → Except String DeliveryLedgerEntry}
    (h : Held c now item s) (hentry : entryAt item.envelope target = some entry)
    (hkeeps : ∀ changed, update entry = .ok changed → targetOf changed = targetOf entry) :
    Meets M (fun r item' t => Held c now item' t ∧
        item' = ⟨rewritten now (among [target] fun _ => changedEntry update entry) item.envelope,
          item.fileName⟩ ∧
        ((recordable update entry).isSome = true → r = .ok ()))
      (updateTarget target update now) item s := by
  obtain ⟨hmem, rfl⟩ := (entryAt_iff h.fit.valid).mp hentry
  have hunique : ∀ other ∈ entries item.envelope, targetOf other = targetOf entry → other = entry :=
    fun other hother => eq_of_targetOf (validate_entries h.fit.valid) hmem hother
  -- nothing is recorded, and nothing could be
  have hunchanged : ∀ r : Except OsError Unit, recordable update entry = none →
      Held c now item s ∧ item = ⟨rewritten now
          (among [targetOf entry] fun _ => changedEntry update entry) item.envelope,
          item.fileName⟩ ∧ ((recordable update entry).isSome = true → r = .ok ()) := by
    intro r hnone
    have hsame : rewritten now (among [targetOf entry] fun _ => changedEntry update entry)
        item.envelope = item.envelope := by
      refine rewritten_eq_self h.fit fun other hother => ?_
      unfold among changedEntry
      split
      · rename_i htarget
        rw [hnone, hunique other hother (List.mem_singleton.mp htarget)]
        rfl
      · rfl
    refine ⟨h, by rw [hsame], fun hsome => ?_⟩
    rw [hnone] at hsome
    cases hsome
  refine meets_validated_bind h ?_
  cases hledger : item.envelope.ledger with
  | none =>
    rw [entries, hledger] at hmem
    cases hmem
  | some ledger =>
    obtain ⟨hne, hvalid, -⟩ := validate_inv h.fit.valid hledger
    rw [entries_of_ledger hledger] at hmem
    refine meets_checked_bind (mapError_eq_ok.mpr h.fit.valid) ?_
    rw [updatedLedger_map hvalid hmem]
    cases hupdate : update entry with
    | error message => exact meets_raise (hunchanged _ (by rw [recordable, hupdate]))
    | ok changed =>
      refine meets_checked_bind rfl ?_
      have hmember : changed ∈ ledger.map (among [targetOf entry] fun _ => changed) :=
        List.mem_map.mpr ⟨entry, hmem, if_pos (List.mem_singleton.mpr rfl)⟩
      by_cases hgood : validateLedgerEntry 0 changed = .ok () ∧
          Time.encodable changed.nextAttemptAt = true
      · have hsome : recordable update entry = some changed :=
          recordable_eq_some.mpr ⟨hupdate, hgood⟩
        have hproper : Proper (among [targetOf entry] fun _ => changed) := by
          refine ⟨fun other => ?_, fun other hother => ?_, fun other hother => ?_⟩
          · unfold among
            split
            · rename_i htarget
              rw [hkeeps changed hupdate, List.mem_singleton.mp htarget]
            · rfl
          · unfold among
            split
            · exact hgood.1
            · exact hother
          · unfold among
            split
            · exact hgood.2
            · exact hother
        have hfit := fit_rewritten h.fit hproper
        rw [rewritten_of_ledger hledger] at hfit
        refine meets_checked_bind (mapError_eq_ok.mpr hfit.valid) ?_
        refine (c.rewrite h.has hfit.valid).weaken ?_
        rintro r item' t ⟨hhas, hwritten, -⟩
        obtain ⟨rfl, rfl⟩ := hwritten hfit.encodable
        refine ⟨⟨hfit, hhas⟩, ?_, fun _ => rfl⟩
        rw [rewritten_of_ledger hledger, changedEntry, hsome, Option.getD_some]
      · have hnone : recordable update entry = none := by
          rw [recordable, hupdate]
          exact if_neg hgood
        refine meets_check_bind (fun _ _ => hunchanged _ hnone) fun _ hvalid' => ?_
        have hvalid' := mapError_eq_ok.mp hvalid'
        have hentry' := validate_entry (validate_entries hvalid') hmember
        refine (c.rewrite h.has hvalid').weaken ?_
        rintro r item' t ⟨hhas, -, hrefused⟩
        have hbad : (ledgered (ledger.map (among [targetOf entry] fun _ => changed)) now
            item.envelope).encodable = false := by
          rw [Bool.eq_false_iff]
          exact fun hencodable =>
            hgood ⟨hentry', h.fit.ledgered_encodable.mp hencodable changed hmember⟩
        obtain ⟨-, rfl⟩ := hrefused hbad
        exact ⟨⟨h.fit, hhas⟩, (hunchanged r hnone).2⟩

end Held

end AgentBell.Service
