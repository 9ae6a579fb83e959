import Mathlib.Data.List.Forall2
import Mathlib.Logic.Relation
import AgentBell.Queue.Copies

/-!
# The history of a delivery ledger

What the operations of one process do to the delivery ledger of an item over a whole run: claims,
resolved targets, recorded deliveries and failures, deferrals and acknowledgements, with steps that
fail, kills at any step and restarts in between.  The item may have a file in more than one
directory, since a move writes its destination before it removes its source; all of them carry one
ledger as long as the ledger is rewritten only while there is one file.
-/

namespace AgentBell.Queue

open Interleaving Interleaving.Routine

variable {cause : String}

/-! ## How a ledger may change -/

/-- An entry may later become one for the same target; a settled target keeps its state. -/
structure DeliveryLedgerEntry.Advances (entry later : DeliveryLedgerEntry) : Prop where
  channel : later.channelID = entry.channelID
  template : later.templateID = entry.templateID
  settled : entry.state ≠ .pending → later.state = entry.state

lemma DeliveryLedgerEntry.Advances.refl (entry : DeliveryLedgerEntry) : entry.Advances entry :=
  ⟨rfl, rfl, fun _ => rfl⟩

lemma DeliveryLedgerEntry.Advances.trans {a b c : DeliveryLedgerEntry} (hab : a.Advances b)
    (hbc : b.Advances c) : a.Advances c where
  channel := hbc.channel.trans hab.channel
  template := hbc.template.trans hab.template
  settled ha := by
    have hb : b.state = a.state := hab.settled ha
    rw [hbc.settled (by rwa [hb]), hb]

/-- A ledger that was fixed keeps its targets, each of which only advances. -/
def LedgerAdvances (ledger later : Option (List DeliveryLedgerEntry)) : Prop :=
  ∀ entries, ledger = some entries →
    ∃ laterEntries, later = some laterEntries ∧
      List.Forall₂ DeliveryLedgerEntry.Advances entries laterEntries

lemma LedgerAdvances.refl (ledger : Option (List DeliveryLedgerEntry)) :
    LedgerAdvances ledger ledger :=
  fun entries h => ⟨entries, h, List.forall₂_same.mpr fun entry _ => .refl entry⟩

lemma LedgerAdvances.trans {a b c : Option (List DeliveryLedgerEntry)} (hab : LedgerAdvances a b)
    (hbc : LedgerAdvances b c) : LedgerAdvances a c := by
  intro entries ha
  obtain ⟨middle, hb, hentries⟩ := hab entries ha
  obtain ⟨last, hc, hmiddle⟩ := hbc middle hb
  refine ⟨last, hc, ?_⟩
  have htrans : ∀ {xs ys zs : List DeliveryLedgerEntry},
      List.Forall₂ DeliveryLedgerEntry.Advances xs ys →
      List.Forall₂ DeliveryLedgerEntry.Advances ys zs →
      List.Forall₂ DeliveryLedgerEntry.Advances xs zs := by
    intro xs ys zs hxy
    induction hxy generalizing zs with
    | nil => exact id
    | cons hfirst hrest ih =>
      rintro (_ | ⟨hnext, hyz⟩)
      exact .cons (hfirst.trans hnext) (ih hyz)
  exact htrans hentries hmiddle

lemma LedgerAdvances.of_none (later : Option (List DeliveryLedgerEntry)) :
    LedgerAdvances none later := by
  intro entries h
  cases h

variable {entry later : DeliveryLedgerEntry}

lemma ackEntry_advances {messageID : String} (h : ackEntry messageID entry = .ok later) :
    entry.Advances later := by
  unfold ackEntry at h
  split at h
  · cases h
    exact .refl entry
  · rename_i hpending
    cases h
    exact ⟨rfl, rfl, fun hne => absurd hpending hne⟩
  · cases h

lemma nackEntry_advances {nextAttemptAt : Time}
    (h : nackEntry cause nextAttemptAt entry = .ok later) : entry.Advances later := by
  unfold nackEntry at h
  split at h
  · rename_i hpending
    cases h
    exact ⟨rfl, rfl, fun hne => absurd hpending hne⟩
  · cases h
  · cases h

lemma deadEntry_advances (h : deadEntry cause entry = .ok later) : entry.Advances later := by
  unfold deadEntry at h
  split at h
  · cases h
    exact .refl entry
  · rename_i hpending
    cases h
    exact ⟨rfl, rfl, fun hne => absurd hpending hne⟩
  · cases h

/-- An envelope with a ledger, fit to be stored. -/
structure Envelope.Bears (ledger : Option (List DeliveryLedgerEntry)) (envelope : Envelope) :
    Prop where
  carried : envelope.ledger = ledger
  valid : validateDeliveryEnvelope envelope = .ok ()

variable {ledger : Option (List DeliveryLedgerEntry)}

lemma Envelope.Bears.congr {a b : Envelope} (ha : a.Bears ledger) (hledger : b.ledger = a.ledger)
    (hdisposition : b.disposition = a.disposition) : b.Bears ledger where
  carried := hledger.trans ha.carried
  valid := by
    rw [← ha.valid]
    simp only [validateDeliveryEnvelope, hledger, hdisposition]

lemma Envelope.Bears.encoded {envelope : Envelope} (h : envelope.Bears ledger) :
    envelope.encoded.Bears ledger := by
  rw [Envelope.encoded_of_valid h.valid]
  exact h

namespace Faulty

variable {ledger : List DeliveryLedgerEntry}

/-- The changed ledger advances when the changed entry does. -/
lemma updatedLedger_advances {target : DeliveryTarget}
    {update : DeliveryLedgerEntry → Except String DeliveryLedgerEntry}
    {later : List DeliveryLedgerEntry}
    (hupdate : ∀ entry changed, update entry = .ok changed → entry.Advances changed)
    (h : updatedLedger target update ledger = .ok later) :
    List.Forall₂ DeliveryLedgerEntry.Advances ledger later := by
  have hset : ∀ (entries : List DeliveryLedgerEntry) (index : Nat)
      (entry changed : DeliveryLedgerEntry), entries[index]? = some entry →
      entry.Advances changed →
      List.Forall₂ DeliveryLedgerEntry.Advances entries (entries.set index changed) := by
    intro entries
    induction entries with
    | nil =>
      intro index entry changed hentry
      cases hentry
    | cons first rest ih =>
      intro index entry changed hentry hchanged
      cases index with
      | zero =>
        obtain rfl := Option.some.inj hentry
        exact .cons hchanged (List.forall₂_same.mpr fun entry _ => .refl entry)
      | succ index => exact .cons (.refl first) (ih index entry changed hentry hchanged)
  unfold updatedLedger at h
  split at h
  · cases h
  · rename_i index hindex
    split at h
    · cases h
    · rename_i entry hentry
      cases hresult : update entry with
      | error message =>
        rw [hresult] at h
        cases h
      | ok changed =>
        rw [hresult] at h
        cases h
        exact hset ledger index entry changed hentry (hupdate entry changed hresult)

/-! ## Operations on the held item -/

/-- An operation on a held item. -/
inductive Action where
  | resolve (targets : List DeliveryTarget) (now : Time)
  | ackTarget (target : DeliveryTarget) (messageID : String) (now : Time)
  | nackTarget (target : DeliveryTarget) (cause : Option String) (nextAttemptAt now : Time)
  | deadTarget (target : DeliveryTarget) (cause : Option String) (now : Time)
  | defer (now nextAttemptAt : Time)
  | ack (now : Time)

/-- What an operation runs; only `ResolveTargets` returns targets. -/
def Action.routine : Action → QueueRoutine Item (List DeliveryTarget)
  | .resolve targets now => resolveTargets targets now
  | .ackTarget target messageID now => do
    Queue.ackTarget target messageID now
    pure []
  | .nackTarget target cause nextAttemptAt now => do
    Queue.nackTarget target cause nextAttemptAt now
    pure []
  | .deadTarget target cause now => do
    Queue.deadTarget target cause now
    pure []
  | .defer now nextAttemptAt => do
    Queue.defer now nextAttemptAt
    pure []
  | .ack now => do
    Queue.ack now
    pure []

/-- Whether an operation moves the item to another directory; the others rewrite it in place. -/
def Action.moves : Action → Bool
  | .defer _ _ | .ack _ => true
  | _ => false

/-- Targets that are pending in the ledger of an envelope. -/
def Ready (envelope : Envelope) (targets : List DeliveryTarget) : Prop :=
  ∀ target ∈ targets, ∃ ledger, envelope.ledger = some ledger ∧
    ∃ entry ∈ ledger, entry.state = .pending ∧ target = ⟨entry.channelID, entry.templateID⟩

lemma ready_nil (envelope : Envelope) : Ready envelope [] := by
  intro target htarget
  cases htarget

lemma ready_readyTargets {envelope : Envelope} {now : Time} (h : envelope.ledger = some ledger) :
    Ready envelope (readyTargets ledger now) := by
  intro target htarget
  obtain ⟨entry, hentry, hpending, heq⟩ := mem_readyTargets htarget
  exact ⟨ledger, h, entry, hentry, hpending, heq⟩

/-- What an operation on a held item may come to. -/
inductive Effect (name : FileName) (item : Item) (s : Store) (moves : Bool) :
    Except OsError (List DeliveryTarget) → Item → Store → Prop where
  | refused {err : OsError} {t : Store} (same : copies name t = copies name s) :
      Effect name item s moves (.error err) item t
  | stuck {err : OsError} {t : Store} (directory : Directory) (moved : Envelope)
      (kind : moves = true) (outside : directory ≠ .inflight)
      (held : item.envelope.state = .inflight) (free : copies name s directory = none)
      (ledger : moved.ledger = item.envelope.ledger)
      (disposition : moved.disposition = item.envelope.disposition)
      (stored : copies name t =
        Function.update (copies name s) directory (some moved.encoded)) :
      Effect name item s moves (.error err) item t
  | moved {t : Store} (directory : Directory) (moved : Envelope)
      (kind : moves = true) (held : item.envelope.state = .inflight)
      (ledger : moved.ledger = item.envelope.ledger)
      (disposition : moved.disposition = item.envelope.disposition)
      (settled : moved.state ≠ .inflight)
      (stored : copies name t = Function.update
        (Function.update (copies name s) directory (some moved.encoded)) .inflight none) :
      Effect name item s moves (.ok []) { item with envelope := moved } t
  | kept {ready : List DeliveryTarget} {t : Store} (held : item.envelope.state = .inflight)
      (pending : Ready item.envelope ready) (same : copies name t = copies name s) :
      Effect name item s moves (.ok ready) item t
  | rewritten {ready : List DeliveryTarget} {t : Store} (updated : Envelope)
      (kind : moves = false) (held : item.envelope.state = .inflight)
      (present : (copies name s .inflight).isSome = true)
      (valid : validateDeliveryEnvelope updated = .ok ())
      (advances : LedgerAdvances item.envelope.ledger updated.ledger)
      (pending : Ready updated ready)
      (stored : copies name t =
        Function.update (copies name s) .inflight (some updated.encoded)) :
      Effect name item s moves (.ok ready) { item with envelope := updated } t

section Actions

variable {name : FileName} {item : Item} {s : Store} {moves : Bool} {now : Time}
  {updated : Envelope}

lemma validateInflightItem_eq {checked : Item}
    (h : validateInflightItem (some item) = .ok checked) :
    checked = item ∧ item.envelope.state = .inflight := by
  by_cases hstate : item.envelope.state = .inflight
  · rw [validateInflightItem, if_neg (not_not_intro hstate)] at h
    exact ⟨(Except.ok.inj h).symm, hstate⟩
  · rw [validateInflightItem, if_pos hstate] at h
    cases h

/-- The held item is checked, and then the rest runs. -/
lemma meets_held_bind {α : Type} {k : Item → QueueRoutine Item α}
    {post : Except OsError α → Item → Store → Prop} (herror : ∀ err, post (.error err) item s)
    (hok : item.envelope.state = .inflight → Meets (undisturbed name) post (k item) item s) :
    Meets (undisturbed name) post
      (locals >>= fun held => check (validateInflightItem (some held)) >>= k) item s := by
  refine meets_locals_bind (meets_check_bind (fun _ _ => herror _) fun checked hchecked => ?_)
  obtain ⟨rfl, hstate⟩ := validateInflightItem_eq hchecked
  exact hok hstate

lemma meets_rewrite (hname : item.fileName = name) :
    Meets (undisturbed name) (fun r item' t =>
        (∃ e, r = .error e) ∧ item' = item ∧ copies name t = copies name s ∨
        r = .ok () ∧ item' = { item with envelope := updated } ∧
          (copies name s .inflight).isSome = true ∧ copies name t =
            Function.update (copies name s) .inflight (some updated.encoded))
      (rewrite updated) item s := by
  subst hname
  refine meets_locals_bind ?_
  refine meets_bind meets_replace ?_ ?_
  · rintro _ item' t ⟨rfl, ⟨⟨e, ⟨⟩⟩, -⟩ | ⟨-, -, hpresent, ht⟩⟩
    exact meets_assign (.inr ⟨rfl, rfl, hpresent, ht⟩)
  · rintro e item' t ⟨rfl, ⟨-, -, ht⟩ | ⟨⟨⟩, -⟩⟩
    exact .inl ⟨⟨e, rfl⟩, rfl, ht⟩

lemma meets_advance {directory : Directory} (hname : item.fileName = name)
    (hne : directory ≠ .inflight) (hheld : item.envelope.state = .inflight)
    (hledger : updated.ledger = item.envelope.ledger)
    (hdisposition : updated.disposition = item.envelope.disposition)
    (hstate : updated.state ≠ .inflight) : Meets (undisturbed name)
      (fun r item' t => Effect name item s true (r.map fun _ => []) item' t)
      (advance directory updated) item s := by
  subst hname
  refine meets_locals_bind ?_
  refine meets_bind meets_transition ?_ ?_
  · rintro _ item' t ⟨rfl, ⟨⟨e, ⟨⟩⟩, -⟩ | ⟨-, ⟨e, ⟨⟩⟩, -⟩ | ⟨hfree, -, ht⟩⟩
    exact meets_assign (.moved directory updated rfl hheld hledger hdisposition hstate ht)
  · rintro e item' t ⟨rfl, ⟨-, -, ht⟩ | ⟨hfree, -, -, ht⟩ | ⟨-, ⟨⟩, -⟩⟩
    · exact .refused ht
    · exact .stuck directory updated rfl hne hheld hfree hledger hdisposition ht

/-- An operation that returns nothing. -/
lemma meets_unit {p : QueueRoutine Item Unit} (hp : Meets (undisturbed name)
      (fun r item' t => Effect name item s moves (r.map fun _ => []) item' t) p item s) :
    Meets (undisturbed name) (fun r item' t => Effect name item s moves r item' t)
      (p >>= fun _ => pure []) item s :=
  meets_bind hp (fun _ _ _ h => meets_pure h) fun _ _ _ h => h

lemma meets_ack (hname : item.fileName = name) : Meets (undisturbed name)
      (fun r item' t => Effect name item s true (r.map fun _ => []) item' t)
      (ack now) item s := by
  refine meets_held_bind (fun _ => .refused rfl) fun hheld => ?_
  refine meets_check_bind (fun _ _ => .refused rfl) fun _ _ => ?_
  exact meets_advance hname (by decide) hheld rfl rfl (by simp [ackedEnvelope])

lemma meets_defer {nextAttemptAt : Time} (hname : item.fileName = name) : Meets (undisturbed name)
      (fun r item' t => Effect name item s true (r.map fun _ => []) item' t)
      (defer now nextAttemptAt) item s := by
  refine meets_held_bind (fun _ => .refused rfl) fun hheld => ?_
  split
  · exact meets_raise (.refused rfl)
  · refine meets_raiseIf_bind (fun _ => .refused rfl) fun _ => ?_
    refine meets_check_bind (fun _ _ => .refused rfl) fun _ _ => ?_
    refine meets_raiseIf_bind (fun _ => .refused rfl) fun _ => ?_
    exact meets_advance hname (by decide) hheld rfl rfl (by simp)

lemma meets_updateTarget {target : DeliveryTarget}
    {update : DeliveryLedgerEntry → Except String DeliveryLedgerEntry}
    (hname : item.fileName = name)
    (hupdate : ∀ entry changed, update entry = .ok changed → entry.Advances changed) :
    Meets (undisturbed name)
      (fun r item' t => Effect name item s false (r.map fun _ => []) item' t)
      (updateTarget target update now) item s := by
  refine meets_held_bind (fun _ => .refused rfl) fun hheld => ?_
  split
  · exact meets_raise (.refused rfl)
  · rename_i ledger hledger
    refine meets_check_bind (fun _ _ => .refused rfl) fun _ _ => ?_
    refine meets_check_bind (fun _ _ => .refused rfl) fun later hlater => ?_
    refine meets_check_bind (fun _ _ => .refused rfl) fun _ hvalid => ?_
    refine Meets.weaken (meets_rewrite hname) ?_
    rintro r item' t (⟨⟨e, rfl⟩, rfl, ht⟩ | ⟨rfl, rfl, hpresent, ht⟩)
    · exact .refused ht
    · refine .rewritten _ rfl hheld hpresent (mapError_eq_ok.mp hvalid) ?_ (ready_nil _) ht
      intro entries hentries
      rw [hledger] at hentries
      obtain rfl := Option.some.inj hentries
      exact ⟨later, rfl, updatedLedger_advances hupdate hlater⟩

lemma meets_resolveTargets {targets : List DeliveryTarget} (hname : item.fileName = name) :
    Meets (undisturbed name) (fun r item' t => Effect name item s false r item' t)
      (resolveTargets targets now) item s := by
  refine meets_held_bind (fun _ => .refused rfl) fun hheld => ?_
  split
  · rename_i hnone
    refine meets_check_bind (fun _ _ => .refused rfl) fun ledger _ => ?_
    refine meets_check_bind (fun _ _ => .refused rfl) fun _ hvalid => ?_
    refine meets_bind (meets_rewrite hname) ?_ ?_
    · rintro _ item' t (⟨⟨e, ⟨⟩⟩, -⟩ | ⟨-, rfl, hpresent, ht⟩)
      refine meets_pure (.rewritten _ rfl hheld hpresent hvalid ?_ (ready_readyTargets rfl) ht)
      rw [hnone]
      exact .of_none _
    · rintro e item' t (⟨-, rfl, ht⟩ | ⟨⟨⟩, -⟩)
      exact .refused ht
  · rename_i ledger hledger
    refine meets_check_bind (fun _ _ => .refused rfl) fun _ _ => ?_
    exact meets_pure (.kept hheld (ready_readyTargets hledger) rfl)

/-- What every operation on a held item comes to. -/
theorem meets_action (action : Action) (hname : item.fileName = name) :
    Meets (undisturbed name) (fun r item' t => Effect name item s action.moves r item' t)
      action.routine item s := by
  cases action with
  | resolve targets now => exact meets_resolveTargets hname
  | ackTarget target messageID now =>
    exact meets_unit (meets_updateTarget hname fun _ _ h => ackEntry_advances h)
  | nackTarget target cause nextAttemptAt now =>
    cases cause with
    | none => exact meets_raise (.refused rfl)
    | some cause => exact meets_unit (meets_updateTarget hname fun _ _ h => nackEntry_advances h)
  | deadTarget target cause now =>
    cases cause with
    | none => exact meets_raise (.refused rfl)
    | some cause => exact meets_unit (meets_updateTarget hname fun _ _ h => deadEntry_advances h)
  | defer now nextAttemptAt => exact meets_unit (meets_defer hname)
  | ack now => exact meets_unit (meets_ack hname)

end Actions

/-! ## Claims and recoveries -/

/-- All files of a name bear one ledger. -/
def Agree (name : FileName) (ledger : Option (List DeliveryLedgerEntry)) (s : Store) : Prop :=
  ∀ directory envelope, copies name s directory = some envelope → envelope.Bears ledger

/-- Whether a command writes only envelopes that bear a ledger to the files of a name. -/
def Writes (name : FileName) (ledger : Option (List DeliveryLedgerEntry)) : Cmd → Prop
  | .write path envelope => path.2 = name → envelope.Bears ledger
  | _ => True

/-- What a file of a name shows when all files of the name bear one ledger. -/
def Shows (name : FileName) (ledger : Option (List DeliveryLedgerEntry)) :
    (c : Cmd) → Except OsError (Reply c) → Prop
  | .readFile path, .ok (some envelope) => path.2 = name → envelope.Bears ledger
  | _, _ => True

/-- Those of some items that have a name bear one ledger. -/
def Borne (name : FileName) (ledger : Option (List DeliveryLedgerEntry)) (items : List Item) :
    Prop :=
  ∀ item ∈ items, item.fileName = name → item.envelope.Bears ledger

section Scans

variable {name : FileName} {ledger : Option (List DeliveryLedgerEntry)} {ℓ : Type} {l : ℓ}
  {s t : Store} {directory : Directory} {fileName : FileName} {envelope : Envelope} {now : Time}
  {lease : Duration} {items : List Item}

/-- Writing such envelopes keeps the files in agreement. -/
lemma agree_of_exec {turn : Turn} {c : Cmd} {r : Except OsError (Reply c)}
    (hc : Writes name ledger c) (hs : Agree name ledger s)
    (h : (undisturbed name).exec turn c s = some (r, t)) :
    Shows name ledger c r ∧ Agree name ledger t := by
  obtain ⟨u, hu, ⟨x, r', rfl, hexec⟩ | ⟨⟨e, rfl⟩, rfl, -⟩⟩ := sparing_cases h
  · have hagree : Agree name ledger u := by
      intro directory envelope hcopy
      rw [hu] at hcopy
      exact hs directory envelope hcopy
    constructor
    · cases c with
      | readFile path =>
        cases hexec
        cases hlookup : t.files.lookup path with
        | none => trivial
        | some envelope =>
          intro hname
          subst hname
          exact hagree path.1 envelope hlookup
      | randomID | createKey | writeKey | readKey | keyStale | removeKey | deadlinePassed
      | globItem | stat | write | remove | discard | readDir | quarantine | answer => trivial
    · intro directory envelope hcopy
      cases storeEffect_of_exec hexec with
      | same files =>
        unfold copies at hcopy
        rw [files] at hcopy
        exact hagree directory envelope hcopy
      | stored path stored =>
        obtain ⟨written, fileName⟩ := path
        by_cases hname : fileName = name
        · rw [hname, copies_put_self] at hcopy
          by_cases hdirectory : directory = written
          · rw [hdirectory, Function.update_self] at hcopy
            obtain rfl := Option.some.inj hcopy
            exact (hc hname).encoded
          · rw [Function.update_of_ne hdirectory] at hcopy
            exact hagree directory envelope hcopy
        · rw [copies_put_ne hname] at hcopy
          exact hagree directory envelope hcopy
      | removed path => exact hagree directory envelope (copies_drop path hcopy)
      | discarded path => exact hagree directory envelope (copies_drop path hcopy)
      | quarantined path => exact hagree directory envelope (copies_drop path hcopy)
      | answered => exact hagree directory envelope hcopy
  · refine ⟨?_, fun directory envelope hcopy => hs directory envelope (hu ▸ hcopy)⟩
    cases c <;> trivial

/-- The items a listing reads bear the ledger of their files. -/
lemma issues_readItems (names : List FileName) : Issues (Shows name ledger) (Writes name ledger)
      (fun r _ => ∀ items, r = .ok items → Borne name ledger items)
      (readItems directory names : QueueRoutine ℓ (List Item)) l := by
  induction names generalizing l with
  | nil =>
    intro items hitems
    cases hitems
    intro item hitem
    cases hitem
  | cons fileName names ih =>
    refine issues_perform_bind trivial (fun found hfound => ?_) fun e items hitems => by
      cases hitems
    cases found with
    | none =>
      intro items hitems
      cases hitems
    | some envelope =>
      dsimp only
      split
      · refine Issues.bind ih (fun items l' hitems => ?_) fun _ _ _ => by rintro _ ⟨⟩
        intro all hall
        cases hall
        intro item hitem
        rcases List.mem_cons.mp hitem with rfl | hitem
        · exact hfound
        · exact hitems items rfl item hitem
      · refine Issues.bind (within_wrapping (within_perform trivial)).issues_any
          (fun moved l' _ => ?_) fun _ _ _ => by rintro _ ⟨⟩
        exact issues_raiseIf_bind (fun _ => by rintro _ ⟨⟩) fun _ => ih

lemma issues_listUnlocked : Issues (Shows name ledger) (Writes name ledger)
      (fun r _ => ∀ items, r = .ok items → Borne name ledger items)
      (listUnlocked directory : QueueRoutine ℓ (List Item)) l := by
  refine issues_perform_bind trivial (fun names _ => ?_) nofun
  refine Issues.bind (issues_readItems names) (fun items l' hitems => ?_)
    nofun
  intro sorted hsorted item hitem
  cases hsorted
  exact hitems items rfl item ((List.perm_insertionSort _ items).mem_iff.mp hitem)

/-- A claimed item bears the ledger of its file. -/
lemma issues_claimFirst (hitems : Borne name ledger items) :
    Issues (Shows name ledger) (Writes name ledger)
      (fun r _ => ∀ item, r = .ok (some item) → item.fileName = name →
        item.envelope.Bears ledger)
      (claimFirst now lease items : QueueRoutine ℓ (Option Item)) l := by
  induction items generalizing l with
  | nil =>
    intro item hitem
    cases hitem
  | cons first rest ih =>
    have hrest : Borne name ledger rest :=
      fun item hitem => hitems item (List.mem_cons_of_mem _ hitem)
    have hclaimed : first.fileName = name →
        (claimedEnvelope now lease first.envelope).Bears ledger :=
      fun hname => (hitems first List.mem_cons_self hname).congr rfl rfl
    unfold claimFirst
    split
    · exact ih hrest
    · refine Issues.bind (within_writeUnlessExists trivial hclaimed).issues_any
        (fun written l' _ => ?_) fun e l' _ item hitem => by cases hitem
      cases written with
      | true =>
        refine Issues.bind (within_wrapping (within_remove trivial)).issues_any (fun _ l'' _ => ?_)
          fun e l'' _ item hitem => by cases hitem
        intro item hitem hname
        cases hitem
        exact hclaimed hname
      | false =>
        exact Issues.bind ((within_remove trivial).catching fun _ => within_pure _).issues_any
          (fun _ l'' _ => ih hrest)
          fun e l'' _ item hitem => by cases hitem

/-- A claim keeps the files in agreement. -/
theorem meets_claim (hs : Agree name ledger s) :
    Meets (undisturbed name) (fun r _ t => (∀ item, r = .ok (some item) →
        item.fileName = name → item.envelope.Bears ledger) ∧ Agree name ledger t)
      (claim now lease : QueueRoutine ℓ (Option Item)) l s := by
  have hissues : Issues (Shows name ledger) (Writes name ledger)
      (fun r _ => ∀ item, r = .ok (some item) → item.fileName = name →
        item.envelope.Bears ledger)
      (claim now lease : QueueRoutine ℓ (Option Item)) l :=
    Issues.bind issues_listUnlocked
      (fun items l' hitems => issues_claimFirst (hitems items rfl))
      fun e l' _ item hitem => by cases hitem
  exact Issues.meets hissues (fun _ _ _ _ _ hc hagree h => agree_of_exec hc hagree h) hs

lemma within_recoverItems {recovered : Nat} (hitems : Borne name ledger items) :
    (recoverItems now recovered items : QueueRoutine ℓ Nat).Within (Writes name ledger) := by
  induction items generalizing recovered with
  | nil => exact within_pure _
  | cons first rest ih =>
    have hrest : Borne name ledger rest :=
      fun item hitem => hitems item (List.mem_cons_of_mem _ hitem)
    refine Within.bind (within_completedTransition fun _ => trivial) fun completed => ?_
    split
    · refine Within.bind (Within.catching (within_perform trivial) fun _ => within_pure _) ?_
      exact fun _ => ih hrest
    · split
      · exact ih hrest
      · refine Within.bind (within_transition trivial ?_ trivial) fun _ => ih hrest
        exact fun hname => (hitems first List.mem_cons_self hname).congr rfl rfl

/-- A recovery keeps the files in agreement. -/
theorem meets_recoverExpired (hs : Agree name ledger s) :
    Meets (undisturbed name) (fun _ _ t => Agree name ledger t)
      (recoverExpired now : QueueRoutine ℓ Nat) l s := by
  have hissues : Issues (Shows name ledger) (Writes name ledger) (fun _ _ => True)
      (recoverExpired now : QueueRoutine ℓ Nat) l :=
    Issues.bind issues_listUnlocked
      (fun items l' hitems => (within_recoverItems (hitems items rfl)).issues_any)
      fun _ _ _ => trivial
  have hmeets : Meets (undisturbed name) (fun _ _ t => True ∧ Agree name ledger t)
      (recoverExpired now : QueueRoutine ℓ Nat) l s :=
    Issues.meets hissues (fun _ _ _ _ _ hc hagree h => agree_of_exec hc hagree h) hs
  exact hmeets.weaken fun _ _ _ h => h.2

end Scans

/-! ## Runs -/

/-- The queue directory and the item a process holds. -/
structure Session where
  store : Store
  held : Option Item := none

/-- The item held after a claim: the one that was claimed, if it has the name. -/
def Session.heldAfter (name : FileName) (s : Session) :
    Except OsError (Option Item) → Option Item
  | .ok (some item) => if item.fileName = name then some item else s.held
  | _ => s.held

/-- One operation on the item with a file name, finished or cut short by a kill, or the end of the
call or of the process that holds it.  `may` limits the operations on the held item. -/
inductive Step (name : FileName) (may : Action → Store → Prop) : Session → Session → Prop where
  | claimed {s : Session} {t : Store} (now : Time) (lease : Duration) (turns : List Turn)
      (r : Except OsError (Option Item))
      (run : (claim now lease ()).run (undisturbed name) turns s.store = some ((r, ()), t)) :
      Step name may s ⟨t, s.heldAfter name r⟩
  | acted {s : Session} {t : Store} {item : Item} (action : Action) (turns : List Turn)
      (r : Except OsError (List DeliveryTarget)) (item' : Item) (held : s.held = some item)
      (allowed : may action s.store)
      (run : (action.routine item).run (undisturbed name) turns s.store = some ((r, item'), t)) :
      Step name may s ⟨t, some item'⟩
  | recovered {s : Session} {t : Store} (now : Time) (turns : List Turn) (r : Except OsError Nat)
      (run : (recoverExpired now ()).run (undisturbed name) turns s.store = some ((r, ()), t)) :
      Step name may s ⟨t, s.held⟩
  | cutClaim {s : Session} {t : Store} (now : Time) (lease : Duration) (turns : List Turn)
      (run : (claim now lease ()).after (undisturbed name) turns s.store = some t) :
      Step name may s ⟨t, none⟩
  | cutAction {s : Session} {t : Store} {item : Item} (action : Action) (turns : List Turn)
      (held : s.held = some item) (allowed : may action s.store)
      (run : (action.routine item).after (undisturbed name) turns s.store = some t) :
      Step name may s ⟨t, none⟩
  | cutRecovery {s : Session} {t : Store} (now : Time) (turns : List Turn)
      (run : (recoverExpired now ()).after (undisturbed name) turns s.store = some t) :
      Step name may s ⟨t, none⟩
  | elsewhere {s : Session} {t : Store} (same : copies name t = copies name s.store) :
      Step name may s ⟨t, s.held⟩
  | released {s : Session} : Step name may s ⟨s.store, none⟩

/-- The item as `Enqueue` leaves it, not yet held. -/
structure Fresh (name : FileName) (s : Session) : Prop where
  free : s.held = none
  enqueued : ∀ directory envelope, copies name s.store directory = some envelope →
    envelope.ledger = none ∧ envelope.disposition = none

/-- The ledger is rewritten only while the item has no second file besides the one in
`inflight`. -/
def Orderly (name : FileName) (action : Action) (s : Store) : Prop :=
  action.moves = false → (copies name s .inflight).isSome = true →
    ∀ directory, directory ≠ .inflight → copies name s directory = none

/-- All files of the item bear one ledger, and so does the held item as long as it is claimed. -/
structure Sound (name : FileName) (ledger : Option (List DeliveryLedgerEntry)) (s : Session) :
    Prop where
  files : Agree name ledger s.store
  named : ∀ item, s.held = some item → item.fileName = name
  held : ∀ item, s.held = some item → item.envelope.state = .inflight →
    item.envelope.Bears ledger

section Runs

variable {name : FileName} {ledger : Option (List DeliveryLedgerEntry)} {s t : Session} {v : Store}

lemma Fresh.sound (h : Fresh name s) : Sound name none s where
  files directory envelope hcopy := by
    obtain ⟨hledger, hdisposition⟩ := h.enqueued directory envelope hcopy
    refine ⟨hledger, ?_⟩
    simp [validateDeliveryEnvelope, hledger, hdisposition]
  named item hitem := by
    rw [h.free] at hitem
    cases hitem
  held item hitem := by
    rw [h.free] at hitem
    cases hitem

lemma agree_update {u : Store} {directory : Directory} {envelope : Envelope}
    (hu : Agree name ledger u) (henvelope : envelope.Bears ledger) (hv : copies name v =
      Function.update (copies name u) directory (some envelope.encoded)) : Agree name ledger v := by
  intro other stored hstored
  rw [hv] at hstored
  by_cases hother : other = directory
  · rw [hother, Function.update_self] at hstored
    obtain rfl := Option.some.inj hstored
    exact henvelope.encoded
  · rw [Function.update_of_ne hother] at hstored
    exact hu other stored hstored

/-- What an operation that keeps to the order comes to. -/
lemma sound_of_effect {item item' : Item} {action : Action}
    {r : Except OsError (List DeliveryTarget)} (hs : Sound name ledger s)
    (hheld : s.held = some item) (hmay : Orderly name action s.store)
    (heffect : Effect name item s.store action.moves r item' v) :
    ∃ later, LedgerAdvances ledger later ∧ Sound name later ⟨v, some item'⟩ := by
  have hbears := hs.held item hheld
  have hnamed := hs.named item hheld
  have hsame : ∀ {w : Store}, copies name w = copies name s.store → Agree name ledger w := by
    intro w hw directory envelope hcopy
    rw [hw] at hcopy
    exact hs.files directory envelope hcopy
  have hkeep : ∀ {w : Store}, Agree name ledger w → Sound name ledger ⟨w, some item⟩ := by
    intro w hw
    exact ⟨hw, by rintro _ ⟨⟩; exact hnamed, by rintro _ ⟨⟩; exact hbears⟩
  cases heffect with
  | refused same => exact ⟨ledger, .refl _, hkeep (hsame same)⟩
  | kept held pending same => exact ⟨ledger, .refl _, hkeep (hsame same)⟩
  | stuck directory moved kind outside held free hledger hdisposition stored =>
    have hmoved := (hbears held).congr hledger hdisposition
    exact ⟨ledger, .refl _, hkeep (agree_update hs.files hmoved stored)⟩
  | moved directory moved kind held hledger hdisposition settled stored =>
    have hmoved := (hbears held).congr hledger hdisposition
    refine ⟨ledger, .refl _, ?_, ?_, ?_⟩
    · intro other envelope hcopy
      have hother : other ≠ .inflight := by
        rintro rfl
        rw [stored, Function.update_self] at hcopy
        cases hcopy
      rw [stored, Function.update_of_ne hother] at hcopy
      by_cases hdirectory : other = directory
      · rw [hdirectory, Function.update_self] at hcopy
        obtain rfl := Option.some.inj hcopy
        exact hmoved.encoded
      · rw [Function.update_of_ne hdirectory] at hcopy
        exact hs.files other envelope hcopy
    · rintro _ ⟨⟩
      exact hnamed
    · rintro _ ⟨⟩ hstate
      exact absurd hstate settled
  | rewritten updated kind held present valid advances pending stored =>
    -- the file in `inflight` is the only one, so no file keeps the old ledger
    have halone := hmay kind present
    have hupdated : updated.Bears updated.ledger := ⟨rfl, valid⟩
    refine ⟨updated.ledger, (hbears held).carried ▸ advances, ?_, ?_, ?_⟩
    · intro other envelope hcopy
      rw [stored] at hcopy
      by_cases hother : other = .inflight
      · rw [hother, Function.update_self] at hcopy
        obtain rfl := Option.some.inj hcopy
        exact hupdated.encoded
      · rw [Function.update_of_ne hother, halone other hother] at hcopy
        cases hcopy
    · rintro _ ⟨⟩
      exact hnamed
    · rintro _ ⟨⟩ -
      exact hupdated

lemma Sound.dropped {held : Option Item} (h : Sound name ledger ⟨v, held⟩) :
    Sound name ledger ⟨v, none⟩ where
  files := h.files
  named item hitem := by cases hitem
  held item hitem := by cases hitem

/-- Every step of an orderly run advances the ledger. -/
theorem Step.sound (hstep : Step name (Orderly name) s t) (hs : Sound name ledger s) :
    ∃ later, LedgerAdvances ledger later ∧ Sound name later t := by
  have hfail := undisturbed_fails name
  have hnone : ∀ {v : Store}, Agree name ledger v → Sound name ledger ⟨v, none⟩ :=
    fun hv => ⟨hv, by rintro _ ⟨⟩, by rintro _ ⟨⟩⟩
  cases hstep with
  | claimed now lease turns r run =>
    obtain ⟨hitem, hv⟩ := (meets_claim hs.files).of_run run
    refine ⟨ledger, .refl _, hv, ?_, ?_⟩
    · intro item hheld
      unfold Session.heldAfter at hheld
      split at hheld
      · split at hheld
        · cases hheld
          assumption
        · exact hs.named item hheld
      · exact hs.named item hheld
    · intro item hheld
      unfold Session.heldAfter at hheld
      split at hheld
      · split at hheld
        · cases hheld
          exact fun _ => hitem item rfl ‹_›
        · exact hs.held item hheld
      · exact hs.held item hheld
  | acted action turns r item' held allowed run =>
    exact sound_of_effect hs held allowed ((meets_action action (hs.named _ held)).of_run run)
  | recovered now turns r run =>
    exact ⟨ledger, .refl _, (meets_recoverExpired hs.files).of_run run, hs.named, hs.held⟩
  | cutClaim now lease turns run =>
    obtain ⟨turns, ⟨r, l⟩, run⟩ := Prog.exists_run_of_after hfail run
    exact ⟨ledger, .refl _, hnone ((meets_claim hs.files).of_run run).2⟩
  | cutAction action turns held allowed run =>
    obtain ⟨turns, ⟨r, item'⟩, run⟩ := Prog.exists_run_of_after hfail run
    have heffect := (meets_action action (hs.named _ held)).of_run run
    obtain ⟨later, hlater, hsound⟩ := sound_of_effect hs held allowed heffect
    exact ⟨later, hlater, hsound.dropped⟩
  | cutRecovery now turns run =>
    obtain ⟨turns, ⟨r, l⟩, run⟩ := Prog.exists_run_of_after hfail run
    exact ⟨ledger, .refl _, hnone ((meets_recoverExpired hs.files).of_run run)⟩
  | elsewhere same =>
    refine ⟨ledger, .refl _, ?_, hs.named, hs.held⟩
    intro directory envelope hcopy
    rw [same] at hcopy
    exact hs.files directory envelope hcopy
  | released => exact ⟨ledger, .refl _, hnone hs.files⟩

/-- Every orderly run advances the ledger. -/
theorem sound_of_run (hs : Sound name ledger s)
    (hrun : Relation.ReflTransGen (Step name (Orderly name)) s t) :
    ∃ later, LedgerAdvances ledger later ∧ Sound name later t := by
  induction hrun with
  | refl => exact ⟨ledger, .refl _, hs⟩
  | tail _ hstep ih =>
    obtain ⟨middle, hmiddle, hsound⟩ := ih
    obtain ⟨later, hlater, hlast⟩ := hstep.sound hsound
    exact ⟨later, hmiddle.trans hlater, hlast⟩

end Runs

end Faulty

end AgentBell.Queue
