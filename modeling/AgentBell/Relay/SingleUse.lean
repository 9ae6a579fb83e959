import AgentBell.Interleaving.NamedLock
import AgentBell.Relay.Pairing

/-!
# A consumed pairing code

`Commit` writes the consumed record to `inflight`, without a lease, and then moves it to `history`.
`Claim` looks at `history` and at the lease, and not at whether the record it finds was consumed: a
`Commit` that ends between its two steps leaves a code that can be claimed again.  When every
`Commit` makes both steps and the storage lock excludes, a code is not claimed again once its
consumed record was written.
-/

namespace AgentBell.Relay

open Interleaving Interleaving.NamedLock

variable {s t : PairingStore} {source destination : PairingDirectory}
  {file : PairingDirectory × String} {record : PairingRecord} {T : String → Prop}
  {old : List PairingClaim} {i : Nat}

/-! ## What commands do to the records -/

/-- The file a command writes, with its record. -/
def PairingCmd.written : PairingCmd → Option ((PairingDirectory × String) × PairingRecord)
  | .create id record => some ((.pending, id), record)
  | .write directory id record => some ((directory, id), record)
  | .writeClaim _ directory id record => some ((directory, id), record)
  | _ => none

/-- Everything a command can do to the records. -/
inductive RecordsEffect (s : PairingStore) : PairingCmd → PairingStore → Prop where
  | same (c : PairingCmd) (t : PairingStore) (records : t.records = s.records) :
      RecordsEffect s c t
  | put (c : PairingCmd) (t : PairingStore) (file : PairingDirectory × String)
      (record : PairingRecord) (written : c.written = some (file, record))
      (records : t.records = s.records.insert file record) : RecordsEffect s c t
  | moved (t : PairingStore) (source destination : PairingDirectory) (id : String)
      (record : PairingRecord) (found : s.records.lookup (source, id) = some record)
      (records : t.records = (s.records.erase (source, id)).insert (destination, id) record) :
      RecordsEffect s (.move source destination id) t

lemma moved_of_move {id : String} (h : s.move source destination id = some t) :
    RecordsEffect s (.move source destination id) t := by
  obtain ⟨record, hfound, rfl⟩ := Option.map_eq_some_iff.mp h
  exact .moved _ source destination id record hfound rfl

/-- A command has one of the listed effects on the records. -/
lemma recordsEffect_of_exec {x : PairingChoice} {c : PairingCmd} {r : PairingReply c}
    (h : pairingExec x c s = some (r, t)) : RecordsEffect s c t := by
  cases c with
  | clock | newCode | randomHex | lock | unlock | read | stat =>
    cases x <;> cases h <;> exact .same _ _ rfl
  | write directory id record =>
    cases x <;> cases h
    · exact .put _ _ _ _ rfl rfl
    · exact .same _ _ rfl
    · exact .put _ _ _ _ rfl rfl
  | writeClaim process directory id record =>
    cases x <;> cases h
    · exact .put _ _ _ _ rfl rfl
    · exact .same _ _ rfl
    · exact .put _ _ _ _ rfl rfl
  | create id record =>
    cases x with
    | works | failsAfter =>
      simp only [pairingExec] at h
      split at h <;> cases h
      · exact .same _ _ rfl
      · exact .put _ _ _ _ rfl rfl
    | failsBefore =>
      cases h
      exact .same _ _ rfl
    | time | text => cases h
  | move source destination id =>
    cases x with
    | works =>
      simp only [pairingExec] at h
      split at h <;> cases h
      · exact moved_of_move ‹_›
      · exact .same _ _ rfl
    | failsBefore =>
      cases h
      exact .same _ _ rfl
    | failsAfter =>
      cases h
      cases hmove : s.move source destination id with
      | none => exact .same _ _ rfl
      | some moved => exact moved_of_move hmove
    | time | text => cases h

/-! ## Consumed codes -/

/-- The records of a code that the storage lock protects: those in `inflight` and in `history`. -/
abbrev CodeView := Option PairingRecord × Option PairingRecord

/-- The protected records of a code. -/
def codeView (s : PairingStore) (id : String) : CodeView :=
  (s.records.lookup (.inflight, id), s.records.lookup (.history, id))

/-- No consumed record waits in `inflight`. -/
def CodeSettled (view : CodeView) : Prop := ∀ record, view.1 = some record → record.consumedAt = 0

/-- A consumed record of the code waits in `inflight`, or the code has a record in `history`. -/
def Spent (id : String) (s : PairingStore) : Prop :=
  (∃ record, s.records.lookup (.history, id) = some record) ∨
    ∃ record, s.records.lookup (.inflight, id) = some record ∧ record.consumedAt ≠ 0

/-- Every record is filed under its id, no record in `pending` was consumed, and every record in
`history` was. -/
structure Filed (s : PairingStore) : Prop where
  named : ∀ file record, s.records.lookup file = some record → record.id = file.2
  unused : ∀ id record, s.records.lookup (.pending, id) = some record → record.consumedAt = 0
  used : ∀ id record, s.records.lookup (.history, id) = some record → record.consumedAt ≠ 0

/-- When a command keeps the records filed and the spent codes spent. -/
def PairingCmd.Allowed (c : PairingCmd) (s : PairingStore) : Prop :=
  match c with
  | .create id record => record.id = id ∧ record.consumedAt = 0
  | .write directory id record =>
    record.id = id ∧ directory = .inflight ∧ CodeSettled (codeView s id)
  | .writeClaim _ directory id record =>
    record.id = id ∧ record.consumedAt = 0 ∧ directory ≠ .history ∧ CodeSettled (codeView s id)
  | .move source destination id =>
    source ≠ .history ∧ (destination ≠ .history ∧ CodeSettled (codeView s id) ∨
      source = .inflight ∧ destination = .history ∧
        ∀ record, (codeView s id).1 = some record → record.consumedAt ≠ 0)
  | _ => True

/-- A write that is allowed keeps the records filed. -/
lemma Filed.put {c : PairingCmd} (hs : Filed s) (hallowed : c.Allowed s)
    (hwritten : c.written = some (file, record)) (ht : t.records = s.records.insert file record) :
    Filed t := by
  have hrecord : record.id = file.2 ∧ (file.1 = .pending → record.consumedAt = 0) ∧
      file.1 ≠ .history := by
    cases c <;> cases hwritten
    · exact ⟨hallowed.1, fun _ => hallowed.2, nofun⟩
    · obtain ⟨hid, hinflight, -⟩ := hallowed
      simp [hid, hinflight]
    · exact ⟨hallowed.1, fun _ => hallowed.2.1, hallowed.2.2.1⟩
  refine ⟨fun other found hfound => ?_, fun id found hfound => ?_, fun id found hfound => ?_⟩
  · rw [ht] at hfound
    by_cases heq : other = file
    · rw [heq, AList.lookup_insert] at hfound
      obtain rfl := Option.some.inj hfound
      rw [heq]
      exact hrecord.1
    · rw [AList.lookup_insert_ne heq] at hfound
      exact hs.named other found hfound
  · rw [ht] at hfound
    by_cases heq : (PairingDirectory.pending, id) = file
    · rw [heq, AList.lookup_insert] at hfound
      obtain rfl := Option.some.inj hfound
      exact hrecord.2.1 (by rw [← heq])
    · rw [AList.lookup_insert_ne heq] at hfound
      exact hs.unused id found hfound
  · rw [ht, AList.lookup_insert_ne] at hfound
    · exact hs.used id found hfound
    · rintro rfl
      exact hrecord.2.2 rfl

/-- A write that is allowed keeps the spent codes spent. -/
lemma Spent.put {c : PairingCmd} {id : String} (hid : Spent id s) (hallowed : c.Allowed s)
    (hwritten : c.written = some (file, record)) (ht : t.records = s.records.insert file record) :
    Spent id t := by
  have hfile : file.1 ≠ .history ∧ (file.1 = .inflight → CodeSettled (codeView s file.2)) := by
    cases c <;> cases hwritten
    · exact ⟨nofun, nofun⟩
    · refine ⟨fun hhistory => ?_, fun _ => hallowed.2.2⟩
      rw [hallowed.2.1] at hhistory
      cases hhistory
    · exact ⟨hallowed.2.2.1, fun _ => hallowed.2.2.2⟩
  rcases hid with ⟨found, hfound⟩ | ⟨found, hfound, hconsumed⟩
  · refine .inl ⟨found, ?_⟩
    rw [ht, AList.lookup_insert_ne]
    · exact hfound
    · rintro rfl
      exact hfile.1 rfl
  · by_cases heq : (PairingDirectory.inflight, id) = file
    · subst heq
      exact absurd (hfile.2 rfl found hfound) hconsumed
    · exact .inr ⟨found, by rw [ht, AList.lookup_insert_ne heq]; exact hfound, hconsumed⟩

/-- The record at a file after a move. -/
lemma lookup_moved {id : String}
    (ht : t.records = (s.records.erase (source, id)).insert (destination, id) record)
    (file : PairingDirectory × String) :
    (file = (destination, id) ∧ t.records.lookup file = some record) ∨
      file = (source, id) ∧ t.records.lookup file = none ∨
      file ≠ (source, id) ∧ t.records.lookup file = s.records.lookup file := by
  by_cases hdestination : file = (destination, id)
  · exact .inl ⟨hdestination, by rw [ht, hdestination, AList.lookup_insert]⟩
  · right
    by_cases hsource : file = (source, id)
    · refine .inl ⟨hsource, ?_⟩
      rw [ht, AList.lookup_insert_ne hdestination, hsource, AList.lookup_erase]
    · refine .inr ⟨hsource, ?_⟩
      rw [ht, AList.lookup_insert_ne hdestination, AList.lookup_erase_ne hsource]

/-- A move that is allowed keeps the records filed. -/
lemma Filed.moved {id : String} (hs : Filed s)
    (hallowed : (PairingCmd.move source destination id).Allowed s)
    (hfound : s.records.lookup (source, id) = some record)
    (ht : t.records = (s.records.erase (source, id)).insert (destination, id) record) :
    Filed t := by
  refine ⟨fun file found hfile => ?_, fun other found hother => ?_, fun other found hother => ?_⟩
  · rcases lookup_moved ht file with ⟨rfl, hnew⟩ | ⟨-, hnone⟩ | ⟨-, hsame⟩
    · obtain rfl := Option.mem_unique hnew hfile
      have hnamed := hs.named (source, id) record hfound
      exact hnamed
    · rw [hnone] at hfile
      cases hfile
    · exact hs.named file found (hsame.symm.trans hfile)
  · rcases lookup_moved ht (.pending, other) with ⟨heq, hnew⟩ | ⟨-, hnone⟩ | ⟨-, hsame⟩
    · obtain rfl := Option.mem_unique hnew hother
      obtain ⟨rfl, rfl⟩ := Prod.mk.inj heq
      rcases hallowed.2 with ⟨-, hsettled⟩ | ⟨-, hhistory, -⟩
      · cases source with
        | pending => exact hs.unused other record hfound
        | inflight => exact hsettled record hfound
        | history => exact absurd rfl hallowed.1
      · cases hhistory
    · rw [hnone] at hother
      cases hother
    · exact hs.unused other found (hsame.symm.trans hother)
  · rcases lookup_moved ht (.history, other) with ⟨heq, hnew⟩ | ⟨-, hnone⟩ | ⟨-, hsame⟩
    · obtain rfl := Option.mem_unique hnew hother
      obtain ⟨rfl, rfl⟩ := Prod.mk.inj heq
      rcases hallowed.2 with ⟨hhistory, -⟩ | ⟨rfl, -, hconsumed⟩
      · exact absurd rfl hhistory
      · exact hconsumed record hfound
    · rw [hnone] at hother
      cases hother
    · exact hs.used other found (hsame.symm.trans hother)

/-- A move that is allowed keeps the spent codes spent. -/
lemma Spent.moved {id other : String} (hother : Spent other s)
    (hallowed : (PairingCmd.move source destination id).Allowed s)
    (ht : t.records = (s.records.erase (source, id)).insert (destination, id) record) :
    Spent other t := by
  rcases lookup_moved ht (.history, other) with ⟨-, hnew⟩ | ⟨heq, -⟩ | ⟨-, hsame⟩
  · exact .inl ⟨record, hnew⟩
  · obtain ⟨rfl, -⟩ := Prod.mk.inj heq
    exact absurd rfl hallowed.1
  · rcases hother with ⟨found, hfound⟩ | ⟨found, hfound, hconsumed⟩
    · exact .inl ⟨found, hsame.trans hfound⟩
    · by_cases hid : other = id
      · subst hid
        rcases hallowed.2 with ⟨-, hsettled⟩ | ⟨-, rfl, -⟩
        · exact absurd (hsettled found hfound) hconsumed
        · exact .inl ⟨record, by rw [ht, AList.lookup_insert]⟩
      · refine .inr ⟨found, ?_, hconsumed⟩
        rw [ht, AList.lookup_insert_ne, AList.lookup_erase_ne]
        · exact hfound
        · exact fun heq => hid (Prod.mk.inj heq).2
        · exact fun heq => hid (Prod.mk.inj heq).2

/-! ## The storage lock -/

/-- The lock a command took. -/
def takenLock : (c : PairingCmd) → PairingReply c → Option String
  | .lock id, taken => if taken then some id else none
  | _, _ => none

/-- The lock a command gives back. -/
def droppedLock : PairingCmd → Option String
  | .unlock id => some id
  | _ => none

/-- The codes whose protected records a command may change. -/
def PairingCmd.Touches (c : PairingCmd) (id : String) : Prop :=
  match c with
  | .write _ name _ | .writeClaim _ _ name _ | .move _ _ name => name = id
  | _ => False

/-- How the pairing store uses its locks. -/
def pairingLocking : Locking PairingCmd PairingReply PairingStore String CodeView where
  takes := takenLock
  drops := droppedLock
  touches := PairingCmd.Touches
  view := codeView
  settled := CodeSettled
  allowed := PairingCmd.Allowed
  step := fun s t => (Filed s → Filed t) ∧ ∀ id, Spent id s → Spent id t

lemma pairingLocking_lawful : pairingLocking.Lawful pairingMachine where
  refl := fun _ => ⟨fun h => h, fun _ h => h⟩
  trans := fun _ _ _ hst htu => ⟨fun h => htu.1 (hst.1 h), fun id h => htu.2 id (hst.2 id h)⟩
  plain := by
    intro c id h
    cases c with
    | write | writeClaim | move => exact ⟨rfl, fun _ => rfl⟩
    | clock | newCode | randomHex | lock | unlock | read | stat | create => exact h.elim
  untouched := by
    intro x c s r t id hexec htouches
    show codeView t id = codeView s id
    unfold codeView
    cases recordsEffect_of_exec hexec with
    | same _ _ records => rw [records]
    | put _ _ file record written records =>
      have hfile : (PairingDirectory.inflight, id) ≠ file ∧ (.history, id) ≠ file := by
        cases c <;> cases written
        · exact ⟨nofun, nofun⟩
        · exact ⟨fun heq => htouches (Prod.mk.inj heq).2.symm,
            fun heq => htouches (Prod.mk.inj heq).2.symm⟩
        · exact ⟨fun heq => htouches (Prod.mk.inj heq).2.symm,
            fun heq => htouches (Prod.mk.inj heq).2.symm⟩
      rw [records, AList.lookup_insert_ne hfile.1, AList.lookup_insert_ne hfile.2]
    | moved _ source destination name record found records =>
      have hother : ∀ directory directory', ((directory, id) : PairingDirectory × String) ≠
          (directory', name) := fun _ _ heq => htouches (Prod.mk.inj heq).2.symm
      rw [records, AList.lookup_insert_ne (hother _ _), AList.lookup_erase_ne (hother _ _),
        AList.lookup_insert_ne (hother _ _), AList.lookup_erase_ne (hother _ _)]
  steps := by
    intro x c s r t hallowed hexec
    cases recordsEffect_of_exec hexec with
    | same _ _ records =>
      refine ⟨fun hs => ⟨?_, ?_, ?_⟩, fun id hid => ?_⟩
      · rw [records]
        exact hs.named
      · rw [records]
        exact hs.unused
      · rw [records]
        exact hs.used
      · unfold Spent
        rw [records]
        exact hid
    | put _ _ file record written records =>
      exact ⟨fun hs => hs.put hallowed written records,
        fun _ hid => hid.put hallowed written records⟩
    | moved _ source destination id record found records =>
      exact ⟨fun hs => hs.moved hallowed found records,
        fun _ hother => hother.moved hallowed records⟩

/-- A `Commit` makes both of its steps: the write of a consumed record does not fail after it took
effect, and its move does not fail before. -/
def Completes (x : PairingChoice) (c : PairingCmd) (_ : PairingStore) : Prop :=
  match c with
  | .write _ _ record => record.consumedAt ≠ 0 → x ≠ .failsAfter
  | .move .inflight .history _ => x ≠ .failsBefore
  | _ => True

/-! ## The operations under the lock -/

section Operations

variable {i : Nat} {T : String → Prop} {id : String} {v : CodeView}
  {s u : Held PairingStore String} {t w : PairingStore} {α : Type} {post : α → Prop}
  {record : PairingRecord} {x : PairingChoice} {c : PairingCmd}

/-- A program of process `i` in an orderly run. -/
abbrev PairingRuns (i : Nat) {α : Type} (post : α → Held PairingStore String → Prop)
    (p : PairingProg α) (s : Held PairingStore String) : Prop :=
  Runs pairingMachine pairingLocking Completes i post p s

/-- The records are filed, and the codes in `T` are spent. -/
structure Facts (T : String → Prop) (s : PairingStore) : Prop where
  filed : Filed s
  spent : ∀ id, T id → Spent id s

lemma facts_stable : pairingLocking.Stable (Facts T) :=
  fun _ _ h hst => ⟨hst.1 h.filed, fun id hid => hst.2 id (h.spent id hid)⟩

/-- Process `i` holds the lock of a code with certain records. -/
abbrev HasView (i : Nat) (id : String) (v : CodeView) (s : Held PairingStore String) : Prop :=
  Holding pairingLocking i id (fun w => w = v) s

/-- Process `i` holds the lock of a code that is settled. -/
abbrev HasSettled (i : Nat) (id : String) (s : Held PairingStore String) : Prop :=
  Holding pairingLocking i id CodeSettled s

lemma HasView.settled (h : HasView i id v s) (hv : CodeSettled v) : HasSettled i id s :=
  ⟨h.holder, by rw [h.view]; exact hv⟩

lemma HasSettled.hasView (h : HasSettled i id s) : HasView i id (codeView s.store id) s :=
  ⟨h.holder, rfl⟩

/-- What a read under the lock says. -/
def Shows (v : CodeView) (id : String) (o : Option PairingRecord) : PairingDirectory → Prop
  | .inflight => o = v.1
  | .history => o = v.2
  | .pending => ∀ record, o = some record → record.id = id ∧ record.consumedAt = 0

lemma shows_lookup (hfiled : Filed t) (hv : codeView t id = v) (directory : PairingDirectory) :
    Shows v id (t.records.lookup (directory, id)) directory := by
  cases directory with
  | inflight => exact congrArg Prod.fst hv
  | history => exact congrArg Prod.snd hv
  | pending => exact fun record h => ⟨hfiled.named _ record h, hfiled.unused id record h⟩

lemma runs_readPairing (hs : Facts T s.store) (hold : HasView i id v s)
    (directory : PairingDirectory) :
    PairingRuns i (fun r u => (Facts T u.store ∧ HasView i id v u) ∧
      ∀ o, r = .ok o → Shows v id o directory) (readPairing directory id) s := by
  refine runs_inside pairingLocking_lawful facts_stable hs hold (fun _ => rfl) rfl
    (fun _ h => h.elim) (fun _ _ _ => trivial) fun x r t w ht hv _ hexec u hu hFu hholder => ?_
  have hreturn : ∀ {a : Except PairingError (Option PairingRecord)},
      (∀ o, a = .ok o → Shows v id o directory) →
      PairingRuns i (fun r u => (Facts T u.store ∧ HasView i id v u) ∧
        ∀ o, r = .ok o → Shows v id o directory) (.ret a) u := by
    intro a ha
    refine runs_ret fun t' ht' => ⟨⟨facts_stable _ _ hFu ht'.step, ?_⟩, ha⟩
    have hview : codeView u.store id = v := by
      rw [hu, ← hv]
      cases x <;> cases hexec <;> rfl
    exact Holding.stable ⟨hholder, hview⟩ ht'
  cases x with
  | works =>
    cases hexec
    have hshows := shows_lookup ht.filed hv directory
    cases hlookup : t.records.lookup (directory, id) with
    | none =>
      rw [hlookup] at hshows
      exact hreturn fun o ho => by cases ho; exact hshows
    | some record =>
      rw [hlookup] at hshows
      simp only [Prog.ret_bind]
      split
      · exact hreturn nofun
      · exact hreturn fun o ho => by cases ho; exact hshows
  | failsBefore =>
    cases hexec
    exact hreturn nofun
  | failsAfter | time | text => cases hexec

/-- A value is returned under the lock. -/
lemma runs_return_inside {a : α} {φ : CodeView → Prop} (hs : Facts T s.store)
    (hold : Holding pairingLocking i id φ s) (h : post a) :
    PairingRuns i (fun a u => (Facts T u.store ∧ Holding pairingLocking i id φ u) ∧ post a)
      (.ret a) s :=
  runs_ret fun _ ht => ⟨⟨facts_stable _ _ hs ht.step, hold.stable ht⟩, h⟩

lemma HasView.named (h : HasView i id v s) (hfiled : Filed s.store) (hrecord : v.1 = some record) :
    record.id = id := by
  have hlookup : s.store.records.lookup (.inflight, id) = v.1 := congrArg Prod.fst h.view
  have hnamed := hfiled.named (.inflight, id) record (hlookup.trans hrecord)
  exact hnamed

lemma runs_claimableRecord (hs : Facts T s.store) (hold : HasView i id v s)
    (hv : CodeSettled v) (codeHash : String) (now : Time) :
    PairingRuns i (fun r u => (Facts T u.store ∧ HasView i id v u) ∧
      ∀ record, r = .ok record → record.id = id ∧ record.consumedAt = 0)
      (claimableRecord codeHash id now) s := by
  refine Runs.bind pairingLocking_lawful (runs_readPairing hs hold .inflight) ?_
  rintro (err | _ | record) u ⟨⟨hu, hview⟩, hshows⟩
  · exact runs_return_inside hu hview nofun
  · refine Runs.bind pairingLocking_lawful (runs_readPairing hu hview .pending) ?_
    rintro (err | _ | record) w ⟨⟨hw, hview'⟩, hshows'⟩
    · exact runs_return_inside hw hview' nofun
    · exact runs_return_inside hw hview' nofun
    · dsimp only
      split
      · exact runs_return_inside hw hview' nofun
      · refine runs_return_inside hw hview' ?_
        rintro _ ⟨⟩
        exact hshows' _ rfl record rfl
  · have hrecord : v.1 = some record := (hshows _ rfl).symm
    dsimp only
    split
    · exact runs_return_inside hu hview nofun
    split
    · exact runs_return_inside hu hview nofun
    · refine runs_return_inside hu hview ?_
      rintro _ ⟨⟩
      exact ⟨hview.named hu.filed hrecord, hv record hrecord⟩

/-- A command that writes no file keeps a code settled. -/
lemma settled_of_records (h : CodeSettled (codeView t id)) (hrecords : w.records = t.records) :
    CodeSettled (codeView w id) := by
  unfold codeView
  rw [hrecords]
  exact h

/-- A record that was not consumed keeps a code settled. -/
lemma settled_put {directory : PairingDirectory} (h : CodeSettled (codeView t id))
    (hrecord : record.consumedAt = 0)
    (hrecords : w.records = t.records.insert (directory, id) record) :
    CodeSettled (codeView w id) := by
  intro found hfound
  simp only [codeView, hrecords] at hfound
  by_cases heq : PairingDirectory.inflight = directory
  · rw [heq, AList.lookup_insert] at hfound
    obtain rfl := Option.some.inj hfound
    exact hrecord
  · rw [AList.lookup_insert_ne fun hpair => heq (Prod.mk.inj hpair).1] at hfound
    exact h found hfound

/-- A move keeps a code settled, except out of `history`. -/
lemma settled_moved (ht : Filed t) (h : CodeSettled (codeView t id)) (hsource : source ≠ .history)
    (hfound : t.records.lookup (source, id) = some record)
    (hrecords : w.records = (t.records.erase (source, id)).insert (destination, id) record) :
    CodeSettled (codeView w id) := by
  intro found hinflight
  rcases lookup_moved hrecords (.inflight, id) with ⟨-, hnew⟩ | ⟨-, hnone⟩ | ⟨-, hsame⟩
  · obtain rfl := Option.mem_unique hnew hinflight
    cases source with
    | pending => exact ht.unused id record hfound
    | inflight => exact h record hfound
    | history => exact absurd rfl hsource
  · cases hnone.symm.trans hinflight
  · exact h found (hsame.symm.trans hinflight)

/-- A command on the records of a code that writes no consumed record. -/
def PairingCmd.Mild (c : PairingCmd) (id : String) : Prop :=
  match c with
  | .create _ _ => False
  | .write _ name record | .writeClaim _ _ name record => name = id ∧ record.consumedAt = 0
  | .move source _ name => name = id ∧ source ≠ .history
  | _ => True

/-- A mild command keeps its code settled. -/
lemma settled_of_exec {r : PairingReply c} (ht : Facts T t) (h : CodeSettled (codeView t id))
    (hmild : c.Mild id) (hexec : pairingExec x c t = some (r, w)) :
    CodeSettled (codeView w id) := by
  cases recordsEffect_of_exec hexec with
  | same _ _ records => exact settled_of_records h records
  | put _ _ file record written records =>
    cases c <;> cases written
    · exact hmild.elim
    · obtain ⟨rfl, hrecord⟩ := hmild
      exact settled_put h hrecord records
    · obtain ⟨rfl, hrecord⟩ := hmild
      exact settled_put h hrecord records
  | moved _ source destination name record found records =>
    obtain ⟨rfl, hsource⟩ := hmild
    exact settled_moved ht.filed h hsource found records

/-- A mild command under the lock of a settled code. -/
lemma runs_settled {post : α → Held PairingStore String → Prop}
    {next : PairingReply c → PairingProg α} (hs : Facts T s.store) (hold : HasSettled i id s)
    (htakes : ∀ r, takenLock c r = none) (hdrops : droppedLock c = none)
    (htouches : ∀ name, c.Touches name → name = id)
    (hallowed : ∀ t, CodeSettled (codeView t id) → c.Allowed t) (hmild : c.Mild id)
    (hnext : ∀ r u, Facts T u.store → HasSettled i id u → PairingRuns i post (next r) u) :
    PairingRuns i post (.cmd c next) s := by
  refine runs_inside pairingLocking_lawful facts_stable hs hold htakes hdrops htouches
    (fun t _ hsettled => hallowed t hsettled) ?_
  rintro x r t w ht hsettled - hexec u rfl hu hholder
  exact hnext r u hu ⟨hholder, settled_of_exec ht hsettled hmild hexec⟩

lemma runs_writeClaim (hs : Facts T s.store) (hold : HasSettled i id s)
    (hrecord : record.id = id ∧ record.consumedAt = 0) (process : Nat) :
    PairingRuns i (fun r u => (Facts T u.store ∧ HasSettled i id u) ∧
      ∀ claim, r = .ok claim → claim.record = record) (writeClaim process id record) s := by
  refine runs_settled hs hold (fun _ => rfl) rfl (fun _ h => h.elim) (fun _ _ => trivial)
    trivial fun present u hu hold => ?_
  have hsource : (if present = true then PairingDirectory.inflight else .pending) ≠ .history := by
    split <;> nofun
  refine runs_settled hu hold (fun _ => rfl) rfl (fun _ h => h.symm)
    (fun t h => ⟨hrecord.1, hrecord.2, hsource, h⟩) ⟨rfl, hrecord.2⟩ fun written u hu hold => ?_
  show PairingRuns i _ (if written = true then _ else _) u
  split
  · split
    · refine runs_return_inside hu hold ?_
      rintro _ ⟨⟩
      rfl
    · refine runs_settled hu hold (fun _ => rfl) rfl (fun _ h => h.symm)
        (fun t h => ⟨nofun, .inl ⟨nofun, h⟩⟩) ⟨rfl, nofun⟩ fun moved u hu hold => ?_
      show PairingRuns i _ (if moved = true then _ else _) u
      split
      · refine runs_return_inside hu hold ?_
        rintro _ ⟨⟩
        rfl
      · exact runs_return_inside hu hold nofun
  · exact runs_return_inside hu hold nofun

/-- A code that is spent and settled has a record in `history`. -/
lemma HasView.history (h : HasView i id v s) (hv : CodeSettled v) (hspent : Spent id s.store) :
    ∃ record, v.2 = some record := by
  rcases hspent with ⟨record, hrecord⟩ | ⟨record, hrecord, hconsumed⟩
  · exact ⟨record, (congrArg Prod.snd h.view).symm.trans hrecord⟩
  · exact absurd (hv record ((congrArg Prod.fst h.view).symm.trans hrecord)) hconsumed

lemma runs_claimLocked (hs : Facts T s.store) (hold : HasSettled i id s) (codeHash : String)
    (now : Time) (lease : Duration) :
    PairingRuns i (fun r u => (Facts T u.store ∧ HasSettled i id u) ∧
      ∀ claim, r = .ok claim → claim.record.id = id ∧ ¬ T id)
      (claimLocked i codeHash id now lease) s := by
  obtain ⟨v, hv, hview⟩ : ∃ v, CodeSettled v ∧ HasView i id v s :=
    ⟨codeView s.store id, hold.view, HasSettled.hasView hold⟩
  have hunspent : v.2 = none → ¬ T id := by
    intro hnone hid
    obtain ⟨record, hrecord⟩ := hview.history hv (hs.spent id hid)
    rw [hnone] at hrecord
    cases hrecord
  refine Runs.bind pairingLocking_lawful (runs_readPairing hs hview .history) ?_
  rintro (err | _ | record) u ⟨⟨hu, hview'⟩, hshows⟩
  · exact runs_return_inside hu (hview'.settled hv) nofun
  · have hnone : v.2 = none := (hshows _ rfl).symm
    refine Runs.bind pairingLocking_lawful (runs_claimableRecord hu hview' hv codeHash now) ?_
    rintro (err | record) w ⟨⟨hw, hview''⟩, hrecord⟩
    · exact runs_return_inside hw (hview''.settled hv) nofun
    · dsimp only
      split
      · exact runs_return_inside hw (hview''.settled hv) nofun
      · refine runs_settled hw (hview''.settled hv) (fun _ => rfl) rfl (fun _ h => h.elim)
          (fun _ _ => trivial) trivial fun claimID y hy hold' => ?_
        have hclaimed : PairingRecord.id { record with claimID, leaseUntil := now + lease } = id ∧
            PairingRecord.consumedAt { record with claimID, leaseUntil := now + lease } = 0 :=
          hrecord record rfl
        refine Runs.weaken (runs_writeClaim hy hold' hclaimed i) ?_
        rintro r z ⟨hz, hclaim⟩
        refine ⟨hz, fun claim hok => ⟨?_, hunspent hnone⟩⟩
        rw [hclaim claim hok]
        exact (hrecord _ rfl).1
  · exact runs_return_inside hu (hview'.settled hv) nofun

/-- Work under the storage lock of a code. -/
lemma runs_locked {β : Type} {work : PairingProg α} {next : α → PairingProg β}
    {failed : PairingProg β} {post' : β → Held PairingStore String → Prop} (hs : Facts T s.store)
    (hwork : ∀ u, Facts T u.store → HasSettled i id u →
      PairingRuns i (fun r u => (Facts T u.store ∧ HasSettled i id u) ∧ post r) work u)
    (hnext : ∀ a u, post a → Facts T u.store → PairingRuns i post' (next a) u)
    (hfailed : ∀ u, Facts T u.store → PairingRuns i post' failed u) : PairingRuns i post' (do
      if ← onPairing (.lock id) then
        let result ← work
        onPairing (.unlock id)
        next result
      else failed) s := by
  refine runs_take pairingLocking_lawful facts_stable hs (n := id) ?_ rfl (fun _ h => h)
    (fun _ _ => trivial) ?_ ?_
  · intro taken
    cases taken with
    | true => exact .inr rfl
    | false => exact .inl rfl
  · intro taken u htaken hu hold
    cases taken with
    | false => cases htaken
    | true =>
      show PairingRuns i post'
        (work.bind fun result => (onPairing (.unlock id)).bind fun _ => next result) u
      refine Runs.bind pairingLocking_lawful (hwork u hu hold) ?_
      rintro result w ⟨⟨hw, hold'⟩, hpost⟩
      exact runs_drop pairingLocking_lawful facts_stable hw hold' rfl (fun _ h => h)
        (fun _ _ => trivial) fun _ y hy => hnext result y hpost hy
  · intro taken u htaken hu
    cases taken with
    | true => cases htaken
    | false => exact hfailed u hu

/-- A claim that works is not one of a spent code. -/
lemma runs_claim (hs : Facts T s.store) (P : Primitives) (code : String) (now : Time)
    (lease : Duration) :
    PairingRuns i (fun r u => Facts T u.store ∧ ∀ claim, r = .ok claim → ¬ T claim.record.id)
      (claim P i code now lease) s := by
  unfold claim
  split
  · exact runs_return facts_stable hs nofun
  split
  · exact runs_return facts_stable hs nofun
  split
  · exact runs_return facts_stable hs nofun
  · rename_i codeHash id _
    refine runs_locked hs (fun u hu hold => runs_claimLocked hu hold codeHash now lease) ?_ ?_
    · intro result u hresult hu
      refine runs_return facts_stable hu fun claim hok => ?_
      obtain ⟨hid, hunspent⟩ := hresult claim hok
      rwa [hid]
    · exact fun u hu => runs_return facts_stable hu nofun

lemma runs_claimedRecord (claim : PairingClaim) (hs : Facts T s.store)
    (hold : HasView i claim.record.id v s) :
    PairingRuns i (fun r u => (Facts T u.store ∧ HasView i claim.record.id v u) ∧
      ∀ record, r = .ok record → v.1 = some record) (claimedRecord claim) s := by
  refine Runs.bind pairingLocking_lawful (runs_readPairing hs hold .inflight) ?_
  rintro (err | _ | record) u ⟨⟨hu, hview⟩, hshows⟩
  · exact runs_return_inside hu hview nofun
  · refine Runs.bind pairingLocking_lawful (runs_readPairing hu hview .history) ?_
    rintro (err | _ | record) w ⟨⟨hw, hview'⟩, -⟩
    · exact runs_return_inside hw hview' nofun
    · exact runs_return_inside hw hview' nofun
    · exact runs_return_inside hw hview' nofun
  · dsimp only
    split
    · exact runs_return_inside hu hview nofun
    · refine runs_return_inside hu hview ?_
      rintro _ ⟨⟩
      exact (hshows _ rfl).symm

/-- A record that was not consumed is written and moved back. -/
lemma runs_finishClaim_pending (hs : Facts T s.store) (hold : HasSettled i id s)
    (hid : record.id = id) (hrecord : record.consumedAt = 0) :
    PairingRuns i (fun _ u => (Facts T u.store ∧ HasSettled i id u) ∧ True)
      (finishClaim record .pending) s := by
  subst hid
  refine runs_settled hs hold (fun _ => rfl) rfl (fun _ h => h.symm) (fun _ h => ⟨rfl, rfl, h⟩)
    ⟨rfl, hrecord⟩ fun written u hu hold => ?_
  cases written with
  | false => exact runs_return_inside hu hold trivial
  | true =>
    refine runs_settled hu hold (fun _ => rfl) rfl (fun _ h => h.symm)
      (fun _ h => ⟨nofun, .inl ⟨nofun, h⟩⟩) ⟨rfl, nofun⟩ fun moved u hu hold => ?_
    cases moved <;> exact runs_return_inside hu hold trivial

/-- After the move of the record in `inflight` to `history` the code is settled. -/
lemma settled_of_move {r : Bool} (hrecord : t.records.lookup (.inflight, id) = some record)
    (hx : x ≠ .failsBefore) (hexec : pairingExec x (.move .inflight .history id) t = some (r, w)) :
    CodeSettled (codeView w id) := by
  have hw : ∀ moved, t.move .inflight .history id = some moved →
      CodeSettled (codeView moved id) := by
    intro moved hmoved found hfound
    obtain ⟨_, -, rfl⟩ := Option.map_eq_some_iff.mp hmoved
    have hne : ((.inflight, id) : PairingDirectory × String) ≠ (.history, id) := by rintro ⟨⟩
    simp only [codeView] at hfound
    rw [AList.lookup_insert_ne hne, AList.lookup_erase] at hfound
    cases hfound
  obtain ⟨moved, hmoved⟩ : ∃ moved, t.move .inflight .history id = some moved :=
    ⟨_, by rw [PairingStore.move, hrecord]; rfl⟩
  cases x with
  | works =>
    simp only [pairingExec, hmoved] at hexec
    cases hexec
    exact hw _ hmoved
  | failsAfter =>
    simp only [pairingExec, hmoved] at hexec
    cases hexec
    exact hw _ hmoved
  | failsBefore => exact absurd rfl hx
  | time | text => cases hexec

/-- A consumed record is written and moved to `history`. -/
lemma runs_finishClaim_history (hs : Facts T s.store) (hold : HasSettled i id s)
    (hid : record.id = id) (hrecord : record.consumedAt ≠ 0) :
    PairingRuns i (fun _ u => (Facts T u.store ∧ HasSettled i id u) ∧ True)
      (finishClaim record .history) s := by
  subst hid
  refine runs_inside pairingLocking_lawful facts_stable hs hold (fun _ => rfl) rfl
    (fun _ h => h.symm) (fun _ _ h => ⟨rfl, rfl, h⟩) ?_
  rintro x written t w ht hsettled hg hexec u hstore hu hholder
  cases x with
  | failsAfter => exact absurd rfl (hg hrecord)
  | failsBefore =>
    cases hexec
    exact runs_return_inside hu ⟨hholder, by rw [hstore]; exact hsettled⟩ trivial
  | time | text => cases hexec
  | works =>
    -- the consumed record waits in `inflight` until it is moved
    cases hexec
    have hinflight : (codeView u.store record.id).1 = some record := by
      rw [hstore]
      exact AList.lookup_insert _
    have hwaits : Holding pairingLocking i record.id (fun v => v.1 = some record) u :=
      ⟨hholder, hinflight⟩
    refine runs_inside pairingLocking_lawful facts_stable hu hwaits (fun _ => rfl) rfl
      (fun _ h => h.symm) (fun _ _ h => ⟨nofun, .inr ⟨rfl, rfl, ?_⟩⟩) ?_
    · intro waiting hwaiting
      rwa [Option.mem_unique hwaiting h]
    rintro y moved t' w' - hwaiting hg' hexec' u' rfl hu' hholder'
    have hsettled' := settled_of_move hwaiting hg' hexec'
    cases moved <;> exact runs_return_inside hu' ⟨hholder', hsettled'⟩ trivial

/-- Work on the record of a claim. -/
lemma runs_withClaim (hs : Facts T s.store) (claim : PairingClaim)
    {work : PairingRecord → PairingProg (Except PairingError Unit)}
    (hwork : ∀ record u, Facts T u.store → HasSettled i claim.record.id u →
      record.id = claim.record.id → record.consumedAt = 0 →
      PairingRuns i (fun _ u => (Facts T u.store ∧ HasSettled i claim.record.id u) ∧ True)
        (work record) u) :
    PairingRuns i (fun _ u => Facts T u.store ∧ True) (withClaim claim work) s := by
  unfold withClaim
  split
  · exact runs_return facts_stable hs trivial
  refine runs_take pairingLocking_lawful facts_stable hs (n := claim.record.id) ?_ rfl
    (fun _ h => h) (fun _ _ => trivial) ?_ ?_
  · intro taken
    cases taken with
    | true => exact .inr rfl
    | false => exact .inl rfl
  · intro taken u htaken hu hold
    have hunlock : ∀ {w} {result : Except PairingError Unit}, Facts T w.store →
        HasSettled i claim.record.id w →
        PairingRuns i (fun _ u => Facts T u.store ∧ True)
          ((onPairing (.unlock claim.record.id)).bind fun _ => .ret result) w :=
      fun hw hold' => runs_drop pairingLocking_lawful facts_stable hw hold' rfl (fun _ h => h)
        (fun _ _ => trivial) fun _ y hy => runs_return facts_stable hy trivial
    cases taken with
    | false => cases htaken
    | true =>
      obtain ⟨v, hv, hview⟩ : ∃ v, CodeSettled v ∧ HasView i claim.record.id v u :=
        ⟨_, hold.view, HasSettled.hasView hold⟩
      show PairingRuns i _ ((claimedRecord claim).bind _) u
      refine Runs.bind pairingLocking_lawful (runs_claimedRecord claim hu hview) ?_
      rintro (err | record) w ⟨⟨hw, hview'⟩, hrecord⟩
      · exact hunlock hw (hview'.settled hv)
      · have hfound := hrecord record rfl
        refine Runs.bind pairingLocking_lawful (hwork record w hw (hview'.settled hv)
          (hview'.named hw.filed hfound) (hv record hfound)) ?_
        rintro result y ⟨⟨hy, hold'⟩, -⟩
        exact hunlock hy hold'
  · intro taken u htaken hu
    cases taken with
    | true => cases htaken
    | false => exact runs_return facts_stable hu trivial

lemma runs_release (hs : Facts T s.store) (claim : PairingClaim) (now : Time) :
    PairingRuns i (fun _ u => Facts T u.store ∧ True) (release claim now) s := by
  unfold release
  split
  · exact runs_return facts_stable hs trivial
  · refine runs_withClaim hs claim fun record u hu hold hid hunused => ?_
    exact runs_finishClaim_pending hu hold hid hunused

lemma runs_commit (hs : Facts T s.store) (claim : PairingClaim) (peerID : String) (now : Time) :
    PairingRuns i (fun _ u => Facts T u.store ∧ True) (commit claim peerID now) s := by
  unfold commit
  split
  · exact runs_return facts_stable hs trivial
  rename_i hnow
  split
  · exact runs_return facts_stable hs trivial
  · refine runs_withClaim hs claim fun record u hu hold hid _ => ?_
    split
    · exact runs_return_inside hu hold trivial
    · refine runs_finishClaim_history hu hold hid ?_
      simpa [Time.isZero] using hnow

lemma runs_create (hs : Facts T s.store) (P : Primitives) (policy : PairingPolicy)
    (ttl : Duration) (now : Time) :
    PairingRuns i (fun _ u => Facts T u.store ∧ True) (create P policy ttl now) s := by
  have hrecord : ∀ tries u, Facts T u.store → PairingRuns i (fun _ u => Facts T u.store ∧ True)
        (createRecord P policy ttl now tries) u := by
    intro tries
    induction tries with
    | zero => exact fun u hu => runs_return facts_stable hu trivial
    | succ tries ih =>
      intro u hu
      refine runs_outside pairingLocking_lawful facts_stable hu rfl (fun _ h => h)
        (fun _ _ => trivial) fun _ code _ _ _ _ w hw => ?_
      simp only [Prog.ret_bind]
      split
      · exact runs_return facts_stable hw trivial
      · refine runs_outside pairingLocking_lawful facts_stable hw rfl (fun _ h => h)
          (fun _ _ => ⟨rfl, rfl⟩) fun _ result _ _ _ _ y hy => ?_
        cases result with
        | created => exact runs_return facts_stable hy trivial
        | «exists» => exact ih y hy
        | failed => exact runs_return facts_stable hy trivial
  unfold create
  split
  · exact runs_return facts_stable hs trivial
  split
  · exact runs_return facts_stable hs trivial
  split
  · exact runs_return facts_stable hs trivial
  · exact hrecord 8 s hs

end Operations

/-! ## Processes that use the pairing store -/

/-- A call of a process, with everything it is given. -/
inductive PairingCall where
  | create (policy : PairingPolicy) (ttl : Duration) (now : Time)
  | claim (code : String) (now : Time) (lease : Duration)
  | release (claim : PairingClaim) (now : Time)
  | commit (claim : PairingClaim) (peerID : String) (now : Time)

/-- What a process remembers: the claims it made. -/
structure PairingMemory where
  wins : List PairingClaim := []

/-- The program of a call. -/
def pairingBody (P : Primitives) (i : Nat) :
    PairingCall → PairingMemory → PairingProg PairingMemory
  | .create policy ttl now, m => do
    let _ ← create P policy ttl now
    return m
  | .claim code now lease, m => do
    match ← claim P i code now lease with
    | .ok won => return ⟨won :: m.wins⟩
    | .error _ => return m
  | .release claim now, m => do
    let _ ← release claim now
    return m
  | .commit claim peerID now, m => do
    let _ ← commit claim peerID now
    return m

/-- Processes that use one pairing store. -/
def pairingProcesses (P : Primitives) :=
  protocol pairingMachine pairingLocking (fun _ _ _ => true) (pairingBody P) {}

/-- A configuration of the processes. -/
abbrev PairingWorld := World PairingCmd PairingReply PairingStore String PairingCall PairingMemory

/-- Any number of processes and an empty store. -/
def pairingStart : PairingWorld where
  store := ⟨{}, fun _ => none⟩
  procs := fun _ => some (.idle {})

/-- What a process knows while it rests: the codes in `T` are spent, and its claims of them are old
ones. -/
def RestsWith (T : String → Prop) (old : List PairingClaim) (m : PairingMemory)
    (s : Held PairingStore String) : Prop :=
  Facts T s.store ∧ ∀ won ∈ m.wins, T won.record.id → won ∈ old

lemma restsWith_stable (m : PairingMemory) (s t : Held PairingStore String)
    (h : RestsWith T old m s) (ht : Tolerates pairingLocking i s t) : RestsWith T old m t :=
  ⟨facts_stable _ _ h.1 ht.step, h.2⟩

variable {m : PairingMemory}

/-- Every call keeps what its process knows. -/
lemma runs_pairingBody {s : Held PairingStore String} (P : Primitives) (k : PairingCall)
    (h : RestsWith T old m s) : PairingRuns i (RestsWith T old) (pairingBody P i k m) s := by
  have hreturn : ∀ {α : Type} {p : PairingProg α},
      PairingRuns i (fun _ u => Facts T u.store ∧ True) p s →
      PairingRuns i (RestsWith T old) (p.bind fun _ => .ret m) s := by
    intro α p hp
    refine Runs.bind pairingLocking_lawful hp fun _ u hu => ?_
    exact runs_return facts_stable hu.1 h.2
  cases k with
  | create policy ttl now => exact hreturn (runs_create h.1 P policy ttl now)
  | release claim now => exact hreturn (runs_release h.1 claim now)
  | commit claim peerID now => exact hreturn (runs_commit h.1 claim peerID now)
  | claim code now lease =>
    refine Runs.bind pairingLocking_lawful (runs_claim h.1 P code now lease) ?_
    rintro (err | won) u ⟨hu, hnew⟩
    · exact runs_return facts_stable hu h.2
    · refine runs_return facts_stable hu ?_
      intro other hother hspent
      rcases List.mem_cons.mp hother with rfl | hold
      · exact absurd hspent (hnew other rfl)
      · exact h.2 other hold hspent

/-- The spent codes a process knows of, with its claims of them: a process that rested when the
codes were spent knows them. -/
def known (T : String → Prop) (c : PairingWorld) (i : Nat) : (String → Prop) × List PairingClaim :=
  match c.procs i with
  | some (.idle m) => (T, m.wins)
  | _ => (fun _ => False, [])

variable {c : PairingWorld}

lemma ordered_pairing {P : Primitives}
    (h : Reachable (pairingProcesses P) (Orderly pairingMachine pairingLocking Completes)
      pairingStart c) :
    Ordered pairingMachine pairingLocking Completes (fun _ => RestsWith (fun _ => False) []) c ∧
      Filed c.store.store := by
  have hfiled : Filed pairingStart.store.store := ⟨nofun, nofun, fun _ _ h => by cases h⟩
  have hstart : Ordered pairingMachine pairingLocking Completes
      (fun _ => RestsWith (fun _ => False) []) pairingStart := by
    refine ⟨?_, fun id hid => (hid nofun).elim⟩
    rintro i a ⟨⟩
    exact ⟨⟨hfiled, nofun⟩, nofun⟩
  obtain ⟨hordered, hstep⟩ := ordered_of_reachable pairingLocking_lawful
    (fun _ => restsWith_stable) (fun i k m s hidle _ => runs_pairingBody P k hidle) hstart h
  exact ⟨hordered, hstep.1 hfiled⟩

/-- Once a consumed record of a code was written, one stays, and no process that rests then gets a
new claim of the code, in any run in which the storage lock excludes and every `Commit` makes both
of its steps. -/
theorem consumed_code_not_claimed (P : Primitives) (c c' : PairingWorld)
    (hc : Reachable (pairingProcesses P) (Orderly pairingMachine pairingLocking Completes)
      pairingStart c)
    (hc' : Reachable (pairingProcesses P) (Orderly pairingMachine pairingLocking Completes) c c')
    (directory : PairingDirectory) (id : String) (record : PairingRecord)
    (hrecord : c.store.store.records.lookup (directory, id) = some record)
    (hconsumed : record.consumedAt ≠ 0) :
    (∃ directory' record', c'.store.store.records.lookup (directory', id) = some record' ∧
      record'.consumedAt ≠ 0) ∧
      ∀ i m m', c.procs i = some (.idle m) → c'.procs i = some (.idle m') →
        ∀ won ∈ m'.wins, won.record.id = id → won ∈ m.wins := by
  obtain ⟨hordered, hfiled⟩ := ordered_pairing hc
  have hspent : Spent id c.store.store := by
    cases directory with
    | pending => exact absurd (hfiled.unused id record hrecord) hconsumed
    | inflight => exact .inr ⟨record, hrecord, hconsumed⟩
    | history => exact .inl ⟨record, hrecord⟩
  have hstart : Ordered pairingMachine pairingLocking Completes
      (fun j => RestsWith (known (fun name => name = id) c j).1
        (known (fun name => name = id) c j).2) c := by
    refine ⟨fun j a hj => ?_, hordered.guarded⟩
    have hbefore := hordered.sound j a hj
    cases a with
    | idle mj =>
      have hknown : known (fun name => name = id) c j = (fun name => name = id, mj.wins) := by
        unfold known
        rw [hj]
      show RestsWith _ _ mj c.store
      rw [hknown]
      refine ⟨⟨hfiled, ?_⟩, fun _ h _ => h⟩
      rintro _ rfl
      exact hspent
    | busy k p =>
      have hknown : known (fun name => name = id) c j = (fun _ => False, []) := by
        unfold known
        rw [hj]
      show Safe _ _ _ (fun m s => RestsWith _ _ m s) p c.store
      rw [hknown]
      exact hbefore
  obtain ⟨hend, hstep⟩ := ordered_of_reachable pairingLocking_lawful (fun _ => restsWith_stable)
    (fun _ k _ _ h _ => runs_pairingBody P k h) hstart hc'
  refine ⟨?_, fun i m m' hrests hlater => ?_⟩
  · rcases hstep.2 id hspent with ⟨found, hfound⟩ | ⟨found, hfound, hused⟩
    · exact ⟨.history, found, hfound, (hstep.1 hfiled).used id found hfound⟩
    · exact ⟨.inflight, found, hfound, hused⟩
  · have hknown : known (fun name => name = id) c i = (fun name => name = id, m.wins) := by
      unfold known
      rw [hrests]
    have hold : RestsWith (known (fun name => name = id) c i).1
      (known (fun name => name = id) c i).2 m' c'.store := hend.sound i _ hlater
    rw [hknown] at hold
    exact hold.2

/-! ## Sample runs -/

/-- The sample code. -/
def pairingCode : String := "AGBR-0123456Z-89ABCDEF-GHJKMNPQ-RSTVWXYZ"

/-- The id of the sample code. -/
def pairingCodeID : String := Streams.Sha256.hash (utf8 pairingCode)

/-- The claim of the sample code by process 1. -/
def pairingClaim : PairingClaim where
  record :=
    { version := 1
      id := pairingCodeID
      codeHash := "sha256:" ++ pairingCodeID
      policy := ⟨"team", ["codex"], ["ssh"]⟩
      createdAt := 1
      expiresAt := 1 + 30 * minute
      claimID := "c"
      leaseUntil := 2 + 2 * minute }
  claimID := "c"

/-- `n` steps of process `i` that work. -/
def pairingSteps (i n : Nat) : List (Event PairingCall PairingChoice Nat) :=
  List.replicate n (.step i .works)

/-- Process 0 creates the sample code, and process 1 claims it. -/
def claimedRun : List (Event PairingCall PairingChoice Nat) :=
  [.call 0 (.create ⟨"team", ["codex"], ["ssh"]⟩ (30 * minute) 1), .step 0 (.text pairingCode)] ++
    pairingSteps 0 2 ++ [.call 1 (.claim pairingCode 2 (2 * minute))] ++ pairingSteps 1 4 ++
    [.step 1 (.text "c")] ++ pairingSteps 1 5

/-- Process 1 is killed in its `Commit`, after it has written the consumed record. -/
def killedRun : List (Event PairingCall PairingChoice Nat) :=
  claimedRun ++ [.call 1 (.commit pairingClaim "peer" 3)] ++ pairingSteps 1 3 ++ [.kill 1]

/-- Process 2 claims the code. -/
def claimedAgainRun : List (Event PairingCall PairingChoice Nat) :=
  [.call 2 (.claim pairingCode 4 (2 * minute))] ++ pairingSteps 2 3 ++ [.step 2 (.text "d")] ++
    pairingSteps 2 4

/-- Whether an event takes a lock only when no live process holds it. -/
def exclusiveCheck (e : Event PairingCall PairingChoice Nat) (c : PairingWorld) : Bool :=
  match e with
  | .spawn _ => false
  | .step i _ =>
    match c.procs i with
    | some (.busy _ (.cmd (_, .lock id) _)) =>
      match c.store.holders id with
      | some j => (c.procs j).isNone
      | none => true
    | _ => true
  | _ => true

variable {e : Event PairingCall PairingChoice Nat}

lemma exclusive_of_check (h : exclusiveCheck e c = true) :
    Exclusive pairingMachine pairingLocking e c := by
  cases e with
  | spawn i => cases h
  | call | kill => trivial
  | step i x =>
    rintro k ⟨i', o⟩ next r t n j hi hexec htakes hholder
    cases o with
    | lock id =>
      obtain rfl : id = n := by
        cases r with
        | true => exact Option.some.inj htakes
        | false => cases htakes
      simp only [exclusiveCheck, hi, hholder] at h
      exact Option.isNone_iff_eq_none.mp h
    | clock | newCode | randomHex | unlock | read | stat | create | write | writeClaim | move =>
      cases htakes

/-- Whether an event is orderly, for runs without failures. -/
def orderlyCheck (e : Event PairingCall PairingChoice Nat) (c : PairingWorld) : Bool :=
  exclusiveCheck e c &&
    match e with
    | .kill _ => false
    | .step _ .failsBefore => false
    | .step _ .failsAfter => false
    | _ => true

lemma orderly_of_check (h : orderlyCheck e c = true) :
    Orderly pairingMachine pairingLocking Completes e c := by
  obtain ⟨hexclusive, hworks⟩ := Bool.and_eq_true_iff.mp h
  refine ⟨exclusive_of_check hexclusive, ?_⟩
  cases e with
  | spawn | call => trivial
  | kill i => cases hworks
  | step i x =>
    intro k o next hi
    have hx : x ≠ .failsBefore ∧ x ≠ .failsAfter := by
      constructor
      · rintro rfl
        cases hworks
      · rintro rfl
        cases hworks
    unfold Completes
    split
    · exact fun _ => hx.2
    · exact hx.1
    · trivial

/-- The configuration after process 1 was killed. -/
def killedEnd : PairingWorld :=
  (pairingProcesses hashingPrimitives).endOf exclusiveCheck killedRun pairingStart

/-- The configuration after process 2 claimed the code. -/
def claimedAgainEnd : PairingWorld :=
  (pairingProcesses hashingPrimitives).endOf exclusiveCheck claimedAgainRun killedEnd

/-- A code whose consumed record was written is claimed again after a `Commit` that was killed
between its two steps. -/
theorem consumed_code_claimed_again :
    (Reachable (pairingProcesses hashingPrimitives) (Exclusive pairingMachine pairingLocking)
      pairingStart killedEnd ∧
      Reachable (pairingProcesses hashingPrimitives) (Exclusive pairingMachine pairingLocking)
        killedEnd claimedAgainEnd) ∧
      (∃ record, killedEnd.store.store.records.lookup (.inflight, pairingCodeID) = some record ∧
        record.consumedAt ≠ 0) ∧
      killedEnd.procs 2 = some (.idle {}) ∧
      ∃ won, claimedAgainEnd.procs 2 = some (.idle ⟨[won]⟩) ∧ won.record.id = pairingCodeID := by
  have hkilled : ((pairingProcesses hashingPrimitives).runIf exclusiveCheck killedRun
      pairingStart).any (fun c => (c.store.store.records.lookup (.inflight, pairingCodeID)).map
          PairingRecord.consumedAt = some 3 ∧
        (c.rests 2).map (fun m => m.wins.length) = some 0) = true := by
    decide +kernel
  have hagain : ((pairingProcesses hashingPrimitives).runIf exclusiveCheck claimedAgainRun
      killedEnd).any (fun c => (c.rests 2).map (fun m => m.wins.map fun won => won.record.id) =
        some [pairingCodeID]) = true := by
    decide +kernel
  obtain ⟨hreach, hc⟩ := reachable_endOf (fun _ _ => exclusive_of_check) .start hkilled
    (rfl : killedEnd = _)
  obtain ⟨hreach', hd⟩ := reachable_endOf (fun _ _ => exclusive_of_check) .start hagain
    (rfl : claimedAgainEnd = _)
  obtain ⟨hconsumed, hrests⟩ := of_decide_eq_true hc
  refine ⟨⟨hreach, hreach'⟩, ?_, ?_, ?_⟩
  · obtain ⟨record, hrecord, hat⟩ := Option.map_eq_some_iff.mp hconsumed
    exact ⟨record, hrecord, by rw [hat]; decide⟩
  · obtain ⟨⟨wins⟩, hm, hnone⟩ := Option.map_eq_some_iff.mp hrests
    obtain rfl : wins = [] := List.length_eq_zero_iff.mp hnone
    exact Config.procs_of_rests hm
  · obtain ⟨⟨wins⟩, hm, hids⟩ := Option.map_eq_some_iff.mp (of_decide_eq_true hd)
    obtain ⟨won, rfl, hid⟩ := List.map_eq_singleton_iff.mp hids
    exact ⟨won, Config.procs_of_rests hm, hid⟩

/-- Process 1 uses up the code it claimed. -/
def committedRun : List (Event PairingCall PairingChoice Nat) :=
  claimedRun ++ [.call 1 (.commit pairingClaim "peer" 3)] ++ pairingSteps 1 6

/-- Process 1 tries to claim the code again. -/
def refusedRun : List (Event PairingCall PairingChoice Nat) :=
  [.call 1 (.claim pairingCode 4 (2 * minute))] ++ pairingSteps 1 4

/-- The configuration after the code was used up. -/
def committedEnd : PairingWorld :=
  (pairingProcesses hashingPrimitives).endOf orderlyCheck committedRun pairingStart

/-- The configuration after the second attempt. -/
def refusedEnd : PairingWorld :=
  (pairingProcesses hashingPrimitives).endOf orderlyCheck refusedRun committedEnd

/-- The second attempt of the process that used the code up gives it no new claim. -/
theorem consumed_code_refused :
    ∃ m m', committedEnd.procs 1 = some (.idle m) ∧ refusedEnd.procs 1 = some (.idle m') ∧
      ∀ won ∈ m'.wins, won.record.id = pairingCodeID → won ∈ m.wins := by
  have hcommit : ((pairingProcesses hashingPrimitives).runIf orderlyCheck committedRun
      pairingStart).any (fun c => (c.rests 1).isSome && decide ((c.store.store.records.lookup
        (.history, pairingCodeID)).map PairingRecord.consumedAt = some 3)) = true := by
    decide +kernel
  have hrefuse : ((pairingProcesses hashingPrimitives).runIf orderlyCheck refusedRun
      committedEnd).any (fun c => (c.rests 1).isSome) = true := by
    decide +kernel
  obtain ⟨hreach, hc⟩ := reachable_endOf (fun _ _ => orderly_of_check) .start hcommit
    (rfl : committedEnd = _)
  obtain ⟨hreach', hafter⟩ := reachable_endOf (fun _ _ => orderly_of_check) .start hrefuse
    (rfl : refusedEnd = _)
  obtain ⟨hbefore, hconsumed⟩ := Bool.and_eq_true_iff.mp hc
  obtain ⟨record, hrecord, hat⟩ := Option.map_eq_some_iff.mp (of_decide_eq_true hconsumed)
  obtain ⟨m, hm⟩ := Option.isSome_iff_exists.mp hbefore
  obtain ⟨m', hm'⟩ := Option.isSome_iff_exists.mp hafter
  refine ⟨m, m', Config.procs_of_rests hm, Config.procs_of_rests hm', ?_⟩
  exact (consumed_code_not_claimed hashingPrimitives committedEnd refusedEnd hreach hreach'
    .history pairingCodeID record hrecord (by rw [hat]; decide)).2 1 m m'
      (Config.procs_of_rests hm) (Config.procs_of_rests hm')

end AgentBell.Relay
