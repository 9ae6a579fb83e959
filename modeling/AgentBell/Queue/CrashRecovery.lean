import AgentBell.Queue.Recoverable

/-!
# One process, killed and restarted

A single process works on the queue and may be killed between any two commands.
`RecoverExpired` looks at every inflight file, drops it when another directory has its name
and brings it back to `pending` otherwise, so after it every item is in one directory only.

The one operation that can break this is `Retry`.  Between its two steps a file is both in
`pending` and in `dead`, and no later operation compares these two directories.
-/

namespace AgentBell.Queue

open Interleaving Interleaving.Routine

variable {m : Memory} {now : Time} {envelope : Envelope} {sha256 : String → String}

/-! ## Cleaning up -/

variable {s : Store}

/-- Cleaning up keeps the queue intact. -/
lemma keeps_discardItems (sha256 : String → String) {directory : Directory}
    (hdirectory : directory ≠ .inflight) (items : List Item) (removed : Nat) (h : Intact m s) :
    Keeps (fun _ t => Intact m t) ((discardItems sha256 directory removed items).working ()) s := by
  induction items generalizing s removed with
  | nil => exact safe_alone_ret h
  | cons item rest ih =>
    refine safe_alone_cmd h.recoverable ?_
    intro x r t hx
    simp only [machine_exec, exec] at hx
    split at hx
    · cases hx
      have hdropped : Intact m { s.drop (directory, item.fileName) with
          cleaned := item.fileName.id :: s.cleaned } := by
        refine ⟨h.recoverable.erase rfl ?_, h.holds.erase hdirectory rfl⟩
        exact h.recoverable.toAccounted.erase (directory, item.fileName) rfl rfl rfl
          (fun id hid => List.mem_cons_of_mem _ hid) fun _ => Or.inl List.mem_cons_self
      refine keeps_quiet hdropped.recoverable rfl ?_
      intro x r t _ hsame
      exact ih (removed + 1) (hdropped.congr hsame)
    · cases hx
      exact safe_alone_ret h

/-- `CleanupHistory` keeps the queue intact. -/
lemma keeps_cleanupHistory (h : Intact m s) (sha256 : String → String) (before : Time) :
    Keeps (fun _ t => Intact m t) ((cleanupHistory sha256 before).working ()) s := by
  rw [cleanupHistory, working_bind]
  refine Safe.bind_alone (keeps_listUnlocked h.recoverable .history) ?_
  rintro _ t ⟨rfl, items, rfl, -, -⟩
  exact keeps_discardItems sha256 (by decide) _ 0 h

/-- `CleanupDead` keeps the queue intact. -/
lemma keeps_cleanupDead (h : Intact m s) (sha256 : String → String) (before : Time)
    (maximum : Int) :
    Keeps (fun _ t => Intact m t) ((cleanupDead sha256 before maximum).working ()) s := by
  rw [cleanupDead, working_bind]
  refine Safe.bind_alone (keeps_listUnlocked h.recoverable .dead) ?_
  rintro _ t ⟨rfl, items, rfl, -, -⟩
  exact keeps_discardItems sha256 (by decide) _ 0 h

/-! ## Recovery -/

/-- The test of `RecoverExpired` finds out whether a directory other than `inflight` has the
file. -/
lemma keeps_completedTransition (hs : Recoverable s) (fileName : FileName) :
    Keeps (fun found t => t = s ∧
        ∃ b, found.1 = .ok b ∧ (b = true ↔ ∃ d, d ≠ .inflight ∧ (d, fileName) ∈ s.files))
      ((completedTransition fileName).working ()) s := by
  rw [completedTransition, working_looksPresent_bind]
  refine safe_alone_cmd hs ?_
  intro x r t hx
  cases hx
  by_cases hpending : (.pending, fileName) ∈ s.files
  · simp only [hpending, decide_true, if_true]
    exact safe_alone_ret ⟨rfl, true, rfl, iff_of_true rfl ⟨.pending, by decide, hpending⟩⟩
  simp only [hpending, decide_false, Bool.false_eq_true, if_false, working_looksPresent_bind]
  refine safe_alone_cmd hs ?_
  intro x r t hx
  cases hx
  by_cases hhistory : (.history, fileName) ∈ s.files
  · simp only [hhistory, decide_true, if_true]
    exact safe_alone_ret ⟨rfl, true, rfl, iff_of_true rfl ⟨.history, by decide, hhistory⟩⟩
  simp only [hhistory, decide_false, Bool.false_eq_true, if_false]
  refine safe_alone_cmd hs ?_
  intro x r t hx
  cases hx
  refine safe_alone_ret ⟨rfl, _, rfl, ?_⟩
  rw [decide_eq_true_eq]
  constructor
  · exact fun hdead => ⟨.dead, by decide, hdead⟩
  · rintro ⟨d, hd, hmem⟩
    cases d with
    | pending => exact absurd hmem hpending
    | inflight => exact absurd rfl hd
    | history => exact absurd hmem hhistory
    | dead => exact hmem

/-- An item `RecoverExpired` works on: valid, out of lease, and still stored somewhere. -/
structure Expired (now : Time) (s : Store) (item : Item) : Prop where
  fits : item.Fits
  encodable : item.envelope.encodable = true
  late : item.envelope.leaseUntil < now
  stored : ∃ d, (d, item.fileName) ∈ s.files

/-- A recovered envelope can be written when the clock shows a year that can be. -/
lemma recoveredEnvelope_encodable (hnow : Time.encodable now = true)
    (h : envelope.encodable = true) : (recoveredEnvelope now envelope).encodable = true := by
  have hzero : Time.encodable 0 = true := by decide
  simp only [Envelope.encodable, Bool.and_eq_true] at h
  simp only [Envelope.encodable, recoveredEnvelope, hnow, hzero, h, Bool.and_self]

/-- The loop of `RecoverExpired` empties `inflight`, when it gets all of its files and every
lease has run out. -/
lemma keeps_recoverItems (hnow : Time.encodable now = true) (items : List Item) (recovered : Nat)
    (hs : Recoverable s) (hitems : ∀ item ∈ items, Expired now s item)
    (hall : ∀ fileName, (.inflight, fileName) ∈ s.files →
      ∃ item ∈ items, item.fileName = fileName) :
    Keeps (fun _ t => Recoverable t ∧ ∀ fileName, (.inflight, fileName) ∉ t.files)
      ((recoverItems now recovered items).working ()) s := by
  induction items generalizing s recovered with
  | nil =>
    refine safe_alone_ret ⟨hs, fun fileName hmem => ?_⟩
    obtain ⟨item, hitem, -⟩ := hall fileName hmem
    cases hitem
  | cons item rest ih =>
    rw [List.forall_mem_cons] at hitems
    obtain ⟨hitem, hrest⟩ := hitems
    -- Both ways of dealing with the item end in a store without its inflight file.
    have hgo : ∀ (count : Nat) (t : Store), Recoverable t →
        (∃ d, (d, item.fileName) ∈ t.files) → (.inflight, item.fileName) ∉ t.files →
        (∀ d fileName, fileName ≠ item.fileName →
          ((d, fileName) ∈ t.files ↔ (d, fileName) ∈ s.files)) →
        Keeps (fun _ t => Recoverable t ∧ ∀ fileName, (.inflight, fileName) ∉ t.files)
          ((recoverItems now count rest).working ()) t := by
      intro count t ht hstored hgone hframe
      refine ih count ht ?_ ?_
      · intro other hother
        obtain ⟨hfits, henc, hlate, d, hd⟩ := hrest other hother
        refine ⟨hfits, henc, hlate, ?_⟩
        by_cases hname : other.fileName = item.fileName
        · rwa [hname]
        · exact ⟨d, (hframe d _ hname).mpr hd⟩
      · intro fileName hmem
        have hname : fileName ≠ item.fileName := by
          rintro rfl
          exact hgone hmem
        obtain ⟨other, hother, heq⟩ := hall fileName ((hframe _ _ hname).mp hmem)
        rcases List.mem_cons.mp hother with rfl | hother
        · exact absurd heq.symm hname
        · exact ⟨other, hother, heq⟩
    rw [recoverItems, working_bind]
    refine Safe.bind_alone (keeps_completedTransition hs item.fileName) ?_
    rintro ⟨_, ⟨⟩⟩ t ⟨rfl, found, rfl, hfound⟩
    cases found with
    | true =>
      obtain ⟨d, hd, hmem⟩ := hfound.mp rfl
      refine safe_alone_cmd hs ?_
      intro x r v hx
      cases hx
      refine hgo recovered _ (hs.erase rfl (hs.drop hd hmem)) ⟨d, by simp [hd, hmem]⟩ (by simp) ?_
      intro d' fileName hne
      simp [hne]
    | false =>
      have hnone : ∀ d, d ≠ .inflight → (d, item.fileName) ∉ t.files := by
        intro d hd hmem
        exact absurd (hfound.mpr ⟨d, hd, hmem⟩) (by decide)
      obtain ⟨d, hd⟩ := hitem.stored
      obtain rfl : d = .inflight := by
        by_contra hne
        exact hnone d hne hd
      have hlease : ¬ (¬ item.envelope.leaseUntil.isZero = true ∧
          now < item.envelope.leaseUntil) := by
        rintro ⟨-, hlt⟩
        exact absurd (lt_trans hlt hitem.late) (lt_irrefl _)
      have hfits : (recoveredEnvelope now item.envelope).Fits item.fileName :=
        hitem.fits.congr rfl rfl rfl rfl
      have henc : (recoveredEnvelope now item.envelope).encodable = true :=
        recoveredEnvelope_encodable hnow hitem.encodable
      have hput : Recoverable
          (t.put (.pending, item.fileName) (recoveredEnvelope now item.envelope)) := by
        refine hs.put (hs.insert_copy hfits henc hd) ?_
        intro _ d' hd' hmem
        exact absurd hmem (hnone d' hd')
      simp only [Bool.false_eq_true, if_false, if_neg hlease, working_bind]
      refine Safe.bind_alone (Q := fun o v => o.1 = .ok () ∧
        v = (t.put (.pending, item.fileName) (recoveredEnvelope now item.envelope)).drop
          (.inflight, item.fileName)) ?_ ?_
      · refine keeps_transitionEnvelope hs ?_ ?_ (fun _ _ => hput) fun _ _ => ⟨rfl, rfl⟩
        · intro hpending
          exact absurd hpending (hnone .pending (by decide))
        · intro hbad
          exact absurd (hbad.symm.trans henc) (by decide)
      · rintro ⟨_, ⟨⟩⟩ v ⟨rfl, rfl⟩
        refine hgo (recovered + 1) _ ?_ ⟨.pending, by simp⟩ (by simp) ?_
        · refine hput.erase rfl (hput.drop (c := .pending) (by decide) ?_)
          exact Store.mem_put.mpr (Or.inl rfl)
        · intro d' fileName hne
          simp [hne]

/-- Whether an instant is later than every stored lease. -/
def Store.leasesBefore (s : Store) (now : Time) : Bool :=
  s.files.entries.all fun file => file.2.leaseUntil < now

/-- `RecoverExpired` empties `inflight` when it runs later than every stored lease. -/
lemma keeps_recoverExpired (hnow : Time.encodable now = true) (hs : Recoverable s)
    (hlate : s.leasesBefore now = true) :
    Keeps (fun _ t => Recoverable t ∧ ∀ fileName, (.inflight, fileName) ∉ t.files)
      ((recoverExpired now).working ()) s := by
  rw [recoverExpired, working_bind]
  refine Safe.bind_alone (keeps_listUnlocked hs .inflight) ?_
  rintro _ t ⟨rfl, items, rfl, hitems, hall⟩
  refine keeps_recoverItems hnow items 0 hs ?_ hall
  intro item hitem
  have hlookup := hitems item hitem
  obtain ⟨hfits, henc⟩ := hs.valid _ _ hlookup
  refine ⟨hfits, henc, ?_, .inflight, mem_of_lookup hlookup⟩
  have hentry := AList.mem_lookup_iff.mp hlookup
  exact of_decide_eq_true (List.all_eq_true.mp hlate _ hentry)

/-! ## Enqueueing -/

/-- An answer may be given for an id that is stored. -/
def Answerable (s : Store) (result : Option Answer) : Prop :=
  ∀ id again, result = some (.ok (id, again)) →
    ∃ d fileName, fileName.id = id ∧ (d, fileName) ∈ s.files

/-- Writing the item of an id that was just drawn. -/
lemma Intact.put_new {id : String} {notification : Notification} (h : Intact m s) (hid : id ≠ "")
    (hissued : id ∈ s.issued) (hnew : ∀ d fileName, (d, fileName) ∈ s.files → fileName.id ≠ id)
    (henc : (newEnvelope id notification now).encodable = true) :
    Intact m (s.put (.pending, ⟨now, id⟩) (newEnvelope id notification now)) := by
  refine ⟨h.recoverable.put ?_ ?_, h.holds.frame ?_⟩
  · refine h.recoverable.toAccounted.insert (newEnvelope_fits hid notification now) henc hissued ?_
    intro d other hother heq
    exact absurd heq (hnew d other hother)
  · intro _ d' _ hmem
    exact absurd rfl (hnew d' _ hmem)
  · intro item hitem hstate d
    have hne : item.fileName.id ≠ id := by
      obtain ⟨hsole, -⟩ := h.holds.sole item hitem hstate
      exact hnew .inflight _ ((hsole .inflight).mpr rfl)
    rw [Store.mem_put, or_iff_right_iff_imp]
    intro heq
    exact absurd (congrArg (fun path : ItemPath => path.2.id) heq) hne

/-- Reserving a marker and writing the item keeps the queue intact and answers only with a
stored id. -/
lemma keeps_reserve (key : String) {id : String} (hid : id ≠ "") (notification : Notification)
    (now : Time) (fuel : Nat) (h : Intact m s) (hissued : id ∈ s.issued)
    (hnew : ∀ d fileName, (d, fileName) ∈ s.files → fileName.id ≠ id) :
    Keeps (fun result t => Intact m t ∧ Answerable t result)
      (reserve key id notification now fuel) s := by
  -- Nobody else works on the queue, so until the item is written the items are those of `s`.
  have hview : EnqueueView Alone (fun _ => Recoverable) s.SameItems
      (fun t => Intact m t ∧ (.pending, ⟨now, id⟩) ∈ t.files)
      (fun id t => ∃ d fileName, fileName.id = id ∧ (d, fileName) ∈ t.files) :=
    { refl := Alone.refl
      idle :=
        { stable := fun _ a b ha hab => hab ▸ ha
          same := fun _ _ ha hab => ha.trans hab
          quiet := fun _ _ _ ha => h.recoverable.congr ha }
      seen := fun id =>
        { stable := fun _ a b ha hab => hab ▸ ha
          same := fun _ _ ha hab => ⟨ha.1.trans hab, hab.files ▸ ha.2⟩
          quiet := fun _ _ _ ha => h.recoverable.congr ha.1 }
      sight := fun t d fileName _ hmem => ⟨d, fileName, rfl, hmem⟩
      written := fun a b ha hab => hab ▸ ha }
  refine (hview.reserve key id notification now fuel ?_ (.refl s)).weaken (fun _ _ hrec => hrec) ?_
  · intro t ht henc
    refine ⟨h.recoverable.congr ht, ?_, Store.mem_put.mpr (Or.inl rfl)⟩
    exact (h.congr ht).put_new hid (ht.issued ▸ hissued) (ht.files ▸ hnew) henc
  · intro result t hresult
    match result, hresult with
    | none, ht => exact ⟨h.congr ht, nofun⟩
    | some (.error message), ht => exact ⟨h.congr ht, nofun⟩
    | some (.ok (answered, false)), ⟨heq, ht, hstored⟩ =>
      refine ⟨ht, ?_⟩
      rintro id' again ⟨⟩
      exact ⟨.pending, _, heq.symm, hstored⟩
    | some (.ok (answered, true)), ⟨ht, hseen⟩ =>
      refine ⟨h.congr ht, ?_⟩
      rintro id' again ⟨⟩
      exact hseen

/-- Drawing a random id. -/
lemma Intact.issue (h : Intact m s) (id : String) :
    Intact m { s with issued := id :: s.issued } where
  recoverable :=
    { valid := h.recoverable.valid
      named := h.recoverable.named
      issued := fun d _ hmem => List.mem_cons_of_mem _ (h.recoverable.issued d _ hmem)
      kept := h.recoverable.kept
      single := h.recoverable.single }
  holds := h.holds.frame fun _ _ _ _ => Iff.rfl

/-- Answering with an id that is stored. -/
lemma Intact.answer (h : Intact m s) {result : Answer} (hresult : Answerable s (some result)) :
    Intact m { s with answers := result :: s.answers } where
  recoverable :=
    { valid := h.recoverable.valid
      named := h.recoverable.named
      issued := h.recoverable.issued
      kept := by
        intro id again hmem
        rcases List.mem_cons.mp hmem with heq | hmem
        · exact Or.inr (hresult id again (congrArg some heq.symm))
        · exact h.recoverable.kept id again hmem
      single := h.recoverable.single }
  holds := h.holds.frame fun _ _ _ _ => Iff.rfl

/-- `Enqueue` keeps the queue intact and answers only with a stored id. -/
lemma keeps_enqueue (h : Intact m s) (sha256 : String → String) (fuel : Nat)
    (notification : Notification) (now : Time) :
    Keeps (fun result t => Intact m t ∧ Answerable t result)
      (enqueue sha256 fuel notification now) s := by
  unfold enqueue
  split
  · exact safe_alone_ret ⟨h, nofun⟩
  · refine safe_alone_cmd h.recoverable ?_
    intro x id t hx
    obtain ⟨hid, hfresh, rfl⟩ := randomID_fresh hx
    refine keeps_reserve _ hid notification now fuel (h.issue id) List.mem_cons_self ?_
    intro d _ hmem heq
    exact hfresh (heq ▸ h.recoverable.issued d _ hmem)

/-! ## Retrying a dead item -/

/-- Whether a call is a `Retry` that has written its item to `pending` and is about to remove
it from `dead`. -/
def midRetry : Call → Cmd → Bool
  | .retry _ _, .remove (.dead, _) => true
  | _, _ => false

/-- The stores in which a call issues a command: `Retry` may find its item in two directories
when it is about to remove the old file, all else happens in recoverable stores. -/
def KilledSafely (k : Call) (c : Cmd) (s : Store) : Prop :=
  midRetry k c = true ∨ Recoverable s

/-- A program that keeps the store recoverable may be part of any call. -/
lemma Keeps.safely {α : Type} {Q : α → Store → Prop} {p : QueueProg α} (h : Keeps Q p s)
    (k : Call) : Safe machine Alone (KilledSafely k) Q p s :=
  h.weaken (fun _ _ hrec => Or.inr hrec) fun _ _ hpost => hpost

/-- A finished `Retry` leaves the queue intact. -/
lemma Intact.retried {fileName : FileName} (h : Intact m s) (hdead : (.dead, fileName) ∈ s.files)
    (hfits : envelope.Fits fileName) (henc : envelope.encodable = true) :
    Intact m ((s.put (.pending, fileName) envelope).drop (.dead, fileName)) where
  recoverable :=
    { toAccounted := (h.recoverable.insert_copy hfits henc hdead).drop
        (by decide) (Store.mem_put.mpr (Or.inl rfl))
      single := by
        intro name d1 d2 h1 h2 hd1 hd2
        -- Outside of `inflight` the retried file was in `dead` only.
        have honly : ∀ d, d ≠ .inflight →
            (d, name) ∈ ((s.put (.pending, fileName) envelope).drop (.dead, fileName)).files →
            (d, name) ∈ s.files ∧ name ≠ fileName ∨ d = .pending ∧ name = fileName := by
          intro d hd hmem
          simp only [Store.mem_drop, Store.mem_put, ne_eq, Prod.mk.injEq, not_and] at hmem
          obtain ⟨hnot, ⟨rfl, rfl⟩ | hmem⟩ := hmem
          · exact Or.inr ⟨rfl, rfl⟩
          · refine Or.inl ⟨hmem, ?_⟩
            rintro rfl
            exact hnot (h.recoverable.single name d .dead hd (by decide) hmem hdead) rfl
        rcases honly d1 h1 hd1 with ⟨hm1, hn1⟩ | ⟨rfl, rfl⟩ <;>
          rcases honly d2 h2 hd2 with ⟨hm2, hn2⟩ | ⟨rfl, hn2⟩
        · exact h.recoverable.single name d1 d2 h1 h2 hm1 hm2
        · exact absurd hn2 hn1
        · exact absurd rfl hn2
        · rfl }
  holds := by
    refine h.holds.frame fun item hitem hstate d => ?_
    obtain ⟨hsole, -⟩ := h.holds.sole item hitem hstate
    have hne : item.fileName ≠ fileName := by
      rintro rfl
      exact absurd ((hsole .dead).mp hdead) (by decide)
    simp [hne]

/-- `Retry` keeps the queue intact when it is not killed between its two steps. -/
lemma safely_retry (h : Intact m s) (id : String) (now : Time) :
    Safe machine Alone (KilledSafely (.retry id now)) (fun _ t => Intact m t)
      ((retry id now).working ()) s := by
  rw [retry, working_bind]
  refine Safe.bind_alone ((keeps_listUnlocked h.recoverable .dead).safely _) ?_
  rintro _ t ⟨rfl, items, rfl, hitems, -⟩
  simp only
  split
  · exact safe_alone_ret h
  · rename_i item hfind
    have hlookup := hitems item (List.mem_of_find?_eq_some hfind)
    have hdead : (.dead, item.fileName) ∈ t.files := mem_of_lookup hlookup
    have hfits : (retriedEnvelope now item.envelope).Fits item.fileName :=
      (h.recoverable.valid _ _ hlookup).1.congr rfl rfl rfl rfl
    rw [transitionEnvelope, working_bind]
    refine Safe.bind_alone (Keeps.safely (Q := fun o v => either (fun _ => v = t)
      (fun _ => (retriedEnvelope now item.envelope).encodable = true ∧
        v = t.put (.pending, item.fileName) (retriedEnvelope now item.envelope)) o.1) ?_ _) ?_
    · exact keeps_writeNew h.recoverable (fun _ => rfl) (fun _ _ => rfl) fun _ henc => ⟨henc, rfl⟩
    · rintro ⟨err | ⟨⟩, ⟨⟩⟩ v hv
      · obtain rfl := hv
        exact safe_alone_ret h
      · obtain ⟨henc, rfl⟩ := hv
        refine safe_alone_cmd (Or.inl rfl) ?_
        intro x r v hx
        cases hx
        exact safe_alone_ret (h.retried hdead hfits henc)

/-! ## Runs of one process -/

/-- One process on a queue of its own.  `RecoverExpired` is called by a process that holds no
inflight item, as after a restart, at a time later than every stored lease. -/
def solo (sha256 : String → String) : Protocol Cmd Reply Store Choice Call Memory Unit where
  machine := machine
  may := fun _ k m s => match k with
    | .recoverExpired now =>
      Time.encodable now && s.leasesBefore now &&
        m.held.all fun item => item.envelope.state ≠ .inflight
    | _ => true
  body := fun _ => body sha256
  fresh := {}

/-- A configuration of the single process. -/
abbrev SoloConfig := Config Cmd Reply Store Call Memory Unit

/-- An empty queue, before the process starts. -/
def soloStart : SoloConfig := { store := {}, procs := fun _ => none }

/-- Whether an event kills the process inside a `Retry`, between the write to `pending` and
the removal from `dead`. -/
def cutsRetry (e : Event Call Choice Unit) (c : SoloConfig) : Bool :=
  match e, c.procs () with
  | .kill _, some (.busy k (.cmd o _)) => midRetry k o
  | _, _ => false

/-- The process is not killed inside a `Retry`. -/
def RetryNotCut (e : Event Call Choice Unit) (c : SoloConfig) : Prop := cutsRetry e c = false

/-- What the single process promises. -/
def soloContract : Contract Cmd Store Call Memory where
  rest := fun s t => t = s
  rely := fun _ => Alone
  pre := KilledSafely
  idle := Intact
  done := fun k m s => Intact m s ∧
    ((∃ now, k = .recoverExpired now) → ∀ fileName, (.inflight, fileName) ∉ s.files)

lemma soloContract_lawful : soloContract.Lawful where
  rely_refl := fun _ _ _ => rfl
  rely_trans := fun _ _ _ _ _ hst htv => Eq.trans htv hst
  rest_refl := fun _ => rfl
  idle_stable := fun _ _ _ h hst => hst ▸ h
  idle_of_done := fun _ _ _ h => h.1

/-- Every call of the process keeps its contract. -/
theorem safely_body (sha256 : String → String) (k : Call) (h : Intact m s)
    (hmay : (solo sha256).may () k m s = true) :
    Safe machine Alone (KilledSafely k) (soloContract.done k) (body sha256 k m) s := by
  have hkeep : ∀ {α : Type} {p : QueueRoutine Unit α}, (∀ now, k ≠ .recoverExpired now) →
      Safe machine Alone (KilledSafely k) (fun _ t => Intact m t) (p.working ()) s →
      Safe machine Alone (KilledSafely k) (soloContract.done k) (m.keep p) s := by
    intro α p hk hp
    refine Safe.bind_alone hp fun _ t ht => safe_alone_ret ⟨ht, ?_⟩
    rintro ⟨now, hnow⟩
    exact absurd hnow (hk now)
  have hheld : ∀ {α : Type} {p : QueueRoutine Item α} (held : Nat),
      (∀ item, HeldOutcome item (p.working item)) → (∀ now, k ≠ .recoverExpired now) →
      Safe machine Alone (KilledSafely k) (soloContract.done k) (m.act held p) s := by
    intro α p held hp hk
    have hdone : ∀ {m t}, Intact m t → soloContract.done k m t :=
      fun ht => ⟨ht, fun ⟨now, hnow⟩ => absurd hnow (hk now)⟩
    rw [Memory.act]
    split
    · exact safe_alone_ret (hdone h)
    · rename_i item hitem
      exact Safe.bind_alone ((keeps_held h hitem (hp item)).safely k)
        fun o t ht => safe_alone_ret (hdone ht)
  cases k with
  | enqueue fuel notification now =>
    refine Safe.bind_alone ((keeps_enqueue h sha256 fuel notification now).safely _) ?_
    rintro (_ | result) t ⟨ht, hanswer⟩
    · exact safe_alone_ret ⟨ht, nofun⟩
    · refine safe_alone_cmd (Or.inr ht.recoverable) ?_
      intro x r v hx
      cases hx
      exact safe_alone_ret ⟨ht.answer hanswer, nofun⟩
  | claim now lease =>
    refine Safe.bind_alone ((keeps_claim h now lease).safely _) ?_
    rintro ⟨message | _ | item, ⟨⟩⟩ t ht
    · exact safe_alone_ret ⟨ht, nofun⟩
    · exact safe_alone_ret ⟨ht, nofun⟩
    · exact safe_alone_ret ⟨ht, nofun⟩
  | ack held now =>
    exact hheld held (fun _ => heldOutcome_ack now) nofun
  | nack held cause now backoff =>
    exact hheld held (fun _ => heldOutcome_nack cause now backoff) nofun
  | resolveTargets held targets now =>
    exact hheld held (fun _ => heldOutcome_resolveTargets targets now) nofun
  | ackTarget held target messageID now =>
    exact hheld held (fun _ => heldOutcome_updateTarget target _ now) nofun
  | nackTarget held target cause nextAttemptAt now =>
    exact hheld held (fun _ => heldOutcome_nackTarget target cause nextAttemptAt now) nofun
  | deadTarget held target cause now =>
    exact hheld held (fun _ => heldOutcome_deadTarget target cause now) nofun
  | defer held now nextAttemptAt =>
    exact hheld held (fun _ => heldOutcome_defer now nextAttemptAt) nofun
  | retry id now =>
    exact hkeep nofun (safely_retry h id now)
  | recoverExpired now =>
    simp only [solo, Bool.and_eq_true] at hmay
    obtain ⟨⟨hnow, hlate⟩, hidle⟩ := hmay
    refine Safe.bind_alone ((keeps_recoverExpired hnow h.recoverable hlate).safely _) ?_
    rintro _ t ⟨hrec, hempty⟩
    have hleft : ∀ item ∈ m.held, item.envelope.state ≠ .inflight := by
      intro item hitem
      exact of_decide_eq_true (List.all_eq_true.mp hidle item hitem)
    refine safe_alone_ret ⟨⟨hrec, ?_, ?_⟩, fun _ => hempty⟩
    · intro item hitem hstate
      exact absurd hstate (hleft item hitem)
    · intro i j a b hi _ _ ha _
      exact absurd ha (hleft a (List.mem_of_getElem? hi))
  | cleanupHistory before =>
    exact hkeep nofun ((keeps_cleanupHistory h sha256 before).safely _)
  | cleanupDead before maximum =>
    exact hkeep nofun ((keeps_cleanupDead h sha256 before maximum).safely _)

/-- What holds along every run of one process in which no `Retry` is cut. -/
structure SoloInvariant (c : SoloConfig) : Prop where
  sound : c.Sound machine fun _ => soloContract
  dead : c.procs () = none → Recoverable c.store

variable {c : SoloConfig}

/-- A process that is not inside a `Retry` leaves a recoverable store when it is killed. -/
lemma SoloInvariant.recoverable (h : SoloInvariant c) (hcut : RetryNotCut (.kill ()) c) :
    Recoverable c.store := by
  cases hproc : c.procs () with
  | none => exact h.dead hproc
  | some a =>
    cases a with
    | idle m => exact (h.sound () _ hproc).recoverable
    | busy k p =>
      cases p with
      | ret m => exact (h.sound.returns (fun _ => soloContract_lawful) hproc).1.recoverable
      | cmd o next =>
        rcases h.sound.pre (fun _ => soloContract_lawful) hproc with hmid | hrec
        · have hfalse : midRetry k o = false := by
            simpa [RetryNotCut, cutsRetry, hproc] using hcut
          exact absurd (hmid.symm.trans hfalse) (by decide)
        · exact hrec

/-- A process that holds nothing may rest in every recoverable store. -/
lemma Recoverable.intact (h : Recoverable s) : Intact {} s where
  recoverable := h
  holds :=
    { sole := fun _ hitem => by cases hitem
      distinct := fun _ _ _ _ hi => by cases hi }

/-- One event keeps the invariant. -/
lemma SoloInvariant.next {c' : SoloConfig} {e : Event Call Choice Unit} (h : SoloInvariant c)
    (hcut : RetryNotCut e c) (he : (solo sha256).next e c = some c') : SoloInvariant c' where
  sound := by
    refine h.sound.next (fun _ => soloContract_lawful) he ?_ ?_ ?_
    · rintro i rfl habsent
      exact (h.dead habsent).intact
    · rintro i k m rfl hidle hmay
      exact safely_body sha256 k hidle hmay
    · intro i x k o next r v _ _ _ _ j a hne
      exact absurd (Subsingleton.elim j i) hne
  dead := by
    intro hnone
    cases Protocol.effect_of_next he with
    | killed i => exact h.recoverable hcut
    | spawned i | called i | returned i | issued i =>
      cases hnone

/-- The invariant holds along every run in which no `Retry` is cut. -/
lemma soloInvariant_of_reachable (h : Reachable (solo sha256) RetryNotCut soloStart c) :
    SoloInvariant c := by
  refine h.invariant SoloInvariant ⟨?_, ?_⟩ fun c c' e hc hok he => hc.next hok he
  · intro i a hi
    cases hi
  · intro _
    refine { valid := ?_, named := ?_, issued := ?_, kept := ?_, single := ?_ }
    · intro path envelope hlookup
      cases hlookup
    · intro d d' a b ha
      cases ha
    · intro d fileName hmem
      cases hmem
    · intro id again hmem
      cases hmem
    · intro fileName d d' _ _ hmem
      cases hmem

/-- When a `RecoverExpired` that was called later than every stored lease returns, every id
`Enqueue` ever answered with, and that no cleanup removed, is in exactly one directory,
provided no `Retry` was killed between its two steps. -/
theorem exactlyOne_after_recoverExpired (sha256 : String → String) {c : SoloConfig}
    (hc : Reachable (solo sha256) RetryNotCut soloStart c) {now : Time} {m : Memory}
    (hreturned : c.procs () = some (.busy (.recoverExpired now) (.ret m))) {id : String}
    {again : Bool} (henqueued : .ok (id, again) ∈ c.store.answers) (hkept : id ∉ c.store.cleaned) :
    ∃! d, ∃ fileName, fileName.id = id ∧ (d, fileName) ∈ c.store.files := by
  have hinv := soloInvariant_of_reachable hc
  obtain ⟨hintact, hempty⟩ := hinv.sound.returns (fun _ => soloContract_lawful) hreturned
  have hrec := hintact.recoverable
  have hinflight : ∀ fileName, (.inflight, fileName) ∉ c.store.files := hempty ⟨now, rfl⟩
  have hout : ∀ d fileName, (d, fileName) ∈ c.store.files → d ≠ .inflight := by
    rintro d fileName hmem rfl
    exact hinflight fileName hmem
  obtain ⟨d, fileName, hid, hmem⟩ := (hrec.kept id again henqueued).resolve_left hkept
  refine ⟨d, ⟨fileName, hid, hmem⟩, ?_⟩
  rintro d' ⟨other, hother, hmem'⟩
  obtain rfl : other = fileName := hrec.named d' d other fileName hmem' hmem (hother.trans hid.symm)
  exact hrec.single other d' d (hout d' other hmem') (hout d other hmem) hmem' hmem

/-- A notification of a finished task. -/
def sampleNotification : Notification where
  version := "1"
  source := "codex"
  surface := "cli"
  runtime := "host"
  event := "task.completed"
  status := "completed"
  occurredAt := 1
  idempotencyKey := "turn-1"
  priority := "normal"
  privacyLevel := "metadata-only"

/-- A random id. -/
def sampleID : String := "0123456789abcdef0123456789abcdef"

/-- The file name of the sample item, enqueued at the instant 1. -/
def sampleName : FileName := ⟨1, sampleID⟩

/-- The process enqueues the sample notification. -/
def soloEnqueue : List (Event Call Choice Unit) :=
  [.call () (.enqueue 1 sampleNotification 1), .step () (.id sampleID)] ++
    List.replicate 6 (.step () .nothing)

/-- The process claims the sample item, killed before the last removal. -/
def soloClaimCut : List (Event Call Choice Unit) :=
  [.call () (.claim 2 5), .step () (.order [sampleName])] ++
    List.replicate 3 (.step () .nothing)

/-- A run in which a `Claim` is cut between its two steps and repaired. -/
def cutClaimRun : List (Event Call Choice Unit) :=
  [.spawn ()] ++ soloEnqueue ++ soloClaimCut ++
    [.kill (), .spawn (), .call () (.recoverExpired 10), .step () (.order [sampleName])] ++
    List.replicate 3 (.step () .nothing)

/-- A run in which a `Retry` is cut between its two steps. -/
def cutRetryRun : List (Event Call Choice Unit) :=
  [.spawn ()] ++ soloEnqueue ++ soloClaimCut ++ List.replicate 2 (.step () .nothing) ++
    [.call () (.nack 0 (some "offline") 3 [])] ++ List.replicate 4 (.step () .nothing) ++
    [.call () (.retry sampleID 4), .step () (.order [sampleName])] ++
    List.replicate 3 (.step () .nothing) ++
    [.kill (), .spawn (), .call () (.recoverExpired 10), .step () (.order [])]

/-- The configuration after the run with the cut `Claim`. -/
def cutClaimEnd : SoloConfig :=
  (solo id).endOf (fun e c => !cutsRetry e c) cutClaimRun soloStart

/-- The configuration after the run with the cut `Retry`. -/
def cutRetryEnd : SoloConfig := (solo id).endOf (fun _ _ => true) cutRetryRun soloStart

/-- After a cut `Claim` and `RecoverExpired` the item is in exactly one directory. -/
theorem exactlyOne_after_cut_claim : Reachable (solo id) RetryNotCut soloStart cutClaimEnd ∧
      ∃! d, ∃ fileName, fileName.id = sampleID ∧ (d, fileName) ∈ cutClaimEnd.store.files := by
  have hrun : ((solo id).runIf (fun e c => !cutsRetry e c) cutClaimRun soloStart).any (fun c =>
      decide (.ok (sampleID, false) ∈ c.store.answers ∧ sampleID ∉ c.store.cleaned)) = true := by
    decide +kernel
  obtain ⟨hreach, hgood⟩ :=
    reachable_endOf (fun e c h => by simpa [RetryNotCut] using h) .start hrun
      (rfl : cutClaimEnd = _)
  obtain ⟨henqueued, hkept⟩ := of_decide_eq_true hgood
  have hreturned : cutClaimEnd.procs () = some (.busy (.recoverExpired 10) (.ret {})) := rfl
  exact ⟨hreach, exactlyOne_after_recoverExpired id hreach hreturned henqueued hkept⟩

/-- After a cut `Retry`, `RecoverExpired` leaves the item both in `pending` and in `dead`. -/
theorem two_copies_after_cut_retry :
    Reachable (solo id) (fun _ _ => True) soloStart cutRetryEnd ∧
      cutRetryEnd.procs () = some (.busy (.recoverExpired 10) (.ret {})) ∧
      .ok (sampleID, false) ∈ cutRetryEnd.store.answers ∧
      sampleID ∉ cutRetryEnd.store.cleaned ∧
      (.pending, sampleName) ∈ cutRetryEnd.store.files ∧
      (.dead, sampleName) ∈ cutRetryEnd.store.files := by
  have hrun : ((solo id).runIf (fun _ _ => true) cutRetryRun soloStart).any (fun c =>
      decide (.ok (sampleID, false) ∈ c.store.answers ∧ sampleID ∉ c.store.cleaned ∧
        (.pending, sampleName) ∈ c.store.files ∧ (.dead, sampleName) ∈ c.store.files)) = true := by
    decide +kernel
  obtain ⟨hreach, hgood⟩ := reachable_endOf (fun _ _ _ => trivial) .start hrun
    (rfl : cutRetryEnd = _)
  exact ⟨hreach, rfl, of_decide_eq_true hgood⟩

end AgentBell.Queue
