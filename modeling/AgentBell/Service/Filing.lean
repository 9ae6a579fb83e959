import AgentBell.Queue.Copies
import AgentBell.Service.Outcomes

/-!
# An item with one file

When no step fails, an item that has one file has one file after every operation: a claim moves it
from `pending` to `inflight`, a call moves it on, and a recovery moves it back.  Files of other
items may come and go.
-/

namespace AgentBell.Service

open Interleaving Interleaving.Routine Queue Queue.Faulty

/-! ## The custody of one file -/

/-- An envelope in one directory and nowhere else. -/
def only (directory : Directory) (envelope : Envelope) : Directory → Option Envelope :=
  Function.update (fun _ => none) directory (some envelope)

/-- The machine on which steps work and other processes leave the files of one name alone. -/
abbrev smooth (name : FileName) := sparing false name

section Only

variable {directory other : Directory} {envelope changed : Envelope}

@[simp] lemma only_self : only directory envelope directory = some envelope :=
  Function.update_self ..

lemma only_ne (h : other ≠ directory) : only directory envelope other = none :=
  Function.update_of_ne h ..

lemma eq_of_only_eq_some (h : only directory envelope other = some changed) :
    other = directory ∧ changed = envelope := by
  by_cases hother : other = directory
  · rw [hother, only_self] at h
    exact ⟨hother, (Option.some.inj h).symm⟩
  · rw [only_ne hother] at h
    cases h

lemma update_only_none :
    Function.update (only directory envelope) directory none = fun _ => none := by
  unfold only
  rw [Function.update_idem]
  exact Function.update_eq_self directory (fun _ => (none : Option Envelope))

/-- The file is written to another directory and then removed from the first one. -/
lemma update_only_moved (h : other ≠ directory) :
    Function.update (Function.update (only directory envelope) other (some changed)) directory
      none = only other changed := by
  rw [Function.update_comm h, update_only_none]
  rfl

end Only

section Custody

/-- The custody of an item with other files in `kept`: it may move to where there is none. -/
def filing (name : FileName) (kept : Directory → Option Envelope) : Custody (smooth name) where
  has item s := item.fileName = name ∧
    copies name s = Function.update kept .inflight (some item.envelope)
  gone other directory envelope t := other = name ∧
    copies name t = Function.update (Function.update kept .inflight none) directory (some envelope)
  free directory := kept directory = none
  rewrite := by
    rintro item s updated ⟨rfl, hs⟩ hvalid
    refine meets_locals_bind (meets_bind meets_replace ?_ ?_)
    · rintro _ item' t ⟨rfl, ⟨⟨e, ⟨⟩⟩, -⟩ | ⟨-, hencodable, -, ht⟩⟩
      refine meets_assign ⟨⟨rfl, ?_⟩, fun _ => ⟨rfl, rfl⟩, fun hbad => ?_⟩
      · rw [ht, hs, Function.update_idem, Envelope.encoded_of_valid hvalid]
      · rw [hencodable] at hbad
        cases hbad
    · rintro e item' t ⟨rfl, ⟨-, hwhy, ht⟩ | ⟨⟨⟩, -⟩⟩
      refine ⟨⟨rfl, ht.trans hs⟩, fun hencodable => ?_, fun _ => ⟨⟨e, rfl⟩, rfl⟩⟩
      rcases hwhy with hfaulty | hbad | hnone
      · cases hfaulty
      · rw [hencodable] at hbad
        cases hbad
      · rw [hs, Function.update_self] at hnone
        cases hnone
  advance := by
    rintro item s destination updated ⟨rfl, hs⟩ hne hvalid
    have hthere : copies item.fileName s destination = kept destination := by
      rw [hs, Function.update_of_ne hne]
    refine meets_locals_bind (meets_bind Faulty.meets_transition ?_ ?_)
    · rintro _ item' t ⟨rfl, ⟨⟨e, ⟨⟩⟩, -⟩ | ⟨-, ⟨e, ⟨⟩⟩, -⟩ | ⟨⟨hencodable, hfree⟩, -, ht⟩⟩
      refine meets_assign (.inl ⟨⟨hencodable, hthere ▸ hfree⟩, rfl, ?_⟩)
      rw [ht, hs, Function.update_comm hne, Function.update_idem, Envelope.encoded_of_valid hvalid]
    · rintro e item' t ⟨rfl, ⟨-, hwhy, ht⟩ | ⟨-, -, hfaulty, -⟩ | ⟨-, ⟨⟩, -⟩⟩
      · refine .inr ⟨fun hmoves => ?_, rfl, ht.trans hs⟩
        rcases hwhy with hfaulty | hbad | hsome
        · cases hfaulty
        · rw [hmoves.1] at hbad
          cases hbad
        · rw [hthere, hmoves.2] at hsome
          cases hsome
      · cases hfaulty

end Custody

/-! ## Listing and claiming -/

/-- The files of the item are as they were, or the one in a listed directory was moved aside because
it could not be read. -/
def Listed (name : FileName) (directory : Directory) (f : Directory → Option Envelope)
    (s : Store) : Prop :=
  copies name s = f ∨ ∃ envelope, f directory = some envelope ∧ envelope.listable = false ∧
    copies name s = Function.update f directory none

/-- A listing shows the item as its file has it. -/
def Faithful (name : FileName) (file : Option Envelope) (items : List Item) : Prop :=
  ∀ item ∈ items, item.fileName = name → file = some item.envelope ∧ item.envelope.listable = true

section Listing

variable {name : FileName} {place directory : Directory} {envelope : Envelope} {ℓ : Type} {l : ℓ}
  {s t : Store} {now : Time} {lease : Duration} {f : Directory → Option Envelope}

lemma Listed.congr (h : Listed name directory f s) (hsame : copies name t = copies name s) :
    Listed name directory f t := by
  unfold Listed
  rw [hsame]
  exact h

/-- What is read from the file of the item is what was there. -/
lemma Listed.found (h : Listed name directory f s)
    (hfound : copies name s directory = some envelope) :
    f directory = some envelope ∧ copies name s = f := by
  rcases h with h | ⟨_, -, -, h⟩
  · exact ⟨h ▸ hfound, h⟩
  · rw [h, Function.update_self] at hfound
    cases hfound

/-- A routine that leaves the files of the item alone. -/
lemma meets_spares {faulty : Bool} {α : Type} {p : QueueRoutine ℓ α}
    (hp : p.Within fun c => spares name c = true) :
    Meets (sparing faulty name) (fun _ _ t => copies name t = copies name s) p l s :=
  Within.meets hp (fun _ _ _ _ _ hc hu hexec => (copies_of_sparing hc hexec).trans hu) rfl

/-- A file that cannot be read is moved aside. -/
lemma meets_quarantine (hbad : envelope.listable = false) (hfile : f directory = some envelope)
    (hs : copies name s = f) :
    Meets (smooth name) (fun _ _ t => Listed name directory f t)
      (wrapping "quarantine corrupt queue item"
        (step (.quarantine (directory, name))) : QueueRoutine ℓ Bool) l s := by
  refine meets_wrapping (meets_step (c := .quarantine (directory, name))
    (fun x r u t hu hexec => ?_) nofun)
  simp only [exec] at hexec
  split at hexec
  · cases hexec
    refine .inr ⟨envelope, hfile, hbad, ?_⟩
    have hdrop : copies name (u.drop (directory, name)) = Function.update f directory none := by
      rw [copies_drop_self, hu, hs]
    exact hdrop
  · cases hexec
    exact .inl (hu.trans hs)

/-- A listing shows the item as its file has it, and may move the file aside. -/
lemma walk_listed : Walk (smooth name) directory ℓ (Listed name directory f) (fun _ _ => True)
    (fun _ item => item.fileName = name →
      f directory = some item.envelope ∧ item.envelope.listable = true)
    (fun _ _ => True) where
  refl _ := trivial
  trans _ _ := trivial
  earlier _ h := h
  later _ _ := trivial
  read fileName l s hs := by
    by_cases hname : fileName = name
    · subst hname
      refine meets_step (c := .readFile (directory, fileName)) (fun x r u t hu hexec => ?_) nofun
      cases hexec
      refine ⟨hs.congr hu, trivial, fun found hfound => ?_⟩
      obtain ⟨hfile, hcopies⟩ := (hs.congr hu).found (Except.ok.inj hfound)
      exact ⟨fun hlistable _ => ⟨hfile, hlistable⟩, fun hbad _ =>
        (meets_quarantine hbad hfile hcopies).weaken fun _ _ _ hu =>
          ⟨hu, trivial, fun _ _ => trivial⟩⟩
    · refine Meets.weaken (meets_spares (within_perform rfl)) fun r _ t ht =>
        ⟨hs.congr ht, trivial, fun found _ => ⟨fun _ hsame => absurd hsame hname, fun _ _ => ?_⟩⟩
      exact Meets.weaken (meets_spares (within_wrapping (within_perform (decide_eq_true hname))))
        fun _ _ u hu => ⟨hs.congr (hu.trans ht), trivial, fun _ _ => trivial⟩

lemma meets_listUnlocked_listed (hs : copies name s = f) :
    Meets (smooth name) (fun r _ t => Listed name directory f t ∧
        ∀ items, r = .ok items → Faithful name (f directory) items)
      (listUnlocked directory : QueueRoutine ℓ (List Item)) l s :=
  (walk_listed.listUnlocked (.weaken (meets_spares (within_perform rfl)) fun _ _ _ ht =>
    ⟨.inl (ht.trans hs), trivial, fun _ _ _ => .inl trivial⟩)).weaken fun _ _ _ ht =>
      ⟨ht.1, fun items hitems => (ht.2.2 items hitems).1⟩

/-- The item was claimed: its file has moved from `pending` to `inflight`. -/
structure ClaimedFrom (name : FileName) (f : Directory → Option Envelope) (now : Time)
    (lease : Duration) (item : Item) (t : Store) : Prop where
  free : f .inflight = none
  before : ∃ envelope, f .pending = some envelope ∧ envelope.listable = true ∧
    item.envelope = claimedEnvelope now lease envelope
  held : Held (filing name (Function.update f .pending none)) now item t

/-- The item was not claimed: its file in `pending` is as it was, or it was moved aside because it
could not be read, or removed because there is a file of its name in `inflight`. -/
def Unclaimed (name : FileName) (f : Directory → Option Envelope) (t : Store) : Prop :=
  copies name t = f ∨ (∃ envelope, f .pending = some envelope ∧
    (envelope.listable = false ∨ (f .inflight).isSome = true)) ∧
      copies name t = Function.update f .pending none

lemma Unclaimed.congr (h : Unclaimed name f s) (hsame : copies name t = copies name s) :
    Unclaimed name f t := by
  unfold Unclaimed
  rw [hsame]
  exact h

lemma Unclaimed.inflight (h : Unclaimed name f s) : copies name s .inflight = f .inflight := by
  rcases h with h | ⟨-, h⟩
  · rw [h]
  · rw [h, Function.update_of_ne (by decide)]

/-- The item is written to `inflight`, if there is no file of its name and it can be written. -/
lemma meets_writeClaimed_filed (hlistable : envelope.listable = true) (hs : Unclaimed name f s) :
    Meets (smooth name) (fun r _ t =>
        (∃ e, r = .error e) ∧ copies name t = copies name s ∨
        r = .ok false ∧ (f .inflight).isSome = true ∧ copies name t = copies name s ∨
        r = .ok true ∧ f .inflight = none ∧ (claimedEnvelope now lease envelope).encodable = true ∧
          copies name t = Function.update (copies name s) .inflight
            (some (claimedEnvelope now lease envelope)))
      (writeUnlessExists .inflight name (claimedEnvelope now lease envelope) :
        QueueRoutine ℓ Bool) l s := by
  have hvalid : validateDeliveryEnvelope (claimedEnvelope now lease envelope) = .ok () :=
    (Envelope.listable_iff.mp hlistable).2.2
  refine meets_writeUnlessExists (meets_writeNew.weaken ?_)
  rintro r l' t ⟨-, ⟨rfl, hthere, ht⟩ | ⟨⟨text, rfl⟩, -, ht⟩ | ⟨rfl, hencodable, hfree, ht⟩⟩
  · rw [hs.inflight] at hthere
    exact .inr (.inl ⟨rfl, hthere, ht⟩)
  · exact .inl ⟨⟨_, rfl⟩, ht⟩
  · rw [hs.inflight] at hfree
    rw [Envelope.encoded_of_valid hvalid] at ht
    exact .inr (.inr ⟨rfl, hfree, hencodable, ht⟩)

/-- What a claim does to the files of the item. -/
def ClaimEnds (name : FileName) (f : Directory → Option Envelope) (now : Time) (lease : Duration)
    (r : Except OsError (Option Item)) (t : Store) : Prop :=
  (∀ item, r = .ok (some item) → item.fileName = name → ClaimedFrom name f now lease item t) ∧
  ((∀ item, r = .ok (some item) → item.fileName ≠ name) → Unclaimed name f t)

lemma claimEnds_error {e : OsError} (h : Unclaimed name f t) :
    ClaimEnds name f now lease (.error e) t :=
  ⟨by rintro _ ⟨⟩, fun _ => h⟩

/-- The file of the item is removed from `pending`. -/
lemma meets_remove_pending :
    Meets (smooth name) (fun r _ u => r = .ok () ∧
        copies name u = Function.update (copies name s) .pending none)
      (step (.remove (.pending, name)) : QueueRoutine ℓ Unit) l s := by
  refine meets_step (c := .remove (.pending, name)) (fun x r u v hu hexec => ?_) nofun
  cases hexec
  refine ⟨rfl, ?_⟩
  rw [copies_drop_self, hu]

lemma meets_claimFirst_filed (items : List Item) (hfaithful : Faithful name (f .pending) items)
    (hs : Unclaimed name f s) :
    Meets (smooth name) (fun r _ t => ClaimEnds name f now lease r t)
      (claimFirst now lease items : QueueRoutine ℓ (Option Item)) l s := by
  induction items generalizing s l with
  | nil => exact meets_pure ⟨(by rintro _ ⟨⟩), fun _ => hs⟩
  | cons first rest ih =>
    have hrest : Faithful name (f .pending) rest :=
      fun item hitem => hfaithful item (List.mem_cons_of_mem _ hitem)
    unfold claimFirst
    split
    · exact ih hrest hs
    by_cases hname : first.fileName = name
    · obtain ⟨hfile, hlistable⟩ := hfaithful first List.mem_cons_self hname
      have hremoved : ∀ {t : Store}, (f .inflight).isSome = true →
          copies name t = Function.update (copies name s) .pending none → Unclaimed name f t := by
        intro t hthere ht
        refine .inr ⟨⟨_, hfile, .inr hthere⟩, ?_⟩
        rcases hs with hs | ⟨-, hs⟩
        · rw [ht, hs]
        · rw [ht, hs, Function.update_idem]
      rw [hname]
      refine meets_bind (meets_writeClaimed_filed hlistable hs) ?_ ?_
      · rintro written l' t (⟨⟨e, ⟨⟩⟩, -⟩ | ⟨hwritten, hthere, ht⟩ |
          ⟨hwritten, hfree, hencodable, ht⟩)
        -- the file in `inflight` stays, and the one in `pending` goes
        · obtain rfl := Except.ok.inj hwritten
          have hremove : Meets (smooth name)
              (fun _ _ u => copies name u = Function.update (copies name t) .pending none)
              (catching (step (.remove (.pending, name))) fun _ => pure () : QueueRoutine ℓ Unit)
              l' t :=
            meets_catching meets_remove_pending (fun _ _ _ h => h.2) fun _ _ _ h => nomatch h.1
          refine meets_bind hremove (fun _ l'' u hu => ?_) fun _ _ u hu => ?_
          · exact ih hrest (hremoved hthere (ht ▸ hu))
          · exact claimEnds_error (hremoved hthere (ht ▸ hu))
        · obtain rfl := Except.ok.inj hwritten
          have hcopies : copies name s = f := by
            rcases hs with hs | ⟨⟨found, hfound, hbad | hsome⟩, -⟩
            · exact hs
            · rw [Option.mem_unique hfile hfound, hbad] at hlistable
              cases hlistable
            · rw [hfree] at hsome
              cases hsome
          have hvalid : validateDeliveryEnvelope (claimedEnvelope now lease first.envelope) =
              .ok () := (Envelope.listable_iff.mp hlistable).2.2
          have hremove : Meets (smooth name) (fun r _ u => r = .ok () ∧
              copies name u = Function.update (copies name t) .pending none)
              (wrapping "finish queue claim" (step (.remove (.pending, name))) :
                QueueRoutine ℓ Unit) l' t := by
            refine meets_wrapping (meets_remove_pending.weaken ?_)
            rintro (e | _) _ u ⟨hr, hu⟩
            · cases hr
            · exact ⟨rfl, hu⟩
          refine meets_bind hremove ?_ fun _ _ _ h => nomatch h.1
          rintro _ l'' u ⟨-, hu⟩
          refine meets_pure ⟨fun item hitem _ => ?_, fun hnone => ?_⟩
          · cases hitem
            refine ⟨hfree, ⟨_, hfile, hlistable, rfl⟩, ⟨rfl, hvalid, hencodable, rfl⟩, rfl, ?_⟩
            rw [hu, ht, hcopies, Function.update_comm (by decide)]
          · exact absurd rfl (hnone _ rfl)
      · rintro e l' t (⟨-, ht⟩ | ⟨⟨⟩, -⟩ | ⟨⟨⟩, -⟩)
        exact claimEnds_error (hs.congr ht)
    · refine meets_bind (meets_spares (within_writeUnlessExists rfl (decide_eq_true hname))) ?_
        fun e _ t ht => claimEnds_error (hs.congr ht)
      intro written l' t ht
      cases written with
      | true =>
        refine meets_bind (meets_spares (within_wrapping (within_remove (decide_eq_true hname))))
          ?_ fun e _ u hu => claimEnds_error (hs.congr (hu.trans ht))
        intro _ l'' u hu
        refine meets_pure ⟨fun item hitem hsame => ?_, fun _ => hs.congr (hu.trans ht)⟩
        cases hitem
        exact absurd hsame hname
      | false =>
        refine meets_bind (meets_spares ((within_remove (decide_eq_true hname)).catching
          fun _ => within_pure _)) ?_ fun e _ u hu => claimEnds_error (hs.congr (hu.trans ht))
        exact fun _ l'' u hu => ih hrest (hs.congr (hu.trans ht))

/-- A claim takes the item from its file in `pending`, or leaves it unclaimed. -/
theorem meets_claim_filed (hs : copies name s = f) :
    Meets (smooth name) (fun r _ t => ClaimEnds name f now lease r t)
      (claim now lease : QueueRoutine ℓ (Option Item)) l s := by
  have hunclaimed : ∀ {t : Store}, Listed name .pending f t → Unclaimed name f t := by
    rintro t (ht | ⟨envelope, hfile, hbad, ht⟩)
    · exact .inl ht
    · exact .inr ⟨⟨envelope, hfile, .inl hbad⟩, ht⟩
  refine meets_bind (meets_listUnlocked_listed hs) ?_ fun e _ t h =>
    claimEnds_error (hunclaimed h.1)
  rintro items l' t ⟨ht, hitems⟩
  exact meets_claimFirst_filed items (hitems items rfl) (hunclaimed ht)

/-! ## Recovery -/

/-- The item has one file, or its file was moved aside because it could not be read. -/
def Filed (name : FileName) (directory : Directory) (envelope : Envelope) (s : Store) : Prop :=
  copies name s = only directory envelope ∨
    envelope.listable = false ∧ copies name s = fun _ => none

lemma Filed.congr (h : Filed name place envelope s) (hsame : copies name t = copies name s) :
    Filed name place envelope t := by
  unfold Filed
  rw [hsame]
  exact h

/-- The only file of an item may be moved aside by a listing. -/
lemma Filed.listed (hs : Filed name place envelope s)
    (h : Listed name directory (copies name s) t) : Filed name place envelope t := by
  rcases h with h | ⟨found, hfound, hbad, h⟩
  · exact hs.congr h
  rcases hs with hs | ⟨-, hs⟩
  · rw [hs] at hfound
    obtain ⟨rfl, rfl⟩ := eq_of_only_eq_some hfound
    rw [hs, update_only_none] at h
    exact .inr ⟨hbad, h⟩
  · rw [hs] at hfound
    cases hfound

/-- The item is where it was, or back in `pending`. -/
def Restored (name : FileName) (place : Directory) (envelope : Envelope) (now : Time) (s : Store) :
    Prop :=
  Filed name place envelope s ∨
    place = .inflight ∧ copies name s = only .pending (recoveredEnvelope now envelope)

/-- A look at the other directories for the file of the item. -/
lemma meets_completedTransition_filed :
    Meets (smooth name) (fun r _ t => copies name t = copies name s ∧
        r = .ok ((copies name s .pending).isSome || (copies name s .history).isSome ||
          (copies name s .dead).isSome))
      (completedTransition name : QueueRoutine ℓ Bool) l s := by
  have hlook : ∀ (l : ℓ) (u : Store) (directory : Directory),
      Meets (smooth name) (fun r _ t => copies name t = copies name u ∧
        r = .ok (copies name u directory).isSome)
        (looksPresent (directory, name) : QueueRoutine ℓ Bool) l u := by
    intro l u directory
    have hstat : Meets (smooth name) (fun r _ t => copies name t = copies name u ∧
        r = .ok (copies name u directory).isSome)
        (step (.stat (directory, name)) : QueueRoutine ℓ Bool) l u :=
      meets_stat (fun t ht => ⟨ht, rfl⟩) nofun
    exact meets_catching hstat (fun _ _ _ h => h) fun _ _ _ h => nomatch h.2
  refine meets_bind (hlook l s .pending) ?_ fun _ _ _ h => nomatch h.2
  rintro present l' t ⟨ht, hpresent⟩
  obtain rfl := Except.ok.inj hpresent
  cases hpending : (copies name s .pending).isSome with
  | true => exact meets_pure ⟨ht, rfl⟩
  | false =>
    refine meets_bind (hlook l' t .history) ?_ fun _ _ _ h => nomatch h.2
    rintro present l'' u ⟨hu, hpresent⟩
    obtain rfl := Except.ok.inj hpresent
    rw [ht] at hu ⊢
    cases hhistory : (copies name s .history).isSome with
    | true => exact meets_pure ⟨hu, rfl⟩
    | false =>
      refine (hlook l'' u .dead).weaken fun r _ v h => ⟨h.1.trans hu, ?_⟩
      rw [h.2, hu]
      rfl

/-- The item is brought back from `inflight` at most once. -/
lemma meets_recoverItem_filed {recovered : Nat} {rest : List Item} {item : Item}
    (hlistable : envelope.listable = true) (hplace : place = .inflight)
    (hname : item.fileName = name) (hsame : item.envelope = envelope)
    (hs : Restored name place envelope now s)
    (hrest : ∀ (l : ℓ) (t : Store) (recovered : Nat), Restored name place envelope now t →
      Meets (smooth name) (fun _ _ t => Restored name place envelope now t)
        (recoverItems now recovered rest : QueueRoutine ℓ Nat) l t) :
    Meets (smooth name) (fun _ _ t => Restored name place envelope now t)
      (recoverItems now recovered (item :: rest) : QueueRoutine ℓ Nat) l s := by
  subst hname hplace
  refine meets_bind meets_completedTransition_filed ?_ fun _ _ _ h => nomatch h.2
  rintro completed l' t ⟨ht, hcompleted⟩
  obtain rfl := Except.ok.inj hcompleted
  rcases hs with (hs | ⟨hbad, -⟩) | ⟨-, hs⟩
  · rw [hs] at ht ⊢
    rw [only_ne (by decide), only_ne (by decide), only_ne (by decide)]
    simp only [Option.isSome_none, Bool.or_self, Bool.false_eq_true, if_false]
    split
    · exact hrest l' t recovered (.inl (.inl ht))
    rw [hsame]
    have hvalid : validateDeliveryEnvelope (recoveredEnvelope now envelope) = .ok () :=
      (Envelope.listable_iff.mp hlistable).2.2
    refine meets_bind Faulty.meets_transition ?_ ?_
    · rintro _ l'' u ⟨-, ⟨⟨e, ⟨⟩⟩, -⟩ | ⟨-, ⟨e, ⟨⟩⟩, -⟩ | ⟨-, -, hu⟩⟩
      rw [ht, update_only_moved (by decide), Envelope.encoded_of_valid hvalid] at hu
      exact hrest l'' u _ (.inr ⟨rfl, hu⟩)
    · rintro e l'' u ⟨-, ⟨-, -, hu⟩ | ⟨-, -, hfaulty, -⟩ | ⟨-, ⟨⟩, -⟩⟩
      · exact .inl (.inl (hu.trans ht))
      · cases hfaulty
  · rw [hlistable] at hbad
    cases hbad
  · rw [hs] at ht ⊢
    have hremove : Meets (smooth item.fileName)
        (fun _ _ u => copies item.fileName u = copies item.fileName t)
        (catching (step (.remove (.inflight, item.fileName))) fun _ => pure () :
          QueueRoutine ℓ Unit) l' t := by
      have hstep : Meets (smooth item.fileName)
          (fun r _ u => r = .ok () ∧ copies item.fileName u = copies item.fileName t)
          (step (.remove (.inflight, item.fileName)) : QueueRoutine ℓ Unit) l' t := by
        refine meets_step (c := .remove (.inflight, item.fileName)) (fun x r u v hu hexec => ?_)
          nofun
        cases hexec
        refine ⟨rfl, ?_⟩
        rw [copies_drop_self, hu, ht]
        exact Function.update_eq_self_iff.mpr (only_ne (by decide)).symm
      exact meets_catching hstep (fun _ _ _ h => h.2) fun _ _ _ h => nomatch h.1
    refine meets_bind hremove ?_ fun _ _ u hu => .inr ⟨rfl, hu.trans ht⟩
    exact fun _ l'' u hu => hrest l'' u recovered (.inr ⟨rfl, hu.trans ht⟩)

lemma meets_recoverItems_filed {recovered : Nat} (items : List Item)
    (hfaithful : ∀ item ∈ items, item.fileName = name →
      place = .inflight ∧ item.envelope = envelope ∧ envelope.listable = true)
    (hs : Restored name place envelope now s) :
    Meets (smooth name) (fun _ _ t => Restored name place envelope now t)
      (recoverItems now recovered items : QueueRoutine ℓ Nat) l s := by
  have hcongr : ∀ {t u : Store}, Restored name place envelope now t →
      copies name u = copies name t → Restored name place envelope now u := by
    intro t u ht hu
    rcases ht with ht | ⟨hplace, ht⟩
    · exact .inl (ht.congr hu)
    · exact .inr ⟨hplace, hu.trans ht⟩
  induction items generalizing s l recovered with
  | nil => exact meets_pure hs
  | cons first rest ih =>
    have hrest : ∀ item ∈ rest, item.fileName = name →
        place = .inflight ∧ item.envelope = envelope ∧ envelope.listable = true :=
      fun item hitem => hfaithful item (List.mem_cons_of_mem _ hitem)
    by_cases hname : first.fileName = name
    · obtain ⟨hinflight, hsame, hlistable⟩ := hfaithful first List.mem_cons_self hname
      exact meets_recoverItem_filed hlistable hinflight hname hsame hs fun _ _ _ ht =>
        ih hrest ht
    · refine meets_bind (meets_spares (within_completedTransition fun _ => rfl)) ?_
        fun e _ t ht => hcongr hs ht
      intro completed l' t ht
      split
      · refine meets_bind (meets_spares ((within_remove (decide_eq_true hname)).catching
          fun _ => within_pure _)) ?_ fun e _ u hu => hcongr hs (hu.trans ht)
        exact fun _ l'' u hu => ih hrest (hcongr hs (hu.trans ht))
      split
      · exact ih hrest (hcongr hs ht)
      · refine meets_bind (meets_spares (within_transition rfl (decide_eq_true hname)
          (decide_eq_true hname))) ?_ fun e _ u hu => hcongr hs (hu.trans ht)
        exact fun _ l'' u hu => ih hrest (hcongr hs (hu.trans ht))

/-- A recovery leaves the item where it is, or brings it back to `pending`. -/
theorem meets_recoverExpired_filed (hs : Filed name place envelope s) :
    Meets (smooth name) (fun _ _ t => Restored name place envelope now t)
      (recoverExpired now : QueueRoutine ℓ Nat) l s := by
  refine meets_bind (meets_listUnlocked_listed rfl) ?_ fun e _ t h => .inl (hs.listed h.1)
  rintro items l' t ⟨ht, hitems⟩
  refine meets_recoverItems_filed items (fun item hitem hname => ?_) (.inl (hs.listed ht))
  obtain ⟨hfile, hlistable⟩ := hitems items rfl item hitem hname
  rcases hs with hs | ⟨-, hs⟩
  · rw [hs] at hfile
    obtain ⟨hplace, hsame⟩ := eq_of_only_eq_some hfile
    exact ⟨hplace.symm, hsame, hsame ▸ hlistable⟩
  · rw [hs] at hfile
    cases hfile

end Listing

end AgentBell.Service
