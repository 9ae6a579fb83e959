import AgentBell.Queue.Outcomes

/-!
# Stores a killed process leaves behind

Every operation moves an item by writing the new file before removing the old one, so a
process that is killed can leave two copies.  `Recoverable` is what it leaves behind: apart
from `inflight`, no two directories hold a file of one name.  `Holds` says that an item the
process got from `Claim` is in `inflight` only.

The operations on one item keep both at each of their commands, when nobody else works on
the queue: `Claim`, and those on an item that was claimed.
-/

namespace AgentBell.Queue

open Interleaving Interleaving.Routine

variable {d source c destination : Directory} {fileName : FileName} {envelope updated : Envelope}
  {path : ItemPath} {held : Nat} {item : Item}

/-- Every envelope is valid, every id names one file name and comes from the random source,
and every id that was answered is stored or was cleaned up. -/
structure Accounted (s : Store) : Prop where
  valid : s.Valid
  named : ∀ d d' a b, (d, a) ∈ s.files → (d', b) ∈ s.files → a.id = b.id → a = b
  issued : ∀ d fileName, (d, fileName) ∈ s.files → fileName.id ∈ s.issued
  kept : ∀ id again, Except.ok (id, again) ∈ s.answers →
    id ∈ s.cleaned ∨ ∃ d fileName, fileName.id = id ∧ (d, fileName) ∈ s.files

/-- What a kill may leave behind and `RecoverExpired` can repair. -/
structure Recoverable (s : Store) : Prop extends Accounted s where
  single : ∀ fileName d d', d ≠ .inflight → d' ≠ .inflight →
    (d, fileName) ∈ s.files → (d', fileName) ∈ s.files → d = d'

/-- A file name that is in one directory and in no other. -/
def Store.Sole (s : Store) (directory : Directory) (fileName : FileName) : Prop :=
  ∀ d, (d, fileName) ∈ s.files ↔ d = directory

/-- The items a process may still act on: each is in `inflight` only, its envelope is fit to
be written again, and no two of them are the same item. -/
structure Holds (m : Memory) (s : Store) : Prop where
  sole : ∀ item ∈ m.held, item.envelope.state = .inflight →
    s.Sole .inflight item.fileName ∧ item.Fits
  distinct : ∀ (i j : Nat) (a b : Item), m.held[i]? = some a → m.held[j]? = some b → i ≠ j →
    a.envelope.state = .inflight → b.envelope.state = .inflight → a.fileName ≠ b.fileName

/-- The store a process may rest in. -/
structure Intact (m : Memory) (s : Store) : Prop where
  recoverable : Recoverable s
  holds : Holds m s

/-! ## Steps that keep the store recoverable -/

variable {s t : Store}

/-- A store that is recoverable stays so when items and records stay the same. -/
lemma Recoverable.congr (h : Recoverable s) (hst : s.SameItems t) : Recoverable t := by
  obtain ⟨hfiles, hissued, -, hanswers, hcleaned⟩ := hst
  refine { valid := ?_, named := ?_, issued := ?_, kept := ?_, single := ?_ }
  · intro path envelope hlookup
    rw [hfiles] at hlookup
    exact h.valid path envelope hlookup
  · rw [hfiles]
    exact h.named
  · rw [hfiles, hissued]
    exact h.issued
  · rw [hanswers, hcleaned, hfiles]
    exact h.kept
  · rw [hfiles]
    exact h.single

variable {m : Memory}

/-- The items a process holds depend on the files only. -/
lemma Holds.frame (h : Holds m s) (hframe : ∀ item ∈ m.held, item.envelope.state = .inflight →
      ∀ d, (d, item.fileName) ∈ t.files ↔ (d, item.fileName) ∈ s.files) : Holds m t where
  sole := by
    intro item hitem hstate
    obtain ⟨hsole, hfits⟩ := h.sole item hitem hstate
    exact ⟨fun d => (hframe item hitem hstate d).trans (hsole d), hfits⟩
  distinct := h.distinct

/-- A resting process may go on resting when items and records stay the same. -/
lemma Intact.congr (h : Intact m s) (hst : s.SameItems t) : Intact m t where
  recoverable := h.recoverable.congr hst
  holds := h.holds.frame fun _ _ _ d => by rw [hst.files]

/-- Writing a file whose id belongs to no other name. -/
lemma Accounted.insert (h : Accounted s) (hfits : envelope.Fits fileName)
    (henc : envelope.encodable = true) (hissued : fileName.id ∈ s.issued)
    (hnamed : ∀ d' other, (d', other) ∈ s.files → other.id = fileName.id → other = fileName) :
    Accounted (s.put (d, fileName) envelope) where
  valid := h.valid.insert hfits henc rfl
  named := by
    intro d1 d2 a b ha hb hid
    simp only [Store.mem_put, Prod.mk.injEq] at ha hb
    rcases ha with ⟨rfl, rfl⟩ | ha <;> rcases hb with ⟨rfl, rfl⟩ | hb
    · rfl
    · exact (hnamed d2 b hb hid.symm).symm
    · exact hnamed d1 a ha hid
    · exact h.named d1 d2 a b ha hb hid
  issued := by
    intro d' other hother
    simp only [Store.mem_put, Prod.mk.injEq] at hother
    rcases hother with ⟨rfl, rfl⟩ | hother
    · exact hissued
    · exact h.issued d' other hother
  kept := by
    intro id again hanswer
    rcases h.kept id again hanswer with hcleaned | ⟨d', other, hid, hother⟩
    · exact Or.inl hcleaned
    · exact Or.inr ⟨d', other, hid, Store.mem_put.mpr (Or.inr hother)⟩

/-- Writing another copy of a file the store has. -/
lemma Accounted.insert_copy (h : Accounted s) (hfits : envelope.Fits fileName)
    (henc : envelope.encodable = true) (hsource : (source, fileName) ∈ s.files) :
    Accounted (s.put (d, fileName) envelope) := by
  refine h.insert hfits henc (h.issued source fileName hsource) ?_
  intro d' other hother hid
  exact h.named d' source other fileName hother hsource hid

/-- Removing a file: the id of the removed file must be found elsewhere or count as cleaned
up. -/
lemma Accounted.erase (path : ItemPath) (h : Accounted s) (hfiles : t.files = s.files.erase path)
    (hissued : t.issued = s.issued) (hanswers : t.answers = s.answers)
    (hcleaned : ∀ id ∈ s.cleaned, id ∈ t.cleaned)
    (hcopy : path ∈ s.files → path.2.id ∈ t.cleaned ∨ ∃ d, d ≠ path.1 ∧ (d, path.2) ∈ s.files) :
    Accounted t where
  valid := h.valid.erase hfiles
  named := by
    intro d1 d2 a b ha hb hid
    rw [hfiles, AList.mem_erase] at ha hb
    exact h.named d1 d2 a b ha.2 hb.2 hid
  issued := by
    intro d' other hother
    rw [hfiles, AList.mem_erase] at hother
    rw [hissued]
    exact h.issued d' other hother.2
  kept := by
    intro id again hanswer
    rw [hanswers] at hanswer
    rcases h.kept id again hanswer with hclean | ⟨d, fileName, hid, hmem⟩
    · exact Or.inl (hcleaned id hclean)
    · by_cases hpath : (d, fileName) = path
      · subst hpath
        rcases hcopy hmem with hclean | ⟨d', hne, hother⟩
        · exact Or.inl (hid ▸ hclean)
        · refine Or.inr ⟨d', fileName, hid, ?_⟩
          rw [hfiles, AList.mem_erase]
          exact ⟨fun heq => hne (congrArg Prod.fst heq), hother⟩
      · refine Or.inr ⟨d, fileName, hid, ?_⟩
        rw [hfiles, AList.mem_erase]
        exact ⟨hpath, hmem⟩

/-- Removing a file when its name is in another directory. -/
lemma Accounted.drop (h : Accounted s) (hne : c ≠ d) (hcopy : (c, fileName) ∈ s.files) :
    Accounted (s.drop (d, fileName)) :=
  h.erase (d, fileName) rfl rfl rfl (fun _ hid => hid) fun _ => Or.inr ⟨c, hne, hcopy⟩

/-- Writing a file as the one in `inflight` or the only one outside of it. -/
lemma Recoverable.put (h : Recoverable s) (hput : Accounted (s.put (d, fileName) envelope))
    (honly : d ≠ .inflight → ∀ d', d' ≠ .inflight → (d', fileName) ∈ s.files → d' = d) :
    Recoverable (s.put (d, fileName) envelope) where
  toAccounted := hput
  single := by
    intro name d1 d2 h1 h2 hd1 hd2
    simp only [Store.mem_put, Prod.mk.injEq] at hd1 hd2
    rcases hd1 with ⟨rfl, rfl⟩ | hd1 <;> rcases hd2 with ⟨rfl, hname⟩ | hd2
    · rfl
    · exact (honly h1 d2 h2 hd2).symm
    · subst hname
      exact honly h2 d1 h1 hd1
    · exact h.single name d1 d2 h1 h2 hd1 hd2

/-- Removing a file leaves at most as many copies. -/
lemma Recoverable.erase (h : Recoverable s) (hfiles : t.files = s.files.erase path)
    (ht : Accounted t) : Recoverable t where
  toAccounted := ht
  single := by
    intro name d1 d2 h1 h2 hd1 hd2
    rw [hfiles, AList.mem_erase] at hd1 hd2
    exact h.single name d1 d2 h1 h2 hd1.2 hd2.2

/-! ## Writing and moving files -/

/-- A program that keeps the store recoverable at each of its commands, when nobody else
works on the queue. -/
abbrev Keeps {α : Type} (post : α → Store → Prop) (p : QueueProg α) (s : Store) : Prop :=
  Safe machine Alone (fun _ => Recoverable) post p s

/-- A command that reads or handles idempotency markers. -/
lemma keeps_quiet {α : Type} {post : α → Store → Prop} {c : Cmd} {next : Reply c → QueueProg α}
    (hs : Recoverable s) (hquiet : c.quiet = true)
    (hnext : ∀ x r t, exec x c s = some (r, t) → s.SameItems t → Keeps post (next r) t) :
    Keeps post (.cmd c next) s := by
  refine safe_alone_cmd hs fun x r t hx => ?_
  exact hnext x r t hx (sameItems_of_quiet hquiet hx)

variable {ℓ : Type} {l : ℓ} {post : Except OsError Unit × ℓ → Store → Prop}

/-- Writing a file that must not exist yet. -/
lemma keeps_writeNew (hs : Recoverable s)
    (hexist : (d, fileName) ∈ s.files → post (.error .exist, l) s)
    (hfail : envelope.encodable = false → ∀ text, post (.error (.other text), l) s)
    (hok : (d, fileName) ∉ s.files → envelope.encodable = true →
      post (.ok (), l) (s.put (d, fileName) envelope)) :
    Keeps post ((writeNew d fileName envelope).working l) s := by
  simp only [writeNew, write, working_perform_bind, working_raiseIf_bind, working_perform]
  refine safe_alone_cmd hs ?_
  intro x r t hx
  cases hx
  split
  · rename_i hmem
    exact safe_alone_ret (hexist (of_decide_eq_true hmem))
  · rename_i hnew
    split
    · exact safe_alone_ret (hfail ‹_› _)
    · rename_i henc
      refine safe_alone_cmd hs ?_
      intro x r t hx
      cases hx
      exact safe_alone_ret
        (hok (fun hmem => hnew (decide_eq_true hmem)) (Bool.not_eq_false _ ▸ henc))

/-- Moving a file: written to its destination first, then removed from its source. -/
lemma keeps_transitionEnvelope (hs : Recoverable s)
    (hexist : (destination, fileName) ∈ s.files → post (.error .exist, l) s)
    (hfail : envelope.encodable = false → ∀ text, post (.error (.other text), l) s)
    (hboth : (destination, fileName) ∉ s.files → envelope.encodable = true →
      Recoverable (s.put (destination, fileName) envelope))
    (hok : (destination, fileName) ∉ s.files → envelope.encodable = true →
      post (.ok (), l) ((s.put (destination, fileName) envelope).drop (source, fileName))) :
    Keeps post ((transitionEnvelope source destination fileName envelope).working l) s := by
  rw [transitionEnvelope, working_bind]
  refine Safe.bind_alone (Q := fun o t => either (fun err => post (.error err, o.2) t)
    (fun _ => Recoverable t ∧ post (.ok (), o.2) (t.drop (source, fileName))) o.1) ?_ ?_
  · exact keeps_writeNew hs hexist hfail fun hnew henc => ⟨hboth hnew henc, hok hnew henc⟩
  · rintro ⟨err | ⟨⟩, l'⟩ t ht
    · exact safe_alone_ret ht
    · refine safe_alone_cmd ht.1 ?_
      intro x r v hx
      cases hx
      exact safe_alone_ret ht.2

/-! ## Acting on a held item -/

/-- Replacing a held item by a new version of it, when the files of the other held items
stay where they are. -/
lemma Holds.set {updated : Item} (h : Holds m s) (hitem : m.held[held]? = some item)
    (hstate : item.envelope.state = .inflight) (hname : updated.fileName = item.fileName)
    (hupdated : updated.envelope.state = .inflight →
      t.Sole .inflight updated.fileName ∧ updated.Fits)
    (hframe : ∀ d fileName, fileName ≠ item.fileName →
      ((d, fileName) ∈ t.files ↔ (d, fileName) ∈ s.files)) : Holds ⟨m.held.set held updated⟩ t := by
  have hold : ∀ j (other : Item), (m.held.set held updated)[j]? = some other →
      (j = held ∧ other = updated) ∨ (j ≠ held ∧ m.held[j]? = some other) := by
    intro j other hj
    by_cases hheld : held = j
    · subst hheld
      simp only [List.getElem?_set_self', hitem, Option.map_eq_map, Option.map_some,
        Function.const_apply, Option.some.injEq] at hj
      exact Or.inl ⟨rfl, hj.symm⟩
    · rw [List.getElem?_set_ne hheld] at hj
      exact Or.inr ⟨Ne.symm hheld, hj⟩
  constructor
  · intro other hother hinflight
    obtain ⟨j, hj⟩ := List.mem_iff_getElem?.mp hother
    rcases hold j other hj with ⟨-, rfl⟩ | ⟨hne, hj⟩
    · exact hupdated hinflight
    · obtain ⟨hsole, hfits⟩ := h.sole other (List.mem_of_getElem? hj) hinflight
      have hname : other.fileName ≠ item.fileName :=
        h.distinct j held other item hj hitem hne hinflight hstate
      exact ⟨fun d => (hframe d _ hname).trans (hsole d), hfits⟩
  · intro i j a b hi hj hij ha hb
    rcases hold i a hi with ⟨rfl, rfl⟩ | ⟨-, hold_i⟩ <;>
      rcases hold j b hj with ⟨rfl, rfl⟩ | ⟨-, hold_j⟩
    · exact absurd rfl hij
    · rw [hname]
      exact h.distinct i j item b hitem hold_j hij hstate hb
    · rw [hname]
      exact h.distinct i j a item hold_i hitem hij ha hstate
    · exact h.distinct i j a b hold_i hold_j hij ha hb

/-- A held item that is as it was. -/
lemma Memory.set_self (hitem : m.held[held]? = some item) :
    (⟨m.held.set held item⟩ : Memory) = m := by
  obtain ⟨hlt, rfl⟩ := List.getElem?_eq_some_iff.mp hitem
  rw [List.set_getElem_self]

/-- Moving a held item out of `inflight`. -/
lemma keeps_advance (h : Intact m s) (hitem : m.held[held]? = some item)
    (hstate : item.envelope.state = .inflight) (hdestination : destination ≠ .inflight)
    (hfits : updated.Fits item.fileName) (hleft : updated.state ≠ .inflight) :
    Keeps (fun o t => Intact ⟨m.held.set held o.2⟩ t)
      ((advance destination updated).working item) s := by
  obtain ⟨hsole, -⟩ := h.holds.sole item (List.mem_of_getElem? hitem) hstate
  have hput : updated.encodable = true →
      Recoverable (s.put (destination, item.fileName) updated) := by
    intro henc
    refine h.recoverable.put ?_ ?_
    · exact h.recoverable.insert_copy hfits henc ((hsole .inflight).mpr rfl)
    · intro _ d' hd' hmem
      exact absurd ((hsole d').mp hmem) hd'
  rw [advance, working_locals_bind, working_bind]
  refine Safe.bind_alone (Q := fun o t => either (fun _ => Intact ⟨m.held.set held o.2⟩ t)
    (fun _ => Intact ⟨m.held.set held { o.2 with envelope := updated }⟩ t) o.1) ?_ ?_
  · have hkept : Intact ⟨m.held.set held item⟩ s := (Memory.set_self hitem).symm ▸ h
    refine keeps_transitionEnvelope h.recoverable (fun _ => hkept) (fun _ _ => hkept)
      (fun _ henc => hput henc) fun _ henc => ⟨?_, ?_⟩
    · refine (hput henc).erase rfl ((hput henc).drop hdestination ?_)
      exact Store.mem_put.mpr (Or.inl rfl)
    · refine h.holds.set hitem hstate rfl (fun hin => absurd hin hleft) ?_
      intro d fileName hne
      simp [hne]
  · rintro ⟨err | ⟨⟩, item'⟩ t ht
    · exact safe_alone_ret ht
    · exact safe_alone_ret ht

/-- Overwriting the file of a held item. -/
lemma keeps_rewrite (h : Intact m s) (hitem : m.held[held]? = some item)
    (hstate : item.envelope.state = .inflight) (hfits : updated.Fits item.fileName) :
    Keeps (fun o t => Intact ⟨m.held.set held o.2⟩ t) ((rewrite updated).working item) s := by
  obtain ⟨hsole, -⟩ := h.holds.sole item (List.mem_of_getElem? hitem) hstate
  have hthere : (.inflight, item.fileName) ∈ s.files := (hsole .inflight).mpr rfl
  have hkept : Intact ⟨m.held.set held item⟩ s := (Memory.set_self hitem).symm ▸ h
  rw [rewrite, working_locals_bind, working_bind, replace, working_wrapping_bind]
  refine safe_alone_cmd h.recoverable ?_
  intro x r t hx
  cases hx
  simp only [working_raiseIf_bind, hthere, decide_true, write]
  cases henc : updated.encodable with
  | false => exact safe_alone_ret hkept
  | true =>
    refine safe_alone_cmd h.recoverable ?_
    intro x r t hx
    cases hx
    refine safe_alone_ret ⟨?_, ?_⟩
    · exact h.recoverable.put (h.recoverable.insert_copy hfits henc hthere)
        fun hne => absurd rfl hne
    · refine h.holds.set hitem hstate rfl (fun _ => ⟨fun d => ?_, hfits⟩) ?_
      · simp only [Store.mem_put, Prod.mk.injEq, and_true, hsole d, or_self]
      · intro d fileName hne
        simp [hne]

/-- Every operation on a held item keeps the queue intact. -/
lemma keeps_held {α : Type} {p : QueueProg (Except OsError α × Item)} (h : Intact m s)
    (hitem : m.held[held]? = some item) (hp : HeldOutcome item p) :
    Keeps (fun o t => Intact ⟨m.held.set held o.2⟩ t) p s := by
  have hfit := fun inflight => (h.holds.sole item (List.mem_of_getElem? hitem) inflight).2
  cases hp with
  | kept result => exact safe_alone_ret ((Memory.set_self hitem).symm ▸ h)
  | advance inflight out left fits =>
    exact keeps_advance h hitem inflight out (fits (hfit inflight)) left
  | rewrite inflight fits => exact keeps_rewrite h hitem inflight (fits (hfit inflight))
  | resolve ready inflight fits =>
    rw [working_bind]
    refine Safe.bind_alone (keeps_rewrite h hitem inflight (fits (hfit inflight))) ?_
    rintro ⟨message | ⟨⟩, updated⟩ t ht
    · exact safe_alone_ret ht
    · exact safe_alone_ret ht

/-! ## Claiming an item -/

/-- Listing a directory when nobody else works on the queue: it succeeds, and the items are
the files of the directory. -/
lemma keeps_listUnlocked (hs : Recoverable s) (directory : Directory) :
    Keeps (fun o t => t = s ∧ ∃ items, o = (.ok items, ()) ∧
        (∀ item ∈ items, s.files.lookup (directory, item.fileName) = some item.envelope) ∧
        ∀ fileName, (directory, fileName) ∈ s.files → ∃ item ∈ items, item.fileName = fileName)
      ((listUnlocked directory).working ()) s := by
  have hlist : Keeps (fun o t => t = s ∧ ListResult (fun t => t = s) directory o.1)
      ((listUnlocked directory).working ()) s := by
    refine safe_listUnlocked Alone.refl ?_ ?_ ?_ ?_ directory rfl
    · exact fun _ a b ha hab => hab.trans ha
    · exact fun t ht => ht ▸ hs.valid
    · exact fun t _ ht => ht ▸ hs
    · exact fun t _ ht => ht ▸ hs
  refine hlist.weaken (fun _ _ h => h) ?_
  rintro ⟨err | items, ⟨⟩⟩ t ⟨ht, hresult⟩
  · obtain ⟨u, v, fileName, rfl, rfl, hthere, hgone⟩ := hresult
    exact absurd hthere hgone
  · obtain ⟨hitems, u, rfl, hall⟩ := hresult
    refine ⟨ht, items, rfl, ?_, hall⟩
    intro item hitem
    obtain ⟨v, rfl, hlookup⟩ := hitems item hitem
    exact hlookup

/-- A stored file is found by its path. -/
lemma mem_of_lookup (h : s.files.lookup path = some envelope) : path ∈ s.files := by
  rw [← AList.lookup_isSome, h]
  rfl

/-- Holding one more item, whose file is new in `inflight`. -/
lemma Holds.append (h : Holds m s) (hnew : (.inflight, item.fileName) ∉ s.files)
    (hsole : t.Sole .inflight item.fileName) (hfits : item.Fits)
    (hframe : ∀ d fileName, fileName ≠ item.fileName →
      ((d, fileName) ∈ t.files ↔ (d, fileName) ∈ s.files)) : Holds ⟨m.held ++ [item]⟩ t := by
  have hne : ∀ other ∈ m.held, other.envelope.state = .inflight →
      other.fileName ≠ item.fileName := by
    intro other hother hstate heq
    have hin := (h.sole other hother hstate).1 .inflight
    rw [heq] at hin
    exact hnew (hin.mpr rfl)
  have hcases : ∀ j (other : Item), (m.held ++ [item])[j]? = some other →
      m.held[j]? = some other ∨ (j = m.held.length ∧ other = item) := by
    intro j other hj
    rw [List.getElem?_append] at hj
    split at hj
    · exact Or.inl hj
    · rw [List.getElem?_singleton] at hj
      split at hj
      · cases hj
        exact Or.inr ⟨by omega, rfl⟩
      · cases hj
  constructor
  · intro other hother hstate
    rcases List.mem_append.mp hother with hother | hother
    · obtain ⟨hother_sole, hother_fits⟩ := h.sole other hother hstate
      exact ⟨fun d => (hframe d _ (hne other hother hstate)).trans (hother_sole d), hother_fits⟩
    · rw [List.mem_singleton.mp hother]
      exact ⟨hsole, hfits⟩
  · intro i j a b hi hj hij ha hb
    rcases hcases i a hi with hold_i | ⟨hlast_i, rfl⟩ <;>
      rcases hcases j b hj with hold_j | ⟨hlast_j, rfl⟩
    · exact h.distinct i j a b hold_i hold_j hij ha hb
    · exact hne a (List.mem_of_getElem? hold_i) ha
    · exact Ne.symm (hne b (List.mem_of_getElem? hold_j) hb)
    · exact absurd (hlast_i.trans hlast_j.symm) hij

/-- The memory after a claim. -/
def Memory.claim (m : Memory) : Except OsError (Option Item) × Unit → Memory
  | (.ok (some item), _) => ⟨m.held ++ [item]⟩
  | _ => m

/-- Removing a file outside of `inflight` leaves the held items where they are. -/
lemma Holds.erase (h : Holds m s) (hd : d ≠ .inflight)
    (hfiles : t.files = s.files.erase (d, fileName)) : Holds m t := by
  refine h.frame fun item hitem hstate c => ?_
  obtain ⟨hsole, -⟩ := h.sole item hitem hstate
  rw [hfiles, AList.mem_erase, and_iff_right_iff_imp]
  intro hc heq
  rw [(hsole c).mp hc] at heq
  exact hd (congrArg Prod.fst heq).symm

/-- Removing a file that is not in `inflight`, when its name is in another directory. -/
lemma Intact.drop (h : Intact m s) (hd : d ≠ .inflight) (hne : c ≠ d)
    (hcopy : (c, fileName) ∈ s.files) : Intact m (s.drop (d, fileName)) where
  recoverable := h.recoverable.erase rfl (h.recoverable.drop hne hcopy)
  holds := h.holds.erase hd rfl

/-- What is left after a claimed item was written, or was not. -/
abbrev ClaimWritten (m : Memory) (s : Store) (item : Item) (claimed : Envelope) :
    Except OsError Unit × Unit → Store → Prop
  | (.error .exist, _), t => t = s ∧ (.inflight, item.fileName) ∈ s.files
  | (.error _, _), t => Intact m t
  | (.ok _, _), t => Recoverable t ∧ (.inflight, item.fileName) ∉ s.files ∧
      t = s.put (.inflight, item.fileName) claimed

/-- The loop of `Claim` keeps the queue intact, with the claimed item held. -/
lemma keeps_claimFirst (now : Time) (lease : Duration) (items : List Item) (h : Intact m s)
    (hfits : ∀ item ∈ items, item.Fits) (hthere : ∀ item ∈ items,
      (.pending, item.fileName) ∈ s.files ∨ (.inflight, item.fileName) ∈ s.files) :
    Keeps (fun o t => Intact (m.claim o) t) ((claimFirst now lease items).working ()) s := by
  induction items generalizing s with
  | nil => exact safe_alone_ret h
  | cons item rest ih =>
    rw [List.forall_mem_cons] at hfits hthere
    unfold claimFirst
    split
    · exact ih h hfits.2 hthere.2
    · have hclaimed : (claimedEnvelope now lease item.envelope).Fits item.fileName :=
        hfits.1.congr rfl rfl rfl rfl
      rw [working_bind, working_writeUnlessExists, Prog.bind_assoc]
      refine Safe.bind_alone
        (Q := ClaimWritten m s item (claimedEnvelope now lease item.envelope)) ?_ ?_
      · refine keeps_writeNew h.recoverable (fun hin => ⟨rfl, hin⟩) (fun _ _ => h) ?_
        intro hnew henc
        refine ⟨?_, hnew, rfl⟩
        have hpending := hthere.1.resolve_right hnew
        exact h.recoverable.put (h.recoverable.insert_copy hclaimed henc hpending)
          fun hne => absurd rfl hne
      · rintro ⟨(_ | _ | text) | ⟨⟩, ⟨⟩⟩ t ht
        · obtain ⟨rfl, hin⟩ := ht
          refine safe_alone_cmd h.recoverable ?_
          intro x r v hx
          cases hx
          have hdrop : Intact m (t.drop (.pending, item.fileName)) :=
            h.drop (by decide) (by decide) hin
          refine ih hdrop hfits.2 fun other hother => ?_
          by_cases hname : other.fileName = item.fileName
          · right
            rw [hname]
            simp [hin]
          · simpa [hname] using hthere.2 other hother
        · exact safe_alone_ret ht
        · exact safe_alone_ret ht
        · obtain ⟨hrec, hnew, rfl⟩ := ht
          have hpending := hthere.1.resolve_right hnew
          refine safe_alone_cmd hrec ?_
          intro x r v hx
          cases hx
          refine safe_alone_ret ⟨?_, ?_⟩
          · refine hrec.erase rfl (hrec.drop (c := .inflight) (by decide) ?_)
            exact Store.mem_put.mpr (Or.inl rfl)
          · refine h.holds.append hnew ?_ hclaimed ?_
            · intro d
              simp only [Store.mem_drop, Store.mem_put, Prod.mk.injEq, and_true, ne_eq]
              constructor
              · rintro ⟨hne, rfl | hmem⟩
                · rfl
                · by_contra hinflight
                  exact hne (h.recoverable.single _ d .pending hinflight (by decide) hmem hpending)
              · rintro rfl
                exact ⟨by decide, Or.inl rfl⟩
            · intro d fileName hne
              simp [hne]

/-- `Claim` keeps the queue intact, with the claimed item held. -/
lemma keeps_claim (h : Intact m s) (now : Time) (lease : Duration) :
    Keeps (fun o t => Intact (m.claim o) t) ((claim now lease).working ()) s := by
  rw [claim, working_bind]
  refine Safe.bind_alone (keeps_listUnlocked h.recoverable .pending) ?_
  rintro result t ⟨rfl, items, rfl, hitems, -⟩
  refine keeps_claimFirst now lease items h ?_ ?_
  · intro item hitem
    exact (h.recoverable.valid _ _ (hitems item hitem)).1
  · intro item hitem
    exact Or.inl (mem_of_lookup (hitems item hitem))

end AgentBell.Queue
