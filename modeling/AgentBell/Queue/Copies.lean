import AgentBell.Queue.Faulty

/-!
# The files of one item

An item may have a file in more than one directory, since a move writes its destination before it
removes its source.  This module follows the files of one name through the steps that write,
replace and move them, on a machine on which other processes leave these files alone.
-/

namespace AgentBell.Queue.Faulty

open Interleaving Interleaving.Routine

/-! ## The files of an item -/

/-- The envelopes in the files of one name. -/
def copies (name : FileName) (s : Store) (directory : Directory) : Option Envelope :=
  s.files.lookup (directory, name)

/-- Whether a command leaves the files of a name alone. -/
def spares (name : FileName) : Cmd → Bool
  | .write path _ | .remove path | .discard path | .quarantine path => path.2 ≠ name
  | _ => true

/-- The machine on which other processes leave the files of one name alone, and steps may fail or
not. -/
def sparing (faulty : Bool) (name : FileName) :
    Machine Cmd (fun c => Except OsError (Reply c)) Store Turn :=
  inUse.checked fun turn _ _ =>
    (faulty || turn.outcome.isOk) && turn.others.all fun step => spares name step.2

/-- The machine on which other processes leave the files of one name alone. -/
abbrev undisturbed (name : FileName) := sparing true name

section Copies

variable {faulty : Bool} {name : FileName} {s t u : Store} {x : Choice} {c : Cmd}

lemma copies_put_self (directory : Directory) (envelope : Envelope) :
    copies name (s.put (directory, name) envelope) =
      Function.update (copies name s) directory (some envelope.encoded) := by
  funext other
  by_cases hother : other = directory
  · rw [hother, Function.update_self]
    exact AList.lookup_insert _
  · rw [Function.update_of_ne hother]
    exact AList.lookup_insert_ne (by simpa using hother)

lemma copies_put_ne {path : ItemPath} {envelope : Envelope} (h : path.2 ≠ name) :
    copies name (s.put path envelope) = copies name s := by
  funext directory
  exact AList.lookup_insert_ne (by rintro rfl; exact h rfl)

lemma copies_drop_self (directory : Directory) :
    copies name (s.drop (directory, name)) = Function.update (copies name s) directory none := by
  funext other
  by_cases hother : other = directory
  · rw [hother, Function.update_self]
    exact AList.lookup_erase _ _
  · rw [Function.update_of_ne hother]
    exact AList.lookup_erase_ne (by simpa using hother)

lemma copies_drop_ne {path : ItemPath} (h : path.2 ≠ name) :
    copies name (s.drop path) = copies name s := by
  funext directory
  exact AList.lookup_erase_ne (by rintro rfl; exact h rfl)

/-- A file that was removed is gone, and the others are as before. -/
lemma copies_drop (path : ItemPath) {directory : Directory} {envelope : Envelope}
    (h : copies name (s.drop path) directory = some envelope) :
    copies name s directory = some envelope := by
  obtain ⟨erased, other⟩ := path
  by_cases hname : other = name
  · rw [hname, copies_drop_self] at h
    by_cases hdirectory : directory = erased
    · rw [hdirectory, Function.update_self] at h
      cases h
    · rwa [Function.update_of_ne hdirectory] at h
  · rwa [copies_drop_ne hname] at h

lemma copies_of_spares {r : Reply c} (hc : spares name c = true)
    (h : exec x c s = some (r, t)) : copies name t = copies name s := by
  cases storeEffect_of_exec h with
  | same files => funext directory; unfold copies; rw [files]
  | stored path envelope => exact copies_put_ne (of_decide_eq_true hc)
  | removed path => exact copies_drop_ne (of_decide_eq_true hc)
  | discarded path => exact copies_drop_ne (of_decide_eq_true hc)
  | quarantined path => exact copies_drop_ne (of_decide_eq_true hc)
  | answered => rfl

lemma copies_afterOthers {steps : List (Choice × Cmd)}
    (hsteps : (steps.all fun step => spares name step.2) = true)
    (h : afterOthers steps s = some t) : copies name t = copies name s :=
  afterOthers_keeps (A := fun t => copies name t = copies name s) (fun step hmem _ _ _ _ hu hexec =>
    (copies_of_spares (List.all_eq_true.mp hsteps step hmem) hexec).trans hu) rfl h

/-- A step works or fails, after others left the files of the name alone. -/
lemma sparing_cases {turn : Turn} {r : Except OsError (Reply c)}
    (h : (sparing faulty name).exec turn c s = some (r, t)) :
    ∃ u, copies name u = copies name s ∧ ((∃ x r', r = .ok r' ∧ exec x c u = some (r', t)) ∨
      (∃ text, r = .error (.other text)) ∧ t = u ∧ faulty = true) := by
  obtain ⟨htest, hexec⟩ := Machine.checked_exec.mp h
  obtain ⟨hworks, hspares⟩ := Bool.and_eq_true_iff.mp htest
  obtain ⟨u, hothers, hcases⟩ := inUse_cases hexec
  refine ⟨u, copies_afterOthers hspares hothers, ?_⟩
  rcases hcases with ⟨x, r', -, hr, hstep⟩ | ⟨text, houtcome, hr, ht⟩
  · exact .inl ⟨x, r', hr, hstep⟩
  · rw [houtcome] at hworks
    exact .inr ⟨⟨text, hr⟩, ht, by simpa [Except.isOk, Except.toBool] using hworks⟩

/-- A command that leaves the files of the name alone, whether it works or fails. -/
lemma copies_of_sparing {turn : Turn} {r : Except OsError (Reply c)} (hc : spares name c = true)
    (h : (sparing faulty name).exec turn c s = some (r, t)) : copies name t = copies name s := by
  obtain ⟨u, hu, ⟨x, r', -, hstep⟩ | ⟨-, rfl, -⟩⟩ := sparing_cases h
  · exact (copies_of_spares hc hstep).trans hu
  · exact hu

/-- Every step may fail. -/
lemma undisturbed_fails (name : FileName) (c : Cmd) (s : Store) :
    ∃ turn r, (undisturbed name).exec turn c s = some (r, s) :=
  ⟨⟨[], .error ""⟩, .error (.other ""), rfl⟩

end Copies

/-! ## Steps on the files of an item -/

section Steps

variable {faulty : Bool} {name : FileName} {ℓ : Type} {l : ℓ} {s : Store} {directory : Directory}
  {envelope : Envelope}

lemma meets_step {c : Cmd} {post : Except OsError (Reply c) → ℓ → Store → Prop}
    (hok : ∀ x r u t, copies name u = copies name s → exec x c u = some (r, t) → post (.ok r) l t)
    (herror : ∀ text t, faulty = true → copies name t = copies name s →
      post (.error (.other text)) l t) :
    Meets (sparing faulty name) post (step c) l s := by
  refine meets_perform fun turn r t hexec => ?_
  obtain ⟨u, hu, ⟨x, r', rfl, hstep⟩ | ⟨⟨text, rfl⟩, rfl, hfaulty⟩⟩ := sparing_cases hexec
  · exact hok x r' u t hu hstep
  · exact herror text t hfaulty hu

lemma meets_stat {post : Except OsError Bool → ℓ → Store → Prop}
    (hok : ∀ t, copies name t = copies name s → post (.ok (copies name s directory).isSome) l t)
    (herror : ∀ text t, faulty = true → copies name t = copies name s →
      post (.error (.other text)) l t) :
    Meets (sparing faulty name) post (step (.stat (directory, name))) l s := by
  refine meets_step (c := .stat (directory, name)) (fun x r u t hu hexec => ?_) herror
  cases hexec
  have hpresent : decide ((directory, name) ∈ u.files) = (copies name s directory).isSome := by
    rw [← hu, Bool.eq_iff_iff, decide_eq_true_iff]
    exact AList.lookup_isSome.symm
  rw [hpresent]
  exact hok u hu

/-- A file is written, or a step fails or the envelope cannot be written. -/
lemma meets_write :
    Meets (sparing faulty name) (fun r l' t => l' = l ∧
        ((∃ text, r = .error (.other text)) ∧ (faulty = true ∨ envelope.encodable = false) ∧
            copies name t = copies name s ∨
          r = .ok () ∧ envelope.encodable = true ∧
            copies name t = Function.update (copies name s) directory (some envelope.encoded)))
      (write (directory, name) envelope) l s := by
  refine meets_raiseIf_bind (fun hbad => ⟨rfl, .inl ⟨⟨_, rfl⟩, .inr hbad, rfl⟩⟩) fun hgood => ?_
  refine meets_step (c := .write (directory, name) envelope) (fun x r u t hu hexec => ?_)
    fun text t hfaulty ht => ⟨rfl, .inl ⟨⟨text, rfl⟩, .inl hfaulty, ht⟩⟩
  cases hexec
  refine ⟨rfl, .inr ⟨rfl, Bool.not_eq_false _ ▸ hgood, ?_⟩⟩
  rw [copies_put_self, hu]

/-- A new file is written where there was none. -/
lemma meets_writeNew :
    Meets (sparing faulty name) (fun r l' t => l' = l ∧
        (r = .error .exist ∧ (copies name s directory).isSome = true ∧
            copies name t = copies name s ∨
          (∃ text, r = .error (.other text)) ∧ (faulty = true ∨ envelope.encodable = false) ∧
            copies name t = copies name s ∨
          r = .ok () ∧ envelope.encodable = true ∧ copies name s directory = none ∧
            copies name t = Function.update (copies name s) directory (some envelope.encoded)))
      (writeNew directory name envelope) l s := by
  have hstat : Meets (sparing faulty name) (fun r l' t => l' = l ∧
      copies name t = copies name s ∧ ((∃ text, r = .error (.other text)) ∧ faulty = true ∨
        r = .ok (copies name s directory).isSome))
      (step (.stat (directory, name)) : QueueRoutine ℓ Bool) l s :=
    meets_stat (fun t ht => ⟨rfl, ht, .inr rfl⟩)
      fun text t hfaulty ht => ⟨rfl, ht, .inl ⟨⟨text, rfl⟩, hfaulty⟩⟩
  refine meets_bind hstat ?_ ?_
  · rintro present l' t ⟨rfl, ht, ⟨⟨text, ⟨⟩⟩, -⟩ | hpresent⟩
    obtain rfl := Except.ok.inj hpresent
    refine meets_raiseIf_bind (fun hthere => ⟨rfl, .inl ⟨rfl, hthere, ht⟩⟩) fun hfree => ?_
    refine Meets.weaken meets_write ?_
    rintro r l'' v ⟨hl, ⟨herr, hwhy, hv⟩ | ⟨rfl, hgood, hv⟩⟩
    · exact ⟨hl, .inr (.inl ⟨herr, hwhy, hv.trans ht⟩)⟩
    · rw [ht] at hv
      exact ⟨hl, .inr (.inr ⟨rfl, hgood, by simpa using hfree, hv⟩)⟩
  · rintro e l' t ⟨rfl, ht, ⟨⟨text, he⟩, hfaulty⟩ | ⟨⟨⟩⟩⟩
    obtain rfl := Except.error.inj he
    exact ⟨rfl, .inr (.inl ⟨⟨text, rfl⟩, .inl hfaulty, ht⟩)⟩

/-- A file that is there is overwritten. -/
lemma meets_replace :
    Meets (sparing faulty name) (fun r l' t => l' = l ∧
        ((∃ e, r = .error e) ∧ (faulty = true ∨ envelope.encodable = false ∨
            copies name s directory = none) ∧ copies name t = copies name s ∨
          r = .ok () ∧ envelope.encodable = true ∧ (copies name s directory).isSome = true ∧
            copies name t = Function.update (copies name s) directory (some envelope.encoded)))
      (replace directory name envelope) l s := by
  have hstat : Meets (sparing faulty name) (fun r l' t => l' = l ∧
      copies name t = copies name s ∧ ((∃ e, r = .error e) ∧ faulty = true ∨
        r = .ok (copies name s directory).isSome))
      (wrapping "replace queue item" (step (.stat (directory, name))) : QueueRoutine ℓ Bool)
      l s :=
    meets_wrapping (meets_stat (fun t ht => ⟨rfl, ht, .inr rfl⟩)
      fun text t hfaulty ht => ⟨rfl, ht, .inl ⟨⟨_, rfl⟩, hfaulty⟩⟩)
  refine meets_bind hstat ?_ ?_
  · rintro present l' t ⟨rfl, ht, ⟨⟨e, ⟨⟩⟩, -⟩ | hpresent⟩
    obtain rfl := Except.ok.inj hpresent
    refine meets_raiseIf_bind (fun habsent => ?_) fun hthere => ?_
    · exact ⟨rfl, .inl ⟨⟨_, rfl⟩, .inr (.inr (by simpa using habsent)), ht⟩⟩
    refine Meets.weaken meets_write ?_
    rintro r l'' v ⟨hl, ⟨⟨text, herr⟩, hwhy, hv⟩ | ⟨rfl, hgood, hv⟩⟩
    · exact ⟨hl, .inl ⟨⟨_, herr⟩, hwhy.imp_right .inl, hv.trans ht⟩⟩
    · rw [ht] at hv
      exact ⟨hl, .inr ⟨rfl, hgood, by simpa [Option.isSome_iff_ne_none] using hthere, hv⟩⟩
  · rintro e l' t ⟨rfl, ht, ⟨-, hfaulty⟩ | ⟨⟨⟩⟩⟩
    exact ⟨rfl, .inl ⟨⟨e, rfl⟩, .inl hfaulty, ht⟩⟩

/-- A move writes its destination and then removes its source, or stops before or in between. -/
lemma meets_transition {source destination : Directory} :
    Meets (sparing faulty name) (fun r l' t => l' = l ∧
        ((∃ e, r = .error e) ∧ (faulty = true ∨ envelope.encodable = false ∨
            (copies name s destination).isSome = true) ∧ copies name t = copies name s ∨
          copies name s destination = none ∧ (∃ e, r = .error e) ∧ faulty = true ∧ copies name t =
              Function.update (copies name s) destination (some envelope.encoded) ∨
          (envelope.encodable = true ∧ copies name s destination = none) ∧ r = .ok () ∧
            copies name t = Function.update
              (Function.update (copies name s) destination (some envelope.encoded)) source none))
      (transitionEnvelope source destination name envelope) l s := by
  refine meets_bind meets_writeNew ?_ ?_
  · rintro _ l' t ⟨rfl, ⟨⟨⟩, -⟩ | ⟨⟨text, ⟨⟩⟩, -⟩ | ⟨-, hencodable, hfree, ht⟩⟩
    refine meets_wrapping (meets_step (c := .remove (source, name))
      (fun x r u v hu hexec => ?_) fun text v hfaulty hv => ?_)
    · cases hexec
      refine ⟨rfl, .inr (.inr ⟨⟨hencodable, hfree⟩, rfl, ?_⟩)⟩
      rw [copies_drop_self, hu, ht]
    · exact ⟨rfl, .inr (.inl ⟨hfree, ⟨_, rfl⟩, hfaulty, hv.trans ht⟩)⟩
  · rintro e l' t ⟨rfl, ⟨-, hthere, ht⟩ | ⟨-, hwhy, ht⟩ | ⟨⟨⟩, -⟩⟩
    · exact ⟨rfl, .inl ⟨⟨e, rfl⟩, .inr (.inr hthere), ht⟩⟩
    · exact ⟨rfl, .inl ⟨⟨e, rfl⟩, hwhy.imp_right .inl, ht⟩⟩

end Steps

end AgentBell.Queue.Faulty
