import AgentBell.Service.Processing

/-!
# Where a claimed item goes

What the routines of the service do to the files in `inflight`.  Other processes only enqueue and
retry, so between two steps of the service these files stay as they are.  When the steps of a call
work and the directories an item moves to have no file of its name, a call takes its item out of
`inflight` again on every path.
-/

namespace AgentBell.Service

open Interleaving Interleaving.Routine Queue Queue.Faulty

variable {s t : Store} {path : ItemPath} {name : FileName}

/-! ## The files in `inflight` -/

/-- The envelope of a file in `inflight`. -/
def inflightFile (s : Store) (name : FileName) : Option Envelope :=
  s.files.lookup (.inflight, name)

/-- There is no file in `inflight`. -/
def Clear (s : Store) : Prop := ∀ name, inflightFile s name = none

/-- There is one file in `inflight`. -/
structure Single (name : FileName) (s : Store) : Prop where
  present : (inflightFile s name).isSome
  others : ∀ other, other ≠ name → inflightFile s other = none

lemma Single.congr (h : Single name s) (hsame : inflightFile t = inflightFile s) :
    Single name t where
  present := by
    rw [hsame]
    exact h.present
  others other hother := by
    rw [hsame]
    exact h.others other hother

/-- Whether a command leaves `inflight` alone. -/
def outside : Cmd → Bool
  | .write path _ | .remove path | .discard path | .quarantine path => path.1 ≠ .inflight
  | _ => true

lemma inflightFile_put_self (s : Store) (name : FileName) (envelope : Envelope) :
    inflightFile (s.put (.inflight, name) envelope) name = some envelope.encoded :=
  AList.lookup_insert _

lemma inflightFile_put_ne {envelope : Envelope} (h : (.inflight, name) ≠ path) :
    inflightFile (s.put path envelope) name = inflightFile s name :=
  AList.lookup_insert_ne h

lemma inflightFile_drop_self (s : Store) (name : FileName) :
    inflightFile (s.drop (.inflight, name)) name = none :=
  AList.lookup_erase _ _

lemma inflightFile_drop_ne (h : (.inflight, name) ≠ path) :
    inflightFile (s.drop path) name = inflightFile s name :=
  AList.lookup_erase_ne h

/-- A command that leaves `inflight` alone. -/
lemma inflightFile_of_outside {x : Choice} {c : Cmd} {r : Reply c} (hc : outside c = true)
    (h : exec x c s = some (r, t)) : inflightFile t = inflightFile s := by
  have hne : ∀ {path : ItemPath}, decide (path.1 ≠ .inflight) = true → ∀ name : FileName,
      (Directory.inflight, name) ≠ path := by
    rintro path hpath name rfl
    exact of_decide_eq_true hpath rfl
  funext name
  cases storeEffect_of_exec h with
  | same files => exact congrArg (fun files => AList.lookup (.inflight, name) files) files
  | stored path envelope => exact inflightFile_put_ne (hne hc name)
  | removed path => exact inflightFile_drop_ne (hne hc name)
  | discarded path => exact inflightFile_drop_ne (hne hc name)
  | quarantined path => exact inflightFile_drop_ne (hne hc name)
  | answered => rfl

/-- Other processes leave `inflight` alone. -/
lemma inflightFile_afterOthers {steps : List (Choice × Cmd)} (h : afterOthers steps s = some t) :
    inflightFile t = inflightFile s := by
  have houtside : ∀ c : Cmd, c.ofClient = true → outside c = true := by
    intro c hc
    cases c <;> simp_all [Cmd.ofClient, outside]
  exact afterOthers_keeps (A := fun t => inflightFile t = inflightFile s)
    (fun step _ hc _ _ _ hu hexec =>
      (inflightFile_of_outside (houtside step.2 hc) hexec).trans hu) rfl h

/-! ## Steps -/

section Steps

variable {g : Turn → Cmd → Store → Prop} {ℓ : Type} {l : ℓ} {s : Store} {c : Cmd}
  {post : Except OsError (Reply c) → ℓ → Store → Prop}

/-- A step works or fails, after others left `inflight` alone. -/
lemma meets_step_inUse (hok : ∀ turn x r t v, g turn c s → afterOthers turn.others s = some t →
      inflightFile t = inflightFile s → exec x c t = some (r, v) → post (.ok r) l v)
    (herror : ∀ turn text t, g turn c s → turn.outcome = .error text →
      inflightFile t = inflightFile s → post (.error (.other text)) l t) :
    Meets (inUse.guard g) post (step c) l s := by
  refine meets_perform fun turn r v hexec => ?_
  obtain ⟨hg, hexec⟩ := Machine.guard_exec.mp hexec
  obtain ⟨t, hothers, hcases⟩ := inUse_cases hexec
  have hsame := inflightFile_afterOthers hothers
  rcases hcases with ⟨x, r', -, rfl, hstep⟩ | ⟨text, houtcome, rfl, rfl⟩
  · exact hok turn x r' t v hg hothers hsame hstep
  · exact herror turn text v hg houtcome hsame

/-- What the steps of a routine outside `inflight` leave. -/
lemma meets_outside {α : Type} {p : QueueRoutine ℓ α} (hp : p.Within fun c => outside c = true) :
    Meets (inUse.guard g) (fun _ _ t => inflightFile t = inflightFile s) p l s := by
  refine hp.meets ?_ rfl
  intro turn c t r v hc ht hexec
  obtain ⟨-, hexec⟩ := Machine.guard_exec.mp hexec
  obtain ⟨u, hothers, hcases⟩ := inUse_cases hexec
  have hu : inflightFile u = inflightFile s := (inflightFile_afterOthers hothers).trans ht
  rcases hcases with ⟨x, r', -, -, hstep⟩ | ⟨text, -, -, rfl⟩
  · exact (inflightFile_of_outside hc hstep).trans hu
  · exact hu

end Steps

/-! ## A call whose steps work -/

/-- A step works, and where an item may move to there is no file of its name. -/
structure Proceeds (turn : Turn) (c : Cmd) (s : Store) : Prop where
  works : ∀ text, turn.outcome ≠ .error text
  free : ∀ path t, c = .stat path → path.1 ≠ .inflight → afterOthers turn.others s = some t →
    path ∉ t.files

/-- The machine on which steps proceed. -/
noncomputable abbrev proceeding :
    Machine Cmd (fun c => Except OsError (Reply c)) Store Turn := inUse.guard Proceeds

section Proceeding

variable {ℓ : Type} {l : ℓ} {s : Store} {name : FileName} {envelope : Envelope}
  {post : Except OsError Unit → ℓ → Store → Prop}

/-- A step that works. -/
lemma meets_step_works {c : Cmd} {post : Except OsError (Reply c) → ℓ → Store → Prop}
    (h : ∀ turn x r t v, Proceeds turn c s → afterOthers turn.others s = some t →
      inflightFile t = inflightFile s → exec x c t = some (r, v) → post (.ok r) l v) :
    Meets proceeding post (step c) l s :=
  meets_step_inUse h fun _ text _ hg houtcome _ => absurd houtcome (hg.works text)

lemma meets_stat_free {directory : Directory} {post : Except OsError Bool → ℓ → Store → Prop}
    (hne : directory ≠ .inflight)
    (h : ∀ t, inflightFile t = inflightFile s → post (.ok false) l t) :
    Meets proceeding post (step (.stat (directory, name))) l s := by
  refine meets_step_works (c := .stat (directory, name))
    fun turn x r t v hg hothers hsame hexec => ?_
  cases hexec
  rw [decide_eq_false (hg.free _ t rfl hne hothers)]
  exact h t hsame

lemma mem_files_iff : (.inflight, name) ∈ t.files ↔ (inflightFile t name).isSome :=
  AList.lookup_isSome.symm

lemma meets_stat_inflight {post : Except OsError Bool → ℓ → Store → Prop}
    (h : ∀ t, inflightFile t = inflightFile s → post (.ok (inflightFile s name).isSome) l t) :
    Meets proceeding post (step (.stat (.inflight, name))) l s := by
  refine meets_step_works (c := .stat (.inflight, name)) fun turn x r t v _ _ hsame hexec => ?_
  cases hexec
  have hvalue : decide ((.inflight, name) ∈ t.files) = (inflightFile s name).isSome := by
    rw [← hsame, Bool.eq_iff_iff, decide_eq_true_iff]
    exact mem_files_iff
  rw [hvalue]
  exact h t hsame

/-- An envelope is written outside `inflight`, if it can be written at all. -/
lemma meets_write_outside (hne : path.1 ≠ .inflight)
    (herror : ∀ e, envelope.encodable = false → post (.error (.other e)) l s)
    (h : ∀ t, envelope.encodable = true → inflightFile t = inflightFile s → post (.ok ()) l t) :
    Meets proceeding post (write path envelope) l s := by
  refine meets_raiseIf_bind (herror _) fun hencodable => ?_
  refine meets_step_works (c := .write path envelope) fun turn x r t v _ _ hsame hexec => ?_
  have houtside : outside (.write path envelope) = true := decide_eq_true hne
  exact h v (Bool.not_eq_false _ ▸ hencodable)
    ((inflightFile_of_outside houtside hexec).trans hsame)

/-- An envelope is written to `inflight`, if it can be written at all. -/
lemma meets_write_inflight (herror : ∀ e, post (.error (.other e)) l s)
    (h : ∀ t, envelope.encodable = true → (inflightFile t name).isSome →
      (∀ other, other ≠ name → inflightFile t other = inflightFile s other) → post (.ok ()) l t) :
    Meets proceeding post (write (.inflight, name) envelope) l s := by
  refine meets_raiseIf_bind (fun _ => herror _) fun hencodable => ?_
  refine meets_step_works (c := .write (.inflight, name) envelope)
    fun turn x r t v _ _ hsame hexec => ?_
  cases hexec
  refine h _ (Bool.not_eq_false _ ▸ hencodable) ?_ fun other hother => ?_
  · rw [inflightFile_put_self]
    rfl
  · rw [inflightFile_put_ne (by simpa using hother), hsame]

/-- The item that is in `inflight` moves to another directory, if its envelope can be written. -/
lemma meets_transition {destination : Directory} (hsingle : Single name s)
    (hne : destination ≠ .inflight)
    (herror : ∀ e t, envelope.encodable = false → Single name t → post (.error e) l t)
    (h : ∀ t, envelope.encodable = true → Clear t → post (.ok ()) l t) :
    Meets proceeding post (transitionEnvelope .inflight destination name envelope) l s := by
  have hstat : Meets proceeding
      (fun r l' t => r = .ok false ∧ l' = l ∧ inflightFile t = inflightFile s)
      (step (.stat (destination, name)) : QueueRoutine ℓ Bool) l s :=
    meets_stat_free hne fun t ht => ⟨rfl, rfl, ht⟩
  have hwrite : Meets proceeding (fun r l' t => l' = l ∧ inflightFile t = inflightFile s ∧
      either (fun _ => envelope.encodable = false) (fun _ => envelope.encodable = true) r)
      (writeNew destination name envelope : QueueRoutine ℓ Unit) l s := by
    refine meets_answer_bind hstat fun t ht => ?_
    refine meets_raiseIf_bind (by rintro ⟨⟩) fun _ => ?_
    exact meets_write_outside hne (fun e hbad => ⟨rfl, ht, hbad⟩)
      fun v hencodable hv => ⟨rfl, hv.trans ht, hencodable⟩
  refine meets_bind hwrite ?_ ?_
  · rintro _ l' t ⟨rfl, ht, hencodable⟩
    refine meets_wrapping (meets_step_works (c := .remove (.inflight, name))
      fun turn x r v w _ _ hsame hexec => ?_)
    cases hexec
    refine h _ hencodable fun other => ?_
    by_cases hother : other = name
    · rw [hother, inflightFile_drop_self]
    · rw [inflightFile_drop_ne (by simpa using hother), hsame, ht, hsingle.others other hother]
  · rintro e l' t ⟨rfl, ht, hbad⟩
    exact herror e t hbad (hsingle.congr ht)

end Proceeding

end AgentBell.Service
