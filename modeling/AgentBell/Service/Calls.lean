import AgentBell.Service.Moves
import AgentBell.Service.Outcomes

/-!
# A call of the service

What a call of `ProcessOne` does to `inflight` when its steps work, what it finds is sane and the
directories an item moves to have no file of its name: on every path through the configuration, the
policy, quiet hours and the deliveries, the claimed item leaves `inflight` again.
-/

namespace AgentBell.Service

open Interleaving Interleaving.Routine Queue Queue.Faulty

variable {service : Options} {call : Surroundings}

/-- What a call finds lets it finish with the item it claims: the instants it writes have a year up
to 9999, an item is put off to a later time, and a decision names targets for which there is a
ledger. -/
structure Sane (service : Options) (call : Surroundings) : Prop extends Timely service call where
  targets : ∀ config settings event decision targets, call.config = .ok config →
    call.settings = .ok settings → call.evaluate event = .ok decision → decision.enabled = true →
    resolveDecisionTargets config settings decision = .ok targets →
    ∃ ledger, newDeliveryLedger targets = .ok ledger

/-- A sane call finds a ledger for the targets of a new item. -/
lemma Sane.not_stranded {envelope : Envelope} (h : Sane service call) :
    ¬ Stranded service call envelope := by
  intro hstranded
  obtain ⟨hledger, config, settings, targets, message, -, hplanned, hmessage, -⟩ :=
    stranded_iff_planned.mp hstranded
  have hnamed := hplanned.named
  unfold plannedTargets at hnamed
  rw [if_neg (not_not.mpr hledger)] at hnamed
  split at hnamed
  · cases hnamed
  rename_i decision hdecision
  split at hnamed
  · cases hnamed
  rename_i henabled
  cases htargets : resolveDecisionTargets config settings decision with
  | error cause =>
    rw [htargets] at hnamed
    cases hnamed
  | ok found =>
    rw [htargets] at hnamed
    cases hnamed
    obtain ⟨ledger, hnew⟩ := h.targets config settings _ decision targets hplanned.read.1
      hplanned.read.2 hdecision (Bool.not_eq_false _ ▸ henabled) htargets
    rw [hmessage] at hnew
    cases hnew

/-! ## The only item in `inflight` -/

section Calls

variable {service : Options} {call : Surroundings} {item : Item} {s : Store} {updated : Envelope}
  {directory : Directory} {ℓ : Type} {l : ℓ} {now : Time} {lease : Duration}

/-- The held item is rewritten in place. -/
lemma meets_rewrite (h : Single item.fileName s) :
    Meets proceeding (fun r item' t => Single item'.fileName t ∧
      (updated.encodable = true → r = .ok () ∧ item' = { item with envelope := updated }) ∧
      (updated.encodable = false → (∃ e, r = .error e) ∧ item' = item))
      (rewrite updated) item s := by
  refine meets_locals_bind ?_
  have hstat : Meets proceeding
      (fun r l' t => r = .ok true ∧ l' = item ∧ inflightFile t = inflightFile s)
      (wrapping "replace queue item" (step (.stat (.inflight, item.fileName)))) item s := by
    refine meets_wrapping (meets_stat_inflight fun t ht => ?_)
    rw [h.present]
    exact ⟨rfl, rfl, ht⟩
  have hreplace : Meets proceeding (fun r l' t => l' = item ∧ Single item.fileName t ∧
      either (fun _ => updated.encodable = false) (fun _ => updated.encodable = true) r)
      (replace .inflight item.fileName updated) item s := by
    refine meets_answer_bind hstat fun t ht => ?_
    refine meets_raiseIf_bind (by rintro ⟨⟩) fun _ => ?_
    refine meets_raiseIf_bind (fun hbad => ⟨rfl, h.congr ht, hbad⟩) fun hencodable => ?_
    refine meets_step_works (c := .write (.inflight, item.fileName) updated)
      fun turn x r v w _ _ hsame hexec => ?_
    cases hexec
    refine ⟨rfl, ⟨?_, fun other hother => ?_⟩, Bool.not_eq_false _ ▸ hencodable⟩
    · rw [inflightFile_put_self]
      rfl
    · rw [inflightFile_put_ne (by simpa using hother), hsame, ht]
      exact h.others other hother
  refine meets_bind hreplace ?_ ?_
  · rintro ⟨⟩ l' t ⟨rfl, hsingle, hencodable⟩
    refine meets_assign ⟨hsingle, fun _ => ⟨rfl, rfl⟩, fun hbad => ?_⟩
    rw [hencodable] at hbad
    cases hbad
  · rintro e l' t ⟨rfl, hsingle, hbad⟩
    refine ⟨hsingle, fun hencodable => ?_, fun _ => ⟨⟨e, rfl⟩, rfl⟩⟩
    rw [hbad] at hencodable
    cases hencodable

/-- The held item is moved out of `inflight`, if it can be written at all. -/
lemma meets_advance {destination : Directory} (h : Single item.fileName s)
    (hne : destination ≠ .inflight) :
    Meets proceeding (fun _ _ t => updated.encodable = true ∧ Clear t ∨
        updated.encodable = false ∧ Single item.fileName t)
      (advance destination updated) item s := by
  refine meets_locals_bind ?_
  have hmove : Meets proceeding (fun _ _ t => updated.encodable = true ∧ Clear t ∨
        updated.encodable = false ∧ Single item.fileName t)
      (transitionEnvelope .inflight destination item.fileName updated) item s :=
    meets_transition h hne (fun _ _ hbad ht => .inr ⟨hbad, ht⟩)
      fun _ hencodable ht => .inl ⟨hencodable, ht⟩
  exact meets_bind hmove (fun _ _ _ h' => meets_assign h') fun _ _ _ h' => h'

/-- The custody of the only item in `inflight`: once it has moved, there is none. -/
def clearing : Custody proceeding where
  has item s := Single item.fileName s
  gone _ _ _ t := Clear t
  free _ := True
  rewrite h _ := meets_rewrite h
  advance h hne _ := (meets_advance h hne).weaken fun _ _ _ ht => ht.imp
    (fun ⟨hencodable, hclear⟩ => ⟨⟨hencodable, trivial⟩, hclear⟩)
    fun ⟨hbad, hsingle⟩ => ⟨fun hboth => Bool.eq_false_iff.mp hbad hboth.1, hsingle⟩

/-- Whatever a sane call finds, it takes the held item out of `inflight`. -/
lemma meets_processItem_clear (hsane : Sane service call) (h : Held clearing call.now item s) :
    Meets proceeding (fun _ _ t => Clear t) (processItem service call) item s := by
  obtain ⟨directory, after, hmove, hencodable⟩ :=
    verdict_lands hsane.toTimely h.fit hsane.not_stranded
  refine (meets_processItem h).weaken ?_
  rintro r item' t (⟨_, _, -, -, hclear⟩ | ⟨hblocked, -⟩)
  · exact hclear
  · exact absurd ⟨hencodable, trivial⟩ (hblocked directory after hmove)

/-! ## Claiming -/

/-- A listing of another directory leaves `inflight` alone and shows items that pass its checks. -/
lemma walk_outside (hne : directory ≠ .inflight) : Walk proceeding directory ℓ (fun _ => True)
    (fun s t => inflightFile t = inflightFile s) (fun _ item => item.envelope.listable = true)
    (fun _ _ => True) where
  refl _ := rfl
  trans h h' := h'.trans h
  earlier _ h := h
  later _ _ := trivial
  read _ _ _ _ := .weaken (meets_outside (within_perform rfl)) fun _ _ _ ht =>
    ⟨trivial, ht, fun _ _ => ⟨id, fun _ _ =>
      .weaken (meets_outside (within_wrapping (within_perform (decide_eq_true hne))))
        fun _ _ _ hu => ⟨trivial, hu, fun _ _ => trivial⟩⟩⟩

lemma meets_listUnlocked (hne : directory ≠ .inflight) :
    Meets proceeding (fun r _ t => inflightFile t = inflightFile s ∧
      ∀ items, r = .ok items → ∀ item ∈ items, item.envelope.listable = true)
      (listUnlocked directory : QueueRoutine ℓ (List Item)) l s :=
  ((walk_outside hne).listUnlocked (.weaken (meets_outside (within_perform rfl)) fun _ _ _ ht =>
    ⟨trivial, ht, fun _ _ _ => .inl trivial⟩)).weaken
      fun _ _ _ ht => ⟨ht.2.1, fun items hitems => (ht.2.2 items hitems).1⟩

/-- What is in `inflight` after a claim. -/
def Claimed (now : Time) (r : Except OsError (Option Item)) (t : Store) : Prop :=
  match r with
  | .ok (some item) => Held clearing now item t
  | _ => Clear t

/-- A claimed item is written to the empty `inflight`, if it can be written at all. -/
lemma meets_writeClaimed (hlistable : item.envelope.listable = true)
    (hstate : item.envelope.state = .inflight) (hupdated : item.envelope.updatedAt = now)
    (hclear : Clear s) :
    Meets proceeding (fun r _ t =>
        match r with
        | .ok written => written = true ∧ Held clearing now item t
        | .error _ => Clear t)
      (writeUnlessExists .inflight item.fileName item.envelope : QueueRoutine ℓ Bool) l s := by
  have hstat : Meets proceeding
      (fun r l' t => r = .ok false ∧ l' = l ∧ inflightFile t = inflightFile s)
      (step (.stat (.inflight, item.fileName)) : QueueRoutine ℓ Bool) l s := by
    refine meets_stat_inflight fun t ht => ?_
    rw [hclear item.fileName]
    exact ⟨rfl, rfl, ht⟩
  have hwrite : Meets proceeding
      (fun r _ t =>
        either (fun err => err ≠ .exist ∧ Clear t) (fun _ => Held clearing now item t) r)
      (writeNew .inflight item.fileName item.envelope : QueueRoutine ℓ Unit) l s := by
    refine meets_answer_bind hstat fun t ht => ?_
    refine meets_raiseIf_bind (by rintro ⟨⟩) fun _ => ?_
    have hempty : Clear t := fun name => by rw [ht, hclear name]
    refine meets_write_inflight (fun e => ⟨by simp, hempty⟩) ?_
    intro v hencodable hpresent hothers
    obtain ⟨-, -, hvalid⟩ := Envelope.listable_iff.mp hlistable
    refine ⟨⟨hstate, hvalid, hencodable, hupdated⟩, hpresent, fun other hother => ?_⟩
    rw [hothers other hother, hempty other]
  refine meets_writeUnlessExists (hwrite.weaken ?_)
  rintro (err | _) l' t h
  · dsimp only
    rw [if_neg h.1]
    exact h.2
  · exact ⟨rfl, h⟩

lemma meets_claimFirst (items : List Item) (hitems : ∀ item ∈ items, item.envelope.listable = true)
    (hclear : Clear s) :
    Meets proceeding (fun r _ t => Claimed now r t)
      (claimFirst now lease items : QueueRoutine ℓ (Option Item)) l s := by
  induction items with
  | nil => exact meets_pure hclear
  | cons item items ih =>
    have hrest := ih fun other hother => hitems other (List.mem_cons_of_mem _ hother)
    unfold claimFirst
    split
    · exact hrest
    let claimed : Item := { item with envelope := claimedEnvelope now lease item.envelope }
    have hlistable : claimed.envelope.listable = true := by
      rw [← hitems item List.mem_cons_self]
      exact Envelope.listable_congr rfl rfl rfl rfl
    have hclaimed := meets_writeClaimed (l := l) hlistable rfl rfl hclear
    refine meets_bind hclaimed ?_ fun _ _ _ h => h
    rintro written l' t ⟨rfl, h⟩
    have hremove : Meets proceeding (fun r _ t => r = .ok () ∧ Held clearing now claimed t)
        (wrapping "finish queue claim" (step (.remove (.pending, item.fileName))) :
          QueueRoutine ℓ Unit) l' t := by
      refine meets_wrapping (meets_step_works (c := .remove (.pending, item.fileName))
        fun turn x r u v _ _ hsame hexec => ⟨rfl, h.fit, Single.congr h.has ?_⟩)
      have houtside : outside (.remove (.pending, item.fileName)) = true := rfl
      exact (inflightFile_of_outside houtside hexec).trans hsame
    refine meets_bind hremove ?_ (by rintro e _ _ ⟨⟨⟩, -⟩)
    exact fun _ _ _ h' => meets_pure h'.2

lemma meets_claim (hclear : Clear s) :
    Meets proceeding (fun r _ t => Claimed now r t)
      (claim now lease : QueueRoutine ℓ (Option Item)) l s := by
  have hempty : ∀ {t : Store}, inflightFile t = inflightFile s → Clear t :=
    fun ht name => by rw [ht, hclear name]
  have hne : Directory.pending ≠ .inflight := nofun
  refine meets_bind (meets_listUnlocked hne) ?_ fun _ _ _ h => hempty h.1
  exact fun items _ _ h => meets_claimFirst items (h.2 items rfl) (hempty h.1)

/-- A call goes on with what it claims. -/
def afterClaim (service : Options) (call : Surroundings) :
    Option Item → QueueRoutine Unit (Bool × Option String)
  | none => pure (false, none)
  | some item =>
    catching
      (do
        enclosed (processItem service call) item
        pure (true, none))
      fun err => pure (true, some err.message)

/-- What holds after the claimed item is processed holds after the call. -/
lemma meets_afterClaim {M : Machine Cmd (fun c => Except OsError (Reply c)) Store Turn}
    {A : Store → Prop} (h : Meets M (fun _ _ t => A t) (processItem service call) item s) :
    Meets M (fun _ _ t => A t) (afterClaim service call (some item)) () s := by
  have henclosed : Meets M (fun _ _ t => A t)
      (enclosed (processItem service call) item : QueueRoutine Unit Unit) () s :=
    meets_enclosed h
  exact meets_catching_map henclosed (fun _ _ _ h' => h') fun _ _ _ h' => meets_pure h'

/-- A call that starts with nothing in `inflight` leaves nothing there. -/
lemma meets_processOne (hsane : Sane service call) (hclear : Clear s) :
    Meets proceeding (fun _ _ t => Clear t) (processOne service call) () s := by
  unfold processOne
  split
  · exact meets_pure hclear
  have hcall : Meets proceeding (fun _ _ t => Clear t)
      (claim call.now service.leaseTime >>= afterClaim service call) () s := by
    refine meets_bind (meets_claim hclear) ?_ fun _ _ _ h => h
    rintro (_ | item) l t h
    · exact meets_pure h
    · exact meets_afterClaim (meets_processItem_clear hsane h)
  exact meets_catching hcall (fun _ _ _ h => h) fun _ _ _ h => meets_pure h

end Calls

end AgentBell.Service
