import AgentBell.Upgrade.Compensation
import AgentBell.Upgrade.Return

/-!
# The journal and the active state agree

When an upgrade or a rollback is over, a journal that says committed belongs to the active state,
and a call that was rejected has not switched the version, unless it reports that its compensation
was incomplete or blocked.  This rests on a few writes that must not fail, which is the condition on
the environment.
-/

namespace AgentBell.Upgrade

open Interleaving

open Routine (assign catching enclosed)

/-! ## Statement -/

/-- The version of a document. -/
def Content.version? : Content → Option String
  | .active state => some state.activeVersion
  | _ => none

/-- Whether there is an active state, and of which version. -/
def World.standing (w : World) : Option (Option String) :=
  (w.files .active).map Content.version?

/-- Whether an exception reports that a compensation was incomplete or blocked. -/
def Failure.isAggregate : Failure → Bool
  | .aggregate _ => true
  | _ => false

/-- The journal of the transaction agrees with the active state, and a rejected call has switched
nothing. -/
structure Agrees {α : Type} (w : World) (r : Except Failure α) (l : Progress) (t : World) :
    Prop where
  committed : ∀ tx, l.transaction = some tx → Committed t tx.id →
    ∃ state, t.files .active = some (.active state) ∧ state.transactionID = tx.id ∧
      state.activeVersion = tx.toVersion
  rejected : ∀ e, r = .error e → ¬ e.isAggregate → t.standing = w.standing

/-- The condition on the steps of a call that starts from `w₀`. -/
structure Orderly (w₀ : World) (x : Choice) (c : Cmd) (w : World) : Prop where
  /-- The write of a new active state does not throw while the new state is in place. -/
  untorn : Untorn x c w
  /-- The old active state is not lost when it is set aside and put back. -/
  aside : ∀ state fault, c = .setAside (.activation state) → x ≠ .failsAfter fault
  back : ∀ state fault, c = .putBack (.activation state) → x ≠ .failsBefore fault
  /-- The report of a failed compensation is written. -/
  reported : ∀ record, c.write? = some (.journal record) → ∀ e t, exec x c w = some (.error e, t) →
    record.status ≠ .compensationFailed ∧ record.status ≠ .compensationBlocked
  /-- The record that commits a rollback is written, and the write of one that commits an upgrade
  does not throw while the record is in place. -/
  committed : ∀ record, c.write? = some (.journal record) → record.status = .committed →
    ∀ e t, exec x c w = some (.error e, t) →
      record.operation ≠ .rollback ∧ t.files (.journal record.id) ≠ some (.journal record)
  /-- The lock is given back if the version was switched. -/
  released : c = .release → ∀ e t, exec x c w = some (.error e, t) → w.standing = w₀.standing

section Writes

variable {w₀ w t : World} {e : Failure} {record : Transaction}

/-- A write of a new active state that throws has changed nothing. -/
lemma active_of_ending {state : ActiveState}
    (h : (Write.activation state).Ending (Orderly w₀) w (.error e) t) :
    t.files .active = w.files .active := by
  have htorn : ¬ (Write.activation state).Torn (Orderly w₀) w := by
    rintro ⟨x, c, s, e, t', hwrite, -, hx, hexec, hfile⟩
    exact hx.untorn state hwrite e t' hexec hfile
  obtain ⟨-, -, ⟨_, _, hat⟩ | ⟨hlost, -⟩ | ⟨h, -⟩ | ⟨h, -⟩⟩ := h
  · exact hat.file
  · rcases hlost with ⟨fault, s, -, hx⟩ | ⟨fault, s, -, -, hx⟩
    · exact absurd rfl (hx.aside state fault rfl)
    · exact absurd rfl (hx.back state fault rfl)
  · exact absurd h htorn
  · exact absurd h htorn

/-- Reports of failed compensations do not fail. -/
lemma reported_of_ending (h : (Write.journal record).Ending (Orderly w₀) w (.error e) t) :
    record.status ≠ .compensationFailed ∧ record.status ≠ .compensationBlocked := by
  obtain ⟨⟨x, c, s, e, t', hwrite, -, hx, hexec⟩, -⟩ := h
  exact hx.reported record hwrite e t' hexec

/-- A rollback that cannot be committed does not occur. -/
lemma operation_of_ending (h : (Write.journal record).Ending (Orderly w₀) w (.error e) t)
    (hstatus : record.status = .committed) : record.operation ≠ .rollback := by
  obtain ⟨⟨x, c, s, e, t', hwrite, -, hx, hexec⟩, -⟩ := h
  exact (hx.committed record hwrite hstatus e t' hexec).1

/-- A write of a committed record that throws has committed nothing. -/
lemma uncommitted_of_ending (hstatus : record.status = .committed)
    (h : (Write.journal record).Ending (Orderly w₀) w (.error e) t)
    (huncommitted : ¬ Committed w record.id) : ¬ Committed t record.id := by
  have htorn : ¬ (Write.journal record).Torn (Orderly w₀) w := by
    rintro ⟨x, c, s, e, t', hwrite, -, hx, hexec, hfile⟩
    exact (hx.committed record hwrite hstatus e t' hexec).2 hfile
  rintro ⟨record', hfile, hcommitted⟩
  obtain ⟨-, -, ⟨_, _, hat⟩ | ⟨-, _, _, hat⟩ | ⟨h, -⟩ | ⟨h, -⟩⟩ := h
  · exact huncommitted ⟨record', hat.file.symm.trans hfile, hcommitted⟩
  · cases hat.file.symm.trans hfile
  · exact htorn h
  · exact htorn h

end Writes

variable {w : World}

lemma standing_congr {t : World} (h : t.files .active = w.files .active) :
    t.standing = w.standing := by
  unfold World.standing
  rw [h]

lemma standing_of_active {state : ActiveState} (h : w.files .active = some (.active state)) :
    w.standing = some (some state.activeVersion) := by
  unfold World.standing
  rw [h]
  rfl

/-! ## The activation of an upgrade -/

/-- What the handler of an upgrade starts from. -/
structure Undecided (w₀ : World) (l : Progress) (t : World) : Prop where
  kept : l.activeWritten = false → t.files .active = w₀.files .active
  located : l.activeWritten = true → w₀.files .active = l.active.map .active
  begun : l.activeWritten = true →
    ∃ tx, l.transaction = some tx ∧ tx.status ≠ .preflightRejected
  uncommitted : ∀ tx, l.transaction = some tx → ¬ Committed t tx.id

/-- What a committed upgrade leaves. -/
def Switched (l : Progress) (t : World) : Prop :=
  ∀ tx, l.transaction = some tx → ∃ state, t.files .active = some (.active state) ∧
    state.transactionID = tx.id ∧ state.activeVersion = tx.toVersion

section Activation

variable {w w₀ t : World} {l : Progress} {version : String} {legacy : Option String}
  {state : ActiveState}

lemma undecided_of_unwritten (hwritten : l.activeWritten = false)
    (hactive : t.files .active = w₀.files .active)
    (huncommitted : ∀ tx, l.transaction = some tx → ¬ Committed t tx.id) : Undecided w₀ l t := by
  refine ⟨fun _ => hactive, fun h => ?_, fun h => ?_, huncommitted⟩
  all_goals
    rw [hwritten] at h
    cases h

/-- The activation commits, or leaves what the handler can undo. -/
lemma meets_commitActive_agrees (h : Ready w₀ version legacy state l t) :
    Ends (Orderly w) (fun r l' t' =>
      match r with
      | .ok _ => Switched l' t'
      | .error _ => Undecided w₀ l' t') (commitActive state version) l t := by
  obtain ⟨tx, htx, hid, hversion, hoperation, hstatus, huncommitted⟩ := h.transaction
  refine meets_bind (meets_atomicWrite (.activation state) t) ?_ ?_
  swap
  · rintro e l1 t1 ⟨rfl, hending⟩
    refine undecided_of_unwritten h.unwritten ((active_of_ending hending).trans h.active) ?_
    intro tx' htx'
    cases htx.symm.trans htx'
    rw [committed_congr (hending.frame _ (by simp [Write.path]) (by simp) (by simp))]
    exact huncommitted
  rintro _ l1 t1 ⟨rfl, _, _, hat⟩
  have hactive1 : t1.files .active = some (.active state) := hat.file
  have huncommitted1 : ¬ Committed t1 tx.id := by
    rw [committed_congr (hat.others _ (by simp [Write.path]) (by simp) (by simp))]
    exact huncommitted
  have hwritten : ∀ {t' : World} {tx' : Transaction} {l' : Progress}, l'.active = l1.active →
      l'.activeWritten = true → l'.transaction = some tx' → tx'.status ≠ .preflightRejected →
      ¬ Committed t' tx'.id → Undecided w₀ l' t' := by
    intro t' tx' l' hactive hwritten htx' hstatus' huncommitted'
    refine ⟨fun hunwritten => ?_, fun _ => ?_, fun _ => ⟨tx', htx', hstatus'⟩, fun tx'' htx'' => ?_⟩
    · rw [hwritten] at hunwritten
      cases hunwritten
    · rw [hactive]
      exact h.located
    · cases htx'.symm.trans htx''
      exact huncommitted'
  refine meets_assign_bind (meets_bind (meets_still (c := .restart version false) rfl) ?_ ?_)
  swap
  · rintro e l2 t2 ⟨rfl, hfiles2, -⟩
    refine hwritten rfl rfl htx (by rw [hstatus]; decide) ?_
    rw [committed_congr (congrFun hfiles2 _)]
    exact huncommitted1
  rintro _ l2 t2 ⟨rfl, hfiles2, -⟩
  have htx2 : ({ l1 with activeWritten := true } : Progress).transaction = some tx := htx
  have huncommitted2 : ¬ Committed t2 tx.id := by
    rw [committed_congr (congrFun hfiles2 _)]
    exact huncommitted1
  refine (meets_writeJournal htx2 .committed "").weaken ?_
  rintro (e | a) l3 t3 ⟨rfl, hending⟩
  · have htx3 : (({ l1 with activeWritten := true } : Progress).marked .committed "").transaction =
        some { tx with status := .committed, error := cut "" } := by
      simp [Progress.marked, htx]
    refine hwritten rfl rfl htx3 (by simp) ?_
    exact uncommitted_of_ending rfl hending huncommitted2
  · intro tx' htx'
    have hmarked : tx' = { tx with status := .committed, error := cut "" } := by
      simpa [Progress.marked, htx, eq_comm] using htx'
    refine ⟨state, ?_, ?_, ?_⟩
    · rw [hending.frame _ (by simp [Write.path]) (by simp) (by simp), hfiles2]
      exact hactive1
    · rw [hmarked]
      exact hid.symm
    · rw [hmarked, h.names]
      exact hversion.symm

end Activation

/-! ## The compensation of an upgrade -/

/-- What a compensation that started from `t` has reached. -/
structure Compensated (w₀ : World) (progress : Progress) (t : World) (l' : Recovery) (t' : World) :
    Prop where
  committed : ∀ id, Committed t' id → Committed t id
  kept : progress.activeWritten = false → t'.files .active = w₀.files .active
  restored : l'.errors = [] → t'.standing = w₀.standing

section Compensation

variable {g : Guard} {w₀ t : World} {progress : Progress} {l : Recovery}

/-- The version of before is active again when the active state was restored. -/
lemma meets_restoreActive_agrees (hlocated : w₀.files .active = progress.active.map .active) :
    Ends g (fun r _ t' => (∀ id, Committed t' id → Committed t id) ∧
      ∀ a, r = .ok a → t'.standing = w₀.standing) (restoreActive progress) l t := by
  have hreplace : Ends g (fun r _ t' => (∀ id, Committed t' id → Committed t id) ∧
      ∀ a, r = .ok a → t'.standing = w₀.standing)
      (restoreActive.replaceOrRemove progress progress.active) l t := by
    cases hactive : progress.active with
    | some previous =>
      rw [hactive] at hlocated
      refine meets_bind (meets_atomicWrite (.restoration
        (restoredState previous progress.attemptedGeneration progress.id)) t) ?_ ?_
      · rintro _ l1 t1 ⟨-, _, _, hat⟩
        refine meets_assign ⟨fun id hid => ?_, fun _ _ => ?_⟩
        · rw [← committed_congr (hat.others _ (by simp [Write.path]) (by simp) (by simp))]
          exact hid
        · rw [standing_of_active hat.file, standing_of_active hlocated]
          rfl
      · rintro e l1 t1 ⟨-, hending⟩
        refine ⟨fun id hid => ?_, by rintro _ ⟨⟩⟩
        rw [← committed_congr (hending.frame _ (by simp [Write.path]) (by simp) (by simp))]
        exact hid
    | none =>
      rw [hactive] at hlocated
      refine meets_step (c := .remove .active) fun x r t1 _ hexec => ⟨fun id hid => ?_, ?_⟩
      · have hagree := agree_of_exec hexec
        rw [← committed_congr (hagree.files (.journal id) (by simp [Cmd.touched]))]
        exact hid
      · rintro a rfl
        rcases attempt_cases hexec with ⟨-, -, rfl⟩ | ⟨_, -, h, -⟩ | ⟨_, -, h, -⟩
        · refine standing_congr ?_
          rw [files_put_self, hlocated]
          rfl
        · cases h
        · cases h
  refine meets_bind hreplace ?_ fun e l1 t1 h1 => ⟨h1.1, by rintro _ ⟨⟩⟩
  intro a l1 t1 h1
  exact meets_assign ⟨h1.1, fun _ _ => h1.2 a rfl⟩

/-- If a compensation notes no failure, the version of before is active. -/
lemma meets_compensateUpgrade_agrees (h : Undecided w₀ progress t) :
    Ends g (fun r l' t' => Compensated w₀ progress t l' t' ∧
      ∃ result, r = .ok result ∧ result.2 = l'.errors) (compensateUpgrade progress) l t := by
  have hrestore : ∀ l1 t1, Tended l t l1 t1 → Ends g
      (fun _ l' t' => Compensated w₀ progress t l' t')
      (onlyIf progress.activeWritten (attemptStep "restore-active" (restoreActive progress))) l1
      t1 := by
    intro l1 t1 h1
    cases hwritten : progress.activeWritten with
    | false =>
      have hactive := h1.active.trans (h.kept hwritten)
      exact meets_pure ⟨h1.committed, fun _ => hactive, fun _ => standing_congr hactive⟩
    | true =>
      refine (meets_attemptStep_outcome (meets_restoreActive_agrees (h.located hwritten))).weaken ?_
      rintro r l2 t2 ⟨hcommitted, hstanding⟩
      refine ⟨fun id hid => h1.committed id (hcommitted id hid), fun hunwritten => ?_, hstanding⟩
      rw [hwritten] at hunwritten
      cases hunwritten
  refine meets_compensateUpgrade_of hrestore ?_
  intro l1 t1 l2 t2 hmid h2
  exact ⟨fun id hid => hmid.committed id (h2.committed id hid),
    fun hunwritten => h2.active.trans (hmid.kept hunwritten),
    fun hempty => (standing_congr h2.active).trans (hmid.restored (h2.errors hempty))⟩

end Compensation

/-! ## The handler of an upgrade -/

section Handler

variable {w w₀ t : World} {l l' : Progress} {α : Type} {progress : Progress}

/-- A call without a committed journal agrees if it has switched nothing or says so. -/
lemma agrees_of_uncommitted {r : Except Failure α}
    (huncommitted : ∀ tx, l.transaction = some tx → ¬ Committed t tx.id)
    (hrejected : ∀ e, r = .error e → ¬ e.isAggregate → t.standing = w₀.standing) :
    Agrees w₀ r l t :=
  ⟨fun tx htx hid => absurd hid (huncommitted tx htx), hrejected⟩

/-- No transaction with the same id is committed. -/
lemma uncommitted_congr {t' : World} (h : ∀ tx, l.transaction = some tx → ¬ Committed t tx.id)
    (hidentity : l'.identity = l.identity) (hcommitted : ∀ id, Committed t' id → Committed t id) :
    ∀ tx, l'.transaction = some tx → ¬ Committed t' tx.id := by
  intro tx htx hid
  have hidentity' : l.identity = some (tx.id, tx.operation, tx.toVersion) := by
    rw [← hidentity]
    simp [Progress.identity, htx]
  obtain ⟨tx', htx', hid', -⟩ := identity_eq_some hidentity'
  exact h tx' htx' (hid' ▸ hcommitted _ hid)

lemma identity_compensated (compensation : Compensation) :
    ({ l with transaction := l.transaction.map fun transaction =>
      { transaction with compensation := some compensation } } : Progress).identity =
      l.identity := by
  unfold Progress.identity
  rw [Option.map_map]
  rfl

/-- A blocked compensation is reported. -/
lemma meets_blockCompensation_agrees (err preflightError : Failure) {tx : Transaction}
    (htx : l.transaction = some tx) :
    Ends (Orderly w) (fun r l' t' => l'.identity = l.identity ∧
      (∀ id, Committed t' id → Committed t id) ∧ ∃ e, r = .error e ∧ e.isAggregate)
      (blockCompensation err preflightError) l t := by
  refine meets_assign_bind ?_
  have htx' : ({ l with transaction := l.transaction.map fun transaction =>
      { transaction with compensation := some ⟨.blocked, [{
        action := "post-failure-rollback-preflight"
        status := .failed
        error := cut preflightError.text }]⟩ } } : Progress).transaction = some { tx with
          compensation := some ⟨.blocked, [{
            action := "post-failure-rollback-preflight"
            status := .failed
            error := cut preflightError.text }]⟩ } := by
    simp [htx]
  refine meets_bind ((calm_writeJournal (by decide) _ _ _ t).both
    (meets_writeJournal htx' .compensationBlocked _)) ?_ ?_
  · rintro _ l1 t1 ⟨hcalm, -⟩
    obtain ⟨-, -, -, hidentity⟩ := plan_eq hcalm.plan
    exact meets_raise ⟨hidentity.trans (identity_compensated _), hcalm.committed, _, rfl, rfl⟩
  · rintro e l1 t1 ⟨-, -, hending⟩
    exact absurd rfl (reported_of_ending hending).2

/-- What undoing an upgrade leaves. -/
lemma meets_undo_agrees (h : Undecided w₀ progress t) :
    Ends (Orderly w) (fun r l' t' => l'.identity = l.identity ∧
      (∀ id, Committed t' id → Committed t id) ∧
      (progress.activeWritten = false → t'.files .active = w₀.files .active) ∧
      ∃ errors, r = .ok errors ∧ (errors = [] → t'.standing = w₀.standing))
      (undo progress) l t := by
  unfold undo
  split
  case isTrue =>
    have hcompensate : Ends (Orderly w) (fun r l' t' => l' = l ∧
        (∀ id, Committed t' id → Committed t id) ∧
        (progress.activeWritten = false → t'.files .active = w₀.files .active) ∧
        ∃ result, r = .ok result ∧ (result.2 = [] → t'.standing = w₀.standing))
        (enclosed (compensateUpgrade progress) { activeRestored := !progress.activeWritten }) l
        t := by
      refine meets_enclosed ((meets_compensateUpgrade_agrees h).weaken ?_)
      rintro r l1 t1 ⟨hcompensated, result, hresult, herrors⟩
      exact ⟨rfl, hcompensated.committed, hcompensated.kept, result, hresult,
        fun hempty => hcompensated.restored (herrors ▸ hempty)⟩
    refine meets_bind hcompensate ?_ ?_
    · rintro ⟨compensation, errors⟩ l1 t1 ⟨rfl, hcommitted, hkept, result, hresult, hstanding⟩
      cases hresult
      exact meets_assign_bind (meets_pure ⟨identity_compensated _, hcommitted, hkept, _, rfl,
        hstanding⟩)
    · rintro e l1 t1 ⟨-, -, -, result, hresult, -⟩
      cases hresult
  case isFalse hunchanged =>
    have hunwritten : progress.activeWritten = false := by
      rw [Bool.eq_false_iff]
      intro hwritten
      obtain ⟨tx, htx, -⟩ := h.begun hwritten
      refine hunchanged ⟨by rw [htx]; rfl, .inl ?_⟩
      simp [Progress.changed, hwritten]
    exact meets_pure ⟨rfl, fun _ => id, fun _ => h.kept hunwritten, [], rfl,
      fun _ => standing_congr (h.kept hunwritten)⟩

/-- The preflight of a compensation passes, or its rejection is reported. -/
lemma meets_preflight_agrees (err : Failure) :
    Ends (Orderly w) (fun r l' t' =>
      match r with
      | .ok _ => l' = l ∧ t'.files = t.files
      | .error e => e.isAggregate ∧ l'.identity = l.identity ∧
          ∀ id, Committed t' id → Committed t id)
      (onlyIf (l.transaction.isSome && l.activeWritten && l.previousVersion ≠ "")
        (catching (perform (.preflight l.previousVersion)) (blockCompensation err))) l t := by
  unfold onlyIf
  split
  case isFalse => exact meets_pure ⟨rfl, rfl⟩
  case isTrue hcondition =>
    obtain ⟨tx, htx⟩ : ∃ tx, l.transaction = some tx := by
      rw [← Option.isSome_iff_exists]
      simp only [Bool.and_eq_true] at hcondition
      exact hcondition.1.1
    refine meets_catching (meets_still (c := .preflight l.previousVersion) rfl) ?_ ?_
    · rintro a l1 t1 ⟨rfl, hfiles, -⟩
      exact ⟨rfl, hfiles⟩
    · rintro e l1 t1 ⟨rfl, hfiles, -⟩
      refine (meets_blockCompensation_agrees err e htx).weaken ?_
      rintro r l2 t2 ⟨hidentity, hcommitted, e', rfl, haggregate⟩
      refine ⟨haggregate, hidentity, fun id hid => ?_⟩
      rw [← committed_congr (congrFun hfiles _)]
      exact hcommitted id hid

/-- The report of a failed upgrade is written, or nothing is switched. -/
lemma meets_report_agrees {errors : List Failure} {error : String} {condition : Bool}
    (hkept : progress.activeWritten = false → t.files .active = w₀.files .active)
    (hrestored : errors = [] → t.standing = w₀.standing) :
    Ends (Orderly w) (fun r l' t' => l'.identity = l.identity ∧
      t'.standing = t.standing ∧ (∀ id, Committed t' id → Committed t id) ∧
      ∀ e, r = .error e → t.standing = w₀.standing)
      (onlyIf condition (writeJournal (failedStatus progress errors) error)) l t := by
  have hstatus : failedStatus progress errors ≠ .committed := by
    unfold failedStatus
    split
    · split <;> decide
    · decide
  cases condition with
  | false => exact meets_pure ⟨rfl, rfl, fun _ => id, nofun⟩
  | true =>
    have hcalm := calm_writeJournal hstatus error (Orderly w) l t
    have hthrows : Ends (Orderly w) (fun r _ _ => ∀ e, r = .error e →
        failedStatus progress errors ≠ .compensationFailed)
        (writeJournal (failedStatus progress errors) error) l t := by
      cases htx : l.transaction with
      | none =>
        refine (meets_writeJournal_none htx _ _).weaken ?_
        rintro r l' t' ⟨rfl, -⟩ e h
        cases h
      | some tx =>
        refine (meets_writeJournal htx _ _).weaken ?_
        rintro r l' t' ⟨-, hending⟩ e rfl
        exact (reported_of_ending hending).1
    refine (hcalm.both hthrows).weaken ?_
    rintro r l' t' ⟨hcalm, hthrows⟩
    obtain ⟨-, -, -, hidentity⟩ := plan_eq hcalm.plan
    refine ⟨hidentity, standing_congr hcalm.active, hcalm.committed, fun e he => ?_⟩
    -- A failed compensation is reported, so that this one has worked or there was none.
    have hfailed := hthrows e he
    unfold failedStatus at hfailed
    split at hfailed
    case isTrue =>
      split at hfailed
      case isTrue hempty => exact hrestored hempty
      case isFalse => exact absurd rfl hfailed
    case isFalse hchanged =>
      refine standing_congr (hkept ?_)
      rw [Bool.eq_false_iff]
      intro hwritten
      exact hchanged (by simp [Progress.changed, hwritten])

/-- The handler of an upgrade leaves the journal and the active state in agreement. -/
lemma meets_failUpgrade_agrees (err : Failure) (h : Undecided w₀ l t) :
    Ends (Orderly w) (fun r l' t' => Agrees w₀ r l' t')
      (failUpgrade err : Steps Progress α) l t := by
  refine meets_locals_bind (meets_raiseIf_bind (fun hrejected => ?_) fun _ => ?_)
  · refine agrees_of_uncommitted h.uncommitted fun _ _ _ => standing_congr (h.kept ?_)
    rw [Bool.eq_false_iff]
    intro hwritten
    obtain ⟨tx, htx, hstatus⟩ := h.begun hwritten
    rw [Progress.status, htx] at hrejected
    exact hstatus (Option.some.inj hrejected)
  refine meets_bind (meets_preflight_agrees err) ?_ ?_
  swap
  · rintro e l1 t1 ⟨haggregate, hidentity, hcommitted⟩
    refine agrees_of_uncommitted (uncommitted_congr h.uncommitted hidentity hcommitted) ?_
    rintro e' he hnot
    cases he
    exact absurd haggregate hnot
  rintro _ l1 t1 ⟨rfl, hfiles1⟩
  have hcommitted1 : ∀ id, Committed t1 id → Committed t id := fun id hid =>
    (committed_congr (congrFun hfiles1 _)).mp hid
  have hundecided : Undecided w₀ l1 t1 := by
    refine ⟨fun hunwritten => ?_, h.located, h.begun,
      uncommitted_congr h.uncommitted rfl hcommitted1⟩
    rw [hfiles1]
    exact h.kept hunwritten
  refine meets_bind (meets_undo_agrees hundecided) ?_ ?_
  swap
  · rintro e l2 t2 ⟨-, -, -, errors, h, -⟩
    cases h
  rintro errors l2 t2 ⟨hidentity2, hcommitted2, hkept2, _, herrors, hrestored2⟩
  cases herrors
  have huncommitted2 := uncommitted_congr hundecided.uncommitted hidentity2 hcommitted2
  refine meets_bind (meets_report_agrees hkept2 hrestored2) ?_ ?_
  swap
  · rintro e l3 t3 ⟨hidentity3, hstanding3, hcommitted3, hthrows⟩
    exact agrees_of_uncommitted (uncommitted_congr huncommitted2 hidentity3 hcommitted3)
      fun _ _ _ => hstanding3.trans (hthrows e rfl)
  rintro _ l3 t3 ⟨hidentity3, hstanding3, hcommitted3, -⟩
  have huncommitted3 := uncommitted_congr huncommitted2 hidentity3 hcommitted3
  refine meets_raiseIf_bind (fun _ => ?_) fun hempty => ?_
  · refine agrees_of_uncommitted huncommitted3 ?_
    rintro e he hnot
    cases he
    exact absurd rfl hnot
  · exact meets_raise (agrees_of_uncommitted huncommitted3 fun _ _ _ =>
      hstanding3.trans (hrestored2 (not_not.mp hempty)))

end Handler

/-! ## Upgrades -/

section Upgrade

variable {P : Platform} {w w₀ t : World} {l : Progress} {α : Type} {r : Except Failure α}

lemma agrees_of_still (htx : l.transaction = none) (hstanding : t.standing = w.standing) :
    Agrees w r l t := by
  refine agrees_of_uncommitted (fun tx h => ?_) fun _ _ _ => hstanding
  rw [htx] at h
  cases h

lemma Agrees.congr (h : Agrees w₀ r l t) (hstanding : w₀.standing = w.standing) : Agrees w r l t :=
  ⟨h.committed, fun e he hnot => (h.rejected e he hnot).trans hstanding⟩

/-- Giving back the lock at the end of a call. -/
lemma meets_release_agrees (h : Agrees w r l t) :
    Ends (Orderly w) (fun r' l' t' => Agrees w
      (Routine.settle r (r', l')).1 (Routine.settle r (r', l')).2 t') (perform .release) l t := by
  refine meets_step (c := .release) fun x r' t' hx hexec => ?_
  have hfiles : t'.files = t.files :=
    funext fun path => (agree_of_exec hexec).files path (by simp [Cmd.touched])
  have hcommitted : ∀ tx, l.transaction = some tx → Committed t' tx.id →
      ∃ state, t'.files .active = some (.active state) ∧ state.transactionID = tx.id ∧
        state.activeVersion = tx.toVersion := by
    intro tx htx hid
    rw [hfiles]
    exact h.committed tx htx ((committed_congr (congrFun hfiles _)).mp hid)
  have hstanding : t'.standing = t.standing := standing_congr (by rw [hfiles])
  cases r' with
  | ok a => exact ⟨hcommitted, fun e he hnot => hstanding.trans (h.rejected e he hnot)⟩
  | error e' => exact ⟨hcommitted, fun _ _ _ => hstanding.trans (hx.released rfl e' t' hexec)⟩

/-- An upgrade leaves the journal and the active state in agreement. -/
lemma meets_upgrade_agrees (request : UpgradeRequest) :
    Ends (Orderly w) (fun r l' t' => Agrees w r l' t') (upgrade P request) {}
      w := by
  refine meets_upgrade_of (fun r t1 hfiles _ => ?_) fun t1 hfiles _ => ?_
  · exact agrees_of_still rfl (standing_congr (congrFun hfiles _))
  have hstanding : t1.standing = w.standing := standing_congr (congrFun hfiles _)
  have htransaction : Ends (Orderly w) (fun r l' t' =>
      match r with
      | .ok _ => Switched l' t'
      | .error _ => Undecided t1 l' t') (upgradeTransaction P request) {} t1 := by
    refine meets_upgradeTransaction_of (fun e l t h => ?_) (fun result l t h htx => ?_)
      fun legacy state l t h => ?_
    · exact undecided_of_unwritten h.unwritten h.active h.uncommitted
    · intro tx htx'
      rw [htx] at htx'
      cases htx'
    · refine (meets_commitActive_agrees h).weaken ?_
      rintro (e | a) l' t' h'
      · exact h'
      · exact fun _ => h'
  have hsettle : Ends (Orderly w) (fun r l' t' => Agrees w r l' t')
      (catching (upgradeTransaction P request) failUpgrade) {} t1 := by
    refine meets_catching htransaction (fun a l2 t2 h2 => ?_) fun e l2 t2 h2 => ?_
    · exact ⟨fun tx htx _ => h2 tx htx, nofun⟩
    · exact (meets_failUpgrade_agrees e h2).weaken fun _ _ _ h3 => h3.congr hstanding
  exact meets_lastly hsettle fun r l2 t2 h2 => meets_release_agrees h2

end Upgrade

/-! ## Rollbacks -/

/-- What the handler of a rollback starts from: nothing is switched, or an incomplete compensation
was reported. -/
structure Stopped (w₀ : World) (e : Failure) (l : Progress) (t : World) : Prop where
  uncommitted : ∀ tx, l.transaction = some tx → ¬ Committed t tx.id
  standing : t.standing = w₀.standing ∨ (e.isAggregate ∧ l.status = some .compensationFailed)

section Rollback

variable {P : Platform} {w w₀ t : World} {selection : Selection} {l : Progress} {id : String}

/-- If the compensation of a rollback notes no failure, the version of before is active. -/
lemma meets_restorePrevious_agrees {g : Guard} {m : Recovery}
    (current : ActiveState) (generation : Nat) :
    Ends g (fun r _ t' => (∀ id, Committed t' id → Committed t id) ∧
      ∃ result, r = .ok result ∧ (result.2 = [] → t'.standing = some (some current.activeVersion)))
      (restorePrevious current generation id) m t := by
  have hwrite : Ends g (fun r _ t' => (∀ id, Committed t' id → Committed t id) ∧
      ∀ a, r = .ok a → t'.standing = some (some current.activeVersion)) (do
        atomicWrite (.restoration (restoredState current generation id))
        assign fun recovery => { recovery with
          restoredActive := some (restoredState current generation id) }) m t := by
    refine meets_bind (meets_atomicWrite _ t) ?_ ?_
    · rintro _ m1 t1 ⟨-, _, _, hat⟩
      refine meets_assign ⟨fun id hid => ?_, fun _ _ => (standing_of_active hat.file).trans rfl⟩
      exact (committed_congr (hat.others _ (by simp [Write.path]) (by simp) (by simp))).mp hid
    · rintro e m1 t1 ⟨-, hending⟩
      refine ⟨fun id hid => ?_, by rintro _ ⟨⟩⟩
      exact (committed_congr (hending.frame _ (by simp [Write.path]) (by simp) (by simp))).mp hid
  refine meets_total_bind (total_attemptStep _ _) (meets_attemptStep_outcome hwrite) ?_
  rintro _ m1 t1 ⟨hcommitted, hstanding⟩
  refine meets_locals_bind (meets_total_bind (total_onlyIf (total_attemptStep _ _))
    ((tends_attemptStep (apart_quiet rfl)).onlyIf g m1 t1) ?_)
  intro _ m2 t2 htended
  refine meets_locals_bind (meets_pure ⟨fun id hid => hcommitted id (htended.committed id hid), _,
    rfl, fun hempty => ?_⟩)
  rw [standing_congr htended.active]
  exact hstanding (htended.errors hempty)

/-- The compensation of a rollback throws, and has restored the version or reports it. -/
lemma meets_compensateRollback_agrees {tx : Transaction} (htx : l.transaction = some tx)
    (huncommitted : ¬ Committed t tx.id)
    (hcurrent : w₀.files .active = some (.active selection.current)) (generation : Nat)
    (err : Failure) :
    Ends (Orderly w) (fun r l' t' => ∃ e, r = .error e ∧ Stopped w₀ e l' t')
      (compensateRollback selection.current generation err) l t := by
  refine meets_locals_bind ?_
  have hrestore : Ends (Orderly w) (fun r l' t' => l' = l ∧
      (∀ id, Committed t' id → Committed t id) ∧
      ∃ result, r = .ok result ∧ (result.2 = [] → t'.standing = w₀.standing))
      (enclosed (restorePrevious selection.current generation l.id) {}) l t := by
    refine meets_enclosed ((meets_restorePrevious_agrees selection.current generation).weaken ?_)
    rintro r m t1 ⟨hcommitted, result, hresult, hstanding⟩
    refine ⟨rfl, hcommitted, result, hresult, fun hempty => ?_⟩
    rw [standing_of_active hcurrent]
    exact hstanding hempty
  refine meets_bind hrestore ?_ ?_
  swap
  · rintro e l1 t1 ⟨-, -, result, h, -⟩
    cases h
  rintro ⟨compensation, errors⟩ l1 t1 ⟨rfl, hcommitted1, result, hresult, hstanding1⟩
  cases hresult
  refine meets_assign_bind ?_
  have htx1 : ({ l1 with transaction := l1.transaction.map fun transaction =>
      { transaction with compensation := some compensation } } : Progress).transaction =
      some { tx with compensation := some compensation } := by
    simp [htx]
  have hstatus : (if errors = [] then Status.rolledBack else Status.compensationFailed) ≠
      .committed := by
    split <;> decide
  have huncommitted1 : ∀ tx', l1.transaction = some tx' → ¬ Committed t1 tx'.id := by
    intro tx' htx' hid
    cases htx.symm.trans htx'
    exact huncommitted (hcommitted1 _ hid)
  have hstopped : ∀ l2 t2, Calmly { l1 with transaction := l1.transaction.map fun transaction =>
      { transaction with compensation := some compensation } } t1 l2 t2 →
      ∀ tx', l2.transaction = some tx' → ¬ Committed t2 tx'.id := by
    intro l2 t2 hcalm
    obtain ⟨-, -, -, hidentity⟩ := plan_eq hcalm.plan
    exact uncommitted_congr huncommitted1 (hidentity.trans (identity_compensated _)) hcalm.committed
  refine meets_bind ((calm_writeJournal hstatus _ _ _ t1).both (meets_writeJournal htx1 _ _)) ?_ ?_
  swap
  · rintro e l2 t2 ⟨hcalm, -, hending⟩
    refine ⟨e, rfl, hstopped l2 t2 hcalm, .inl ((standing_congr hcalm.active).trans ?_)⟩
    refine hstanding1 ?_
    by_contra hne
    exact (reported_of_ending hending).1 (if_neg hne)
  rintro _ l2 t2 ⟨hcalm, hmarked, -⟩
  refine meets_raiseIf_bind (fun hne => ?_) fun hempty => meets_raise ?_
  · refine ⟨_, rfl, hstopped l2 t2 hcalm, .inr ⟨rfl, ?_⟩⟩
    rw [hmarked]
    simp [Progress.status, Progress.marked, htx, hne]
  · exact ⟨_, rfl, hstopped l2 t2 hcalm, .inl ((standing_congr hcalm.active).trans
      (hstanding1 (not_not.mp hempty)))⟩

/-- The activation of a rollback commits, or has switched nothing or reports it. -/
lemma meets_switchBack_agrees (h : ReadyBack w₀ selection id l t)
    (hcurrent : w₀.files .active = some (.active selection.current)) :
    Ends (Orderly w) (fun r l' t' =>
      match r with
      | .ok _ => Switched l' t'
      | .error e => Stopped w₀ e l' t') (switchBack P selection id) l t := by
  obtain ⟨tx, htx, hid, hversion, hoperation, hstatus, huncommitted⟩ := h.transaction
  refine meets_bind (meets_atomicWrite (.activation (rolledBackState P selection id)) t) ?_ ?_
  swap
  · rintro e l1 t1 ⟨rfl, hending⟩
    refine ⟨fun tx' htx' => ?_, .inl (standing_congr ((active_of_ending hending).trans h.active))⟩
    cases htx.symm.trans htx'
    rw [committed_congr (hending.frame _ (by simp [Write.path]) (by simp) (by simp))]
    exact huncommitted
  rintro _ l1 t1 ⟨rfl, _, _, hat⟩
  have huncommitted1 : ¬ Committed t1 tx.id := by
    rw [committed_congr (hat.others _ (by simp [Write.path]) (by simp) (by simp))]
    exact huncommitted
  have hrestart : Ends (Orderly w) (fun r l' t' =>
      either (fun e => Stopped w₀ e l' t') (fun _ => l' = l1 ∧ t'.files = t1.files) r)
      (catching (perform (.restart selection.current.activeVersion false))
        (compensateRollback selection.current (selection.current.generation + 1))) l1 t1 := by
    refine meets_catching (meets_still rfl) ?_ ?_
    · rintro a l2 t2 ⟨rfl, hfiles, -⟩
      exact ⟨rfl, hfiles⟩
    · rintro e l2 t2 ⟨rfl, hfiles, -⟩
      have huncommitted2 : ¬ Committed t2 tx.id := by
        rw [committed_congr (congrFun hfiles _)]
        exact huncommitted1
      refine (meets_compensateRollback_agrees htx huncommitted2 hcurrent _ e).weaken ?_
      rintro r l3 t3 ⟨e', rfl, hstopped⟩
      exact hstopped
  refine meets_bind hrestart ?_ fun e l2 t2 h2 => h2
  rintro _ l2 t2 ⟨rfl, hfiles2⟩
  refine meets_bind (meets_writeJournal htx .committed "") ?_ ?_
  · rintro _ l3 t3 ⟨rfl, hending⟩
    refine meets_pure fun tx' htx' => ?_
    have hmarked : tx' = { tx with status := .committed, error := cut "" } := by
      simpa [Progress.marked, htx, eq_comm] using htx'
    refine ⟨rolledBackState P selection id, ?_, ?_, ?_⟩
    · rw [hending.frame _ (by simp [Write.path]) (by simp) (by simp), hfiles2]
      exact hat.file
    · rw [hmarked]
      exact hid.symm
    · rw [hmarked]
      exact hversion.symm
  · rintro e l3 t3 ⟨-, hending⟩
    have hother := operation_of_ending hending rfl
    exact absurd hoperation hother

/-- The handler of a rollback leaves the journal and the active state in agreement. -/
lemma meets_failRollback_agrees {α : Type} {err : Failure} (h : Stopped w₀ err l t) :
    Ends (Orderly w) (fun r l' t' => Agrees w₀ r l' t')
      (failRollback err : Steps Progress α) l t := by
  refine meets_locals_bind ?_
  cases hreport : (l.status.any fun status =>
      !([.rolledBack, .committed, .preflightRejected, .compensationFailed].contains status)) with
  | false =>
    have hraise : Agrees w₀ (.error err : Except Failure α) l t := by
      refine agrees_of_uncommitted h.uncommitted fun e he hnot => ?_
      cases he
      rcases h.standing with hstanding | ⟨haggregate, -⟩
      · exact hstanding
      · exact absurd haggregate hnot
    exact meets_raise hraise
  | true =>
    have hstanding : t.standing = w₀.standing := by
      rcases h.standing with hstanding | ⟨-, hstatus⟩
      · exact hstanding
      · rw [hstatus] at hreport
        cases hreport
    have hagrees : ∀ {r : Except Failure α} (l1 t1), Calmly l t l1 t1 → Agrees w₀ r l1 t1 := by
      intro r l1 t1 hcalm
      obtain ⟨-, -, -, hidentity⟩ := plan_eq hcalm.plan
      exact agrees_of_uncommitted (uncommitted_congr h.uncommitted hidentity hcalm.committed)
        fun _ _ _ => (standing_congr hcalm.active).trans hstanding
    refine meets_bind (calm_writeJournal (by decide) _ _ l t) ?_ fun e l1 t1 h1 => hagrees l1 t1 h1
    intro _ l1 t1 hcalm
    exact meets_raise (hagrees l1 t1 hcalm)

/-- A rollback leaves the journal and the active state in agreement. -/
lemma meets_rollback_agrees (request : RollbackRequest) :
    Ends (Orderly w) (fun r l' t' => Agrees w r l' t') (rollback P request) {}
      w := by
  refine meets_rollback_of (fun r t1 hfiles _ => ?_) fun selection l1 t1 hcurrent h => ?_
  · exact agrees_of_still rfl (standing_congr (congrFun hfiles _))
  have htransaction : Ends (Orderly w) (fun r l' t' =>
      match r with
      | .ok _ => Switched l' t'
      | .error e => Stopped w e l' t') (rollbackTransaction P selection) l1 t1 := by
    refine meets_rollbackTransaction_of h (fun e l t hquiet => ?_) fun id l t hready => ?_
    · exact ⟨hquiet.uncommitted, .inl (standing_congr hquiet.active)⟩
    · exact meets_switchBack_agrees hready hcurrent
  have hsettle : Ends (Orderly w) (fun r l' t' => Agrees w r l' t')
      (catching (rollbackTransaction P selection) failRollback) l1 t1 := by
    refine meets_catching htransaction (fun a l2 t2 h2 => ?_) fun e l2 t2 h2 => ?_
    · exact ⟨fun tx htx _ => h2 tx htx, nofun⟩
    · exact meets_failRollback_agrees h2
  exact meets_lastly hsettle fun r l2 t2 h2 => meets_release_agrees h2

end Rollback

/-! ## Calls -/

/-- When a call is over, its journal says committed only if the active state is the one of the
transaction, and if the call was rejected without the report of an incomplete or blocked
compensation, the version is the one of before the call. -/
theorem journal_agrees (P : Platform) (call : Call) (w t : World) (xs : List Choice)
    (r : Except Failure CallResult) (l : Progress)
    (hrun : (call.script P {}).run (dataRoot.guard (Orderly w)) xs w = some ((r, l), t)) :
    Agrees w r l t := by
  have hcall : Meets (dataRoot.guard (Orderly w)) (fun r l' t' => Agrees w r l' t')
      (call.script P) {} w := by
    cases call with
    | upgrade request => exact meets_upgrade_agrees request
    | rollback request => exact meets_rollback_agrees request
  exact hcall.of_run hrun

/-- What the journal of a transaction says. -/
def World.journalStatus (w : World) (id : String) : Option Status :=
  match w.files (.journal id) with
  | some (.journal record) => some record.status
  | _ => none

lemma committed_of_journalStatus {id : String} (h : w.journalStatus id = some .committed) :
    Committed w id := by
  unfold World.journalStatus at h
  split at h
  · rename_i record hfile
    exact ⟨record, hfile, Option.some.inj h⟩
  · cases h

/-- The first installation: the record that commits it is put into place, the directory is synced
and that fails.  The installation is undone, and its journal says committed. -/
theorem committed_journal_without_active_state :
    ∃ xs r l t, ((Call.upgrade { toVersion := "0.3.1" }).script samplePlatform {}).run dataRoot xs
      emptyRoot = some ((r, l), t) ∧ ¬ Agrees emptyRoot r l t := by
  obtain ⟨⟨⟨r, l⟩, t⟩, hrun, haccept⟩ := Prog.exists_run (M := dataRoot)
    (p := (Call.upgrade { toVersion := "0.3.1" }).script samplePlatform {}) (s := emptyRoot)
    (sampleInstallation "t1" ++ smooth 11 ++ [.failsBefore ⟨false, "EIO: i/o error"⟩] ++ smooth 6)
    (fun o => o.1.2.transaction.map (·.id) = some "t1" ∧ o.2.files .active = none ∧
      o.2.journalStatus "t1" = some .committed) (by decide +kernel)
  obtain ⟨htransaction, hactive, hstatus⟩ := of_decide_eq_true haccept
  refine ⟨_, r, l, t, hrun, fun hagrees => ?_⟩
  obtain ⟨tx, htx, hid⟩ := Option.map_eq_some_iff.mp htransaction
  have hcommitted : Committed t tx.id := by
    rw [hid]
    exact committed_of_journalStatus hstatus
  obtain ⟨state, hfile, -⟩ := hagrees.committed tx htx hcommitted
  rw [hactive] at hfile
  cases hfile

/-- Steps of writes and the release of the lock work; the others may fail. -/
def smoothly (x : Choice) (c : Cmd) (w : World) : Bool :=
  (c.write?.isNone && c ≠ .release) ||
    (x = .works &&
      match exec x c w with
      | some (.ok _, _) => true
      | _ => false)

lemma orderly_of_smoothly {w₀ : World} {x : Choice} {c : Cmd} (h : smoothly x c w = true) :
    Orderly w₀ x c w := by
  have hworks : c.write?.isSome ∨ c = .release →
      x = .works ∧ ∀ e t, exec x c w ≠ some (.error e, t) := by
    intro hc
    rcases Bool.or_eq_true_iff.mp h with hother | hworks
    · rcases hc with hc | hc
      · simp [Option.isSome_iff_ne_none.mp hc] at hother
      · simp [hc] at hother
    · obtain ⟨hx, hok⟩ := Bool.and_eq_true_iff.mp hworks
      refine ⟨of_decide_eq_true hx, fun e t hexec => ?_⟩
      rw [hexec] at hok
      cases hok
  refine ⟨fun state hwrite e t hexec => ?_, ?_, ?_, fun record hwrite e t hexec => ?_,
    fun record hwrite _ e t hexec => ?_, fun hc e t hexec => ?_⟩
  · exact absurd hexec ((hworks (.inl (by rw [hwrite]; rfl))).2 e t)
  · rintro state fault rfl hx
    cases (hworks (.inl rfl)).1.symm.trans hx
  · rintro state fault rfl hx
    cases (hworks (.inl rfl)).1.symm.trans hx
  · exact absurd hexec ((hworks (.inl (by rw [hwrite]; rfl))).2 e t)
  · exact absurd hexec ((hworks (.inl (by rw [hwrite]; rfl))).2 e t)
  · exact absurd hexec ((hworks (.inr hc)).2 e t)

/-- The service does not start after an upgrade of the first installation, and the compensation
works: the journal says rolled back, and the version is the one of before. -/
theorem failed_upgrade_agrees :
    ∃ w xs r l t, ((Call.upgrade { toVersion := "0.3.2" }).script samplePlatform {}).run
      (dataRoot.guard (Orderly w)) xs w = some ((r, l), t) ∧ w.standing = some (some "0.3.1") ∧
        r = .error (.other "the service did not start") ∧
        t.journalStatus "t2" = some .rolledBack ∧ Agrees w r l t := by
  obtain ⟨⟨_, w⟩, ⟨⟨r, l⟩, t⟩, -, hrun, haccept⟩ := Prog.exists_runs
    (M := dataRoot.checked smoothly)
    (p := (Call.upgrade { toVersion := "0.3.1" }).script samplePlatform {})
    (q := (Call.upgrade { toVersion := "0.3.2" }).script samplePlatform {}) (s := emptyRoot)
    (sampleInstallation "t1" ++ smooth 15) failedUpgrade
    (fun w o => w.standing = some (some "0.3.1") ∧
      o.1.1 = .error (.other "the service did not start") ∧
      o.2.journalStatus "t2" = some .rolledBack) (by decide +kernel)
  obtain ⟨hstanding, hresult, hstatus⟩ := of_decide_eq_true haccept
  have hguard := Prog.run_guard (g := Orderly w) (fun _ _ _ => orderly_of_smoothly) hrun
  exact ⟨w, _, r, l, t, hguard, hstanding, hresult, hstatus,
    journal_agrees samplePlatform (.upgrade { toVersion := "0.3.2" }) w t _ r l hguard⟩

end AgentBell.Upgrade
