import AgentBell.Adapter.RuntimeProof
import AgentBell.Upgrade.Compensation
import AgentBell.Upgrade.Return

/-!
# Generations

Every write of the active state has a generation of its own, as long as no call starts without an
active state after one was written, and no rename of the active state throws after it replaced a
file that was set aside.  A proof that a hook recorded under one activation is then never accepted
for another.
-/

namespace AgentBell.Upgrade

open Interleaving

open Routine (assign catching lastly enclosed)

variable {P : Platform}

/-! ## What is recorded -/

/-- The generations of the activations so far are those of different transactions, and none is
beyond the active one. -/
structure History (w : World) : Prop where
  unique : ∀ p ∈ w.activations, ∀ q ∈ w.activations, p.1 = q.1 → p.2 = q.2
  current : ∀ state, w.files .active = some (.active state) → ∀ p ∈ w.activations,
    p.1 ≤ state.generation ∧ (p.1 = state.generation → p.2 = state.transactionID)

/-- All activations so far have earlier generations, or the given one and its transaction. -/
def Upto (generation : Nat) (id : String) (w : World) : Prop :=
  ∀ p ∈ w.activations, p.1 ≤ generation ∧ (p.1 = generation → p.2 = id)

/-- All activations so far have earlier generations. -/
def Before (generation : Nat) (w : World) : Prop := ∀ p ∈ w.activations, p.1 < generation

/-- The rename that replaces an active state that was set aside does not throw after it took
effect. -/
def Forward (x : Choice) (c : Cmd) (w : World) : Prop :=
  ∀ state fault, c = .replace (.activation state) ∨ c = .replace (.restoration state) →
    (w.files .backup).isSome → x ≠ .failsAfter fault

section History

variable {w t : World} {state : ActiveState}

lemma History.congr (h : History w) (hactive : t.files .active = w.files .active)
    (hactivations : t.activations = w.activations) : History t := by
  refine ⟨?_, ?_⟩
  · rw [hactivations]
    exact h.unique
  · rw [hactivations, hactive]
    exact h.current

/-- A state of a later generation is activated. -/
lemma History.activate (h : History w) (hbefore : Before state.generation w)
    (hactivations : t.activations = w.activations ++ [(state.generation, state.transactionID)])
    (hactive : t.files .active = some (.active state) ∨ t.files .active = none) :
    History t ∧ Upto state.generation state.transactionID t := by
  have hupto : Upto state.generation state.transactionID t := by
    intro p hp
    rw [hactivations, List.mem_append, List.mem_singleton] at hp
    rcases hp with hp | rfl
    · have hlt := hbefore p hp
      exact ⟨hlt.le, fun heq => absurd heq hlt.ne⟩
    · exact ⟨le_rfl, fun _ => rfl⟩
  refine ⟨⟨fun p hp q hq heq => ?_, fun state' hstate' => ?_⟩, hupto⟩
  · have hp' := hp
    have hq' := hq
    rw [hactivations, List.mem_append, List.mem_singleton] at hp' hq'
    rcases hp' with hp' | rfl
    · rcases hq' with hq' | rfl
      · exact h.unique p hp' q hq' heq
      · exact absurd heq (hbefore p hp').ne
    · exact ((hupto q hq).2 heq.symm).symm
  · rcases hactive with hactive | hactive
    · rw [hactive] at hstate'
      cases hstate'
      exact hupto
    · rw [hactive] at hstate'
      cases hstate'

lemma History.drop (h : History w) (hactive : t.files .active = none)
    (hactivations : t.activations = w.activations) : History t := by
  refine ⟨?_, fun state hstate => ?_⟩
  · rw [hactivations]
    exact h.unique
  · rw [hactive] at hstate
    cases hstate

lemma Before.upto (h : Before state.generation w) (hactivations : t.activations = w.activations) :
    Upto state.generation state.transactionID t := by
  intro p hp
  rw [hactivations] at hp
  have hlt := h p hp
  exact ⟨hlt.le, fun heq => absurd heq hlt.ne⟩

/-- A write of a state of a later generation. -/
lemma History.of_ending {g : Guard} {write : Write}
    {r : Except Failure Unit} (h : History w) (hbefore : Before state.generation w)
    (hg : ∀ x c s, g x c s → Forward x c s)
    (hwrite : write = .activation state ∨ write = .restoration state)
    (hending : write.Ending g w r t) : History t ∧ Upto state.generation state.transactionID t := by
  have hpath : write.path = .active := by
    rcases hwrite with rfl | rfl <;> rfl
  have hcontent : write.content = .active state := by
    rcases hwrite with rfl | rfl <;> rfl
  have hactivated : (w.activated write).activations =
      w.activations ++ [(state.generation, state.transactionID)] := by
    rcases hwrite with rfl | rfl <;> rfl
  have hkept : ∀ {file}, write.Ended w t file false → file = w.files .active ∨ file = none →
      History t ∧ Upto state.generation state.transactionID t := by
    rintro file ⟨_, _, hat⟩ hfile
    have hactive : t.files .active = file := hpath ▸ hat.file
    have hactivations : t.activations = w.activations := hat.activations
    refine ⟨?_, hbefore.upto hactivations⟩
    rcases hfile with rfl | rfl
    · exact h.congr hactive hactivations
    · exact h.drop hactive hactivations
  have hnew : ∀ {file}, write.Ended w t file true → file = some write.content ∨ file = none →
      History t ∧ Upto state.generation state.transactionID t := by
    rintro file ⟨_, _, hat⟩ hfile
    have hactive : t.files .active = file := hpath ▸ hat.file
    have hactivations : t.activations = (w.activated write).activations := hat.activations
    refine h.activate hbefore (hactivations.trans hactivated) ?_
    rw [hactive, ← hcontent]
    exact hfile
  cases r with
  | ok a => exact hnew hending (.inl rfl)
  | error e =>
    rcases hending.2.2 with hended | ⟨-, hended⟩ | ⟨-, hended | ⟨-, hended⟩⟩ | ⟨-, hreverted, -⟩
    · exact hkept hended (.inl (by rw [hpath]))
    · exact hkept hended (.inr rfl)
    · exact hnew hended (.inl rfl)
    · exact hnew hended (.inr rfl)
    · obtain ⟨fault, s, -, hbackup, hx⟩ := hreverted
      have hreplace : Cmd.replace write = .replace (.activation state) ∨
          Cmd.replace write = .replace (.restoration state) := by
        rcases hwrite with rfl | rfl
        · exact .inl rfl
        · exact .inr rfl
      exact absurd rfl (hg _ _ s hx state fault hreplace hbackup)

end History

/-! ## Upgrades -/

/-- A call may start: there is an active state, or there never was one. -/
def World.Startable (w : World) : Prop := (w.files .active).isSome ∨ w.activations = []

/-- What the handler of an upgrade starts from. -/
structure Reversible (l : Progress) (t : World) : Prop where
  history : History t
  upto : l.activeWritten = true → Upto l.attemptedGeneration l.id t

/-- All files but the active state. -/
def elsewhere : Set Path := {path | path ≠ .active}

lemma ordinary_elsewhere : Ordinary elsewhere := by
  constructor <;> simp [elsewhere]

section Upgrade

variable {P : Platform} {g : Guard} {w₀ t : World} {l : Progress}
  {version : String} {legacy : Option String} {state : ActiveState} {α : Type} {progress : Progress}
  {m : Recovery}

/-- A routine that does not write to the active state. -/
lemma Touches.elsewhere {ℓ : Type} {p : Steps ℓ α} {m : ℓ} (hp : Touches elsewhere p) :
    Ends g (fun _ _ t' => t'.files .active = t.files .active ∧
      t'.activations = t.activations) p m t := by
  refine hp.meets.weaken ?_
  rintro r m' t' ⟨hfiles, hactivations⟩
  exact ⟨hfiles _ (by simp [Upgrade.elsewhere]), hactivations (by simp [Upgrade.elsewhere])⟩

/-- A routine that keeps the generations apart. -/
abbrev KeepsHistory {ℓ : Type} (g : Guard) (p : Steps ℓ α) (m : ℓ) (t : World) : Prop :=
  Ends g (fun _ _ t' => History t') p m t

/-- A routine that does not write to the active state, and what comes after it. -/
lemma Touches.history_bind {ℓ β : Type} {p : Steps ℓ β} {f : β → Steps ℓ α}
    {m : ℓ} (hp : Touches Upgrade.elsewhere p) (h : History t)
    (hf : ∀ a m' t', History t' → KeepsHistory g (f a) m' t') : KeepsHistory g (p >>= f) m t := by
  refine meets_bind hp.elsewhere ?_ fun e m1 t1 h1 => h.congr h1.1 h1.2
  exact fun a m1 t1 h1 => hf a m1 t1 (h.congr h1.1 h1.2)

/-- The lock is released at the end. -/
lemma KeepsHistory.release {p : Steps Progress α} (hp : KeepsHistory g p l t) :
    KeepsHistory g (lastly p (perform .release)) l t := by
  refine meets_lastly hp fun r l2 t2 h2 => ?_
  refine (meets_still (c := .release) rfl).weaken ?_
  rintro r' l3 t3 ⟨-, hfiles3, hactivations3⟩
  exact h2.congr (congrFun hfiles3 _) hactivations3

/-- The generation of the next activation is beyond those so far. -/
lemma Ready.before (h : Ready w₀ version legacy state l t) (hhistory : History w₀)
    (hstart : w₀.Startable) : Before state.generation t := by
  intro p hp
  rw [h.activations] at hp
  rw [h.generation]
  have hlocated := h.located
  cases hactive : l.active with
  | some previous =>
    rw [hactive] at hlocated
    have hle := (hhistory.current previous hlocated p hp).1
    exact Nat.lt_succ_of_le hle
  | none =>
    rw [hactive] at hlocated
    rcases hstart with hsome | hempty
    · rw [hlocated] at hsome
      cases hsome
    · rw [hempty] at hp
      cases hp

variable (hg : ∀ x c s, g x c s → Forward x c s)

include hg

/-- The activation leaves what the handler can undo. -/
lemma meets_commitActive_reversible (h : Ready w₀ version legacy state l t)
    (hhistory : History w₀) (hstart : w₀.Startable) :
    Ends g (fun _ l' t' => Reversible l' t') (commitActive state version) l t := by
  have hbefore := h.before hhistory hstart
  have hhistory' := hhistory.congr h.active h.activations
  refine meets_bind (meets_atomicWrite (.activation state) t) ?_ ?_
  swap
  · rintro e l1 t1 ⟨rfl, hending⟩
    obtain ⟨hhistory1, -⟩ := hhistory'.of_ending hbefore hg (.inl rfl) hending
    refine ⟨hhistory1, fun hwritten => ?_⟩
    rw [h.unwritten] at hwritten
    cases hwritten
  rintro _ l1 t1 ⟨rfl, hending⟩
  obtain ⟨hhistory1, hupto1⟩ := hhistory'.of_ending hbefore hg (.inl rfl) hending
  obtain ⟨tx, htx, hid, -⟩ := h.transaction
  have hid' : l1.id = state.transactionID := by
    unfold Progress.id
    rw [htx]
    exact hid
  have hreversible : ∀ {l' : Progress} {t' : World},
      l'.fixed = { l1 with activeWritten := true }.fixed →
      t'.files .active = t1.files .active → t'.activations = t1.activations →
      Reversible l' t' := by
    intro l' t' hfixed hactive hactivations
    obtain ⟨-, -, -, -, -, hattempted, -⟩ := stance_eq (congrArg Prod.fst hfixed)
    have hidentity : l'.identity = l1.identity := congrArg Prod.snd hfixed
    refine ⟨hhistory1.congr hactive hactivations, fun _ p hp => ?_⟩
    rw [hactivations] at hp
    rw [hattempted, id_congr hidentity, hid', h.attempted]
    exact hupto1 p hp
  refine meets_assign_bind (meets_bind (meets_still (c := .restart version false) rfl) ?_ ?_)
  · rintro _ l2 t2 ⟨rfl, hfiles2, hactivations2⟩
    have hjournal := apart_writeJournal ordinary_elsewhere .committed ""
    refine (hjournal.steady.meets.both hjournal.touches.elsewhere).weaken ?_
    rintro r l3 t3 ⟨hfixed, hactive, hactivations⟩
    exact hreversible hfixed (by rw [hactive, hfiles2]) (hactivations.trans hactivations2)
  · rintro e l2 t2 ⟨rfl, hfiles2, hactivations2⟩
    exact hreversible rfl (by rw [hfiles2]) hactivations2

/-- A state is restored under a generation beyond those so far. -/
lemma meets_restoration_history {generation : Nat} {id id' : String} {f : Recovery → Recovery}
    (previous : ActiveState) (hhistory : History t) (hupto : Upto generation id t) :
    KeepsHistory g (do
      atomicWrite (.restoration (restoredState previous generation id'))
      assign f) m t := by
  have hbefore : Before (restoredState previous generation id').generation t :=
    fun p hp => Nat.lt_succ_of_le (hupto p hp).1
  refine meets_bind (meets_atomicWrite _ t) ?_ ?_
  · rintro _ m1 t1 ⟨-, hending⟩
    exact meets_assign (hhistory.of_ending hbefore hg (.inr rfl) hending).1
  · rintro e m1 t1 ⟨-, hending⟩
    exact (hhistory.of_ending hbefore hg (.inr rfl) hending).1

/-- The state of before is restored. -/
lemma meets_restoreActive_history (hhistory : History t)
    (hupto : Upto progress.attemptedGeneration progress.id t) :
    KeepsHistory g (restoreActive progress) m t := by
  have hreplace : KeepsHistory g (restoreActive.replaceOrRemove progress progress.active) m t := by
    cases progress.active with
    | some previous => exact meets_restoration_history hg previous hhistory hupto
    | none =>
      refine meets_step (c := .remove .active) fun x r t1 _ hexec => ?_
      have hremoved : History (t.put .active none) := hhistory.drop files_put_self rfl
      rcases attempt_cases hexec with ⟨-, -, rfl⟩ | ⟨_, -, -, rfl⟩ | ⟨_, -, -, rfl⟩
      · exact hremoved
      · exact hhistory
      · exact hremoved
  refine meets_bind hreplace ?_ fun e m1 t1 h1 => h1
  intro _ m1 t1 h1
  exact meets_assign h1

/-- The compensation of an upgrade keeps the generations apart. -/
lemma meets_compensateUpgrade_history (h : Reversible progress t) :
    KeepsHistory g (compensateUpgrade progress) m t := by
  have hrestore : ∀ m1 t1, Tended m t m1 t1 → KeepsHistory g
      (onlyIf progress.activeWritten (attemptStep "restore-active" (restoreActive progress))) m1
      t1 := by
    intro m1 t1 h1
    have hhistory := h.history.congr h1.active h1.activations
    cases hwritten : progress.activeWritten with
    | false => exact meets_pure hhistory
    | true =>
      refine meets_attemptStep (meets_restoreActive_history hg hhistory ?_)
        (fun _ _ _ h2 => h2) fun _ _ _ _ h2 => h2
      intro p hp
      rw [h1.activations] at hp
      exact h.upto hwritten p hp
  have hcompensate := meets_compensateUpgrade_of hrestore
    fun _ t1 _ t2 (h1 : History t1) h2 => h1.congr h2.active h2.activations
  exact hcompensate.weaken fun _ _ _ h1 => h1.1

/-- The handler of an upgrade keeps the generations apart. -/
lemma meets_failUpgrade_history (err : Failure) (h : Reversible l t) :
    KeepsHistory g (failUpgrade err : Steps Progress α) l t := by
  refine meets_locals_bind (meets_raiseIf_bind (fun _ => h.history) fun _ => ?_)
  refine meets_bind ((apart_quiet rfl).catching fun e =>
    apart_blockCompensation ordinary_elsewhere err e).onlyIf.touches.elsewhere ?_
    fun e l1 t1 h1 => h.history.congr h1.1 h1.2
  rintro _ l1 t1 ⟨hactive1, hactivations1⟩
  have hreversible : Reversible l t1 := by
    refine ⟨h.history.congr hactive1 hactivations1, fun hwritten p hp => ?_⟩
    rw [hactivations1] at hp
    exact h.upto hwritten p hp
  have hundo : KeepsHistory g (undo l) l1 t1 := by
    unfold undo
    split
    · have hcompensate : KeepsHistory g
          (enclosed (compensateUpgrade l) { activeRestored := !l.activeWritten }) l1 t1 :=
        meets_enclosed (meets_compensateUpgrade_history hg hreversible)
      refine meets_bind hcompensate ?_ fun e l2 t2 h2 => h2
      intro result l2 t2 h2
      exact meets_assign_bind (meets_pure h2)
    · exact meets_pure hreversible.history
  refine meets_bind hundo ?_ fun e l2 t2 h2 => h2
  intro errors l2 t2 hhistory2
  refine (apart_writeJournal ordinary_elsewhere _ _).onlyIf.touches.history_bind hhistory2 ?_
  intro _ l3 t3 hhistory3
  exact meets_raiseIf_bind (fun _ => hhistory3) fun _ => meets_raise hhistory3

/-- An upgrade keeps the generations apart. -/
lemma meets_upgrade_history (request : UpgradeRequest) (hhistory : History t)
    (hstart : t.Startable) : KeepsHistory g (upgrade P request) {} t := by
  refine meets_upgrade_of (fun _ t1 hfiles hactivations =>
    hhistory.congr (congrFun hfiles _) hactivations) fun t1 hfiles hactivations => ?_
  have hhistory1 : History t1 := hhistory.congr (congrFun hfiles _) hactivations
  have hstart1 : t1.Startable := by
    unfold World.Startable
    rw [hfiles, hactivations]
    exact hstart
  have htransaction : Ends g (fun _ l' t' => Reversible l' t')
      (upgradeTransaction P request) {} t1 := by
    have hquiet : ∀ {l : Progress} {t : World}, Quiet t1 l t → Reversible l t := by
      intro l t h
      refine ⟨hhistory1.congr h.active h.activations, fun hwritten => ?_⟩
      rw [h.unwritten] at hwritten
      cases hwritten
    refine meets_upgradeTransaction_of (fun _ _ _ h => hquiet h) (fun _ _ _ h _ => hquiet h) ?_
    intro legacy state l t h
    refine (meets_commitActive_reversible hg h hhistory1 hstart1).weaken ?_
    rintro (e | a) l' t' h'
    · exact h'
    · exact fun _ => h'
  have hsettle : KeepsHistory g (catching (upgradeTransaction P request) failUpgrade) {} t1 := by
    refine meets_catching htransaction (fun a l2 t2 h2 => h2.history) fun e l2 t2 h2 => ?_
    exact meets_failUpgrade_history hg e h2
  exact hsettle.release

end Upgrade

/-! ## Rollbacks -/

section Rollback

variable {P : Platform} {g : Guard} {w₀ t : World} {l : Progress}
  {selection : Selection} {id : String} (hg : ∀ x c s, g x c s → Forward x c s)

include hg

/-- The compensation of a rollback keeps the generations apart. -/
lemma meets_compensateRollback_history (current : ActiveState) {generation : Nat} (err : Failure)
    (hhistory : History t) (hupto : Upto generation id t) :
    KeepsHistory g (compensateRollback current generation err) l t := by
  refine meets_locals_bind ?_
  have hrestore : KeepsHistory g (enclosed (restorePrevious current generation l.id) {}) l t := by
    refine meets_enclosed ?_
    refine meets_bind (meets_attemptStep (meets_restoration_history hg current hhistory hupto)
      (fun _ _ _ h1 => h1) fun _ _ _ _ h1 => h1) ?_ fun e m1 t1 h1 => h1
    intro _ m1 t1 hhistory1
    refine meets_locals_bind (Touches.history_bind (within_onlyIf (within_attemptStep
      (touches_quiet rfl))) hhistory1 ?_)
    exact fun _ m2 t2 hhistory2 => meets_locals_bind (meets_pure hhistory2)
  refine meets_bind hrestore ?_ fun e l1 t1 h1 => h1
  intro result l1 t1 hhistory1
  refine meets_assign_bind
    ((apart_writeJournal ordinary_elsewhere _ _).touches.history_bind hhistory1 ?_)
  intro _ l2 t2 hhistory2
  exact meets_raiseIf_bind (fun _ => hhistory2) fun _ => meets_raise hhistory2

/-- The activation of a rollback keeps the generations apart. -/
lemma meets_switchBack_history (h : ReadyBack w₀ selection id l t) (hhistory : History w₀)
    (hcurrent : w₀.files .active = some (.active selection.current)) :
    KeepsHistory g (switchBack P selection id) l t := by
  have hbefore : Before (rolledBackState P selection id).generation t := by
    intro p hp
    rw [h.activations] at hp
    exact Nat.lt_succ_of_le (hhistory.current _ hcurrent p hp).1
  have hhistory' := hhistory.congr h.active h.activations
  refine meets_bind (meets_atomicWrite (.activation (rolledBackState P selection id)) t) ?_ ?_
  swap
  · rintro e l1 t1 ⟨-, hending⟩
    exact (hhistory'.of_ending hbefore hg (.inl rfl) hending).1
  rintro _ l1 t1 ⟨-, hending⟩
  obtain ⟨hhistory1, hupto1⟩ := hhistory'.of_ending hbefore hg (.inl rfl) hending
  have hrestart : KeepsHistory g
      (catching (perform (.restart selection.current.activeVersion false))
        (compensateRollback selection.current (selection.current.generation + 1))) l1 t1 := by
    refine meets_catching (meets_still rfl) ?_ ?_
    · rintro a l2 t2 ⟨-, hfiles2, hactivations2⟩
      exact hhistory1.congr (congrFun hfiles2 _) hactivations2
    · rintro e l2 t2 ⟨-, hfiles2, hactivations2⟩
      have hupto2 : Upto (selection.current.generation + 1) id t2 := by
        intro p hp
        rw [hactivations2] at hp
        exact hupto1 p hp
      exact meets_compensateRollback_history hg selection.current e
        (hhistory1.congr (congrFun hfiles2 _) hactivations2) hupto2
  refine meets_bind hrestart ?_ fun e l2 t2 h2 => h2
  intro _ l2 t2 hhistory2
  exact (apart_writeJournal ordinary_elsewhere _ _).touches.history_bind hhistory2
    fun _ l3 t3 hhistory3 => meets_pure hhistory3

/-- A rollback keeps the generations apart. -/
lemma meets_rollback_history (request : RollbackRequest) (hhistory : History t) :
    KeepsHistory g (rollback P request) {} t := by
  refine meets_rollback_of (fun _ t1 hfiles hactivations =>
    hhistory.congr (congrFun hfiles _) hactivations) fun selection l1 t1 hcurrent h => ?_
  have htransaction : KeepsHistory g (rollbackTransaction P selection) l1 t1 :=
    meets_rollbackTransaction_of h
      (fun _ _ _ hquiet => hhistory.congr hquiet.active hquiet.activations)
      fun id l t hready => meets_switchBack_history hg hready hhistory hcurrent
  have hsettle : KeepsHistory g
      (catching (rollbackTransaction P selection) failRollback) l1 t1 := by
    refine meets_catching htransaction (fun a l2 t2 h2 => h2) fun e l2 t2 h2 => ?_
    refine meets_locals_bind
      ((apart_writeJournal ordinary_elsewhere _ _).onlyIf.touches.history_bind h2 ?_)
    exact fun _ l3 t3 hhistory3 => meets_raise hhistory3
  exact hsettle.release

end Rollback

/-! ## Sequences of calls -/

/-- Calls one after the other on one data root, each from a data root it may start from. -/
inductive Calls (P : Platform) (M : Machine Cmd (fun c => Except Failure (Reply c)) World Choice)
    (start : World → Prop) : World → World → Prop
  | refl (w : World) : Calls P M start w w
  | step {w s t : World} (call : Call) (xs : List Choice)
      (o : Except Failure CallResult × Progress) : Calls P M start w s → start s →
      (call.script P {}).run M xs s = some (o, t) → Calls P M start w t

/-- The activation that is in place is the first one that is recorded. -/
def World.Logged (w : World) : Prop :=
  w.activations =
    match w.files .active with
    | some (.active state) => [(state.generation, state.transactionID)]
    | _ => []

variable {w : World}

lemma World.Logged.history (h : w.Logged) : History w := by
  unfold World.Logged at h
  split at h
  · rename_i state hactive
    refine ⟨fun p hp q hq _ => ?_, fun state' hstate' p hp => ?_⟩
    · rw [h, List.mem_singleton] at hp hq
      rw [hp, hq]
    · rw [hactive] at hstate'
      cases hstate'
      rw [h, List.mem_singleton] at hp
      rw [hp]
      exact ⟨le_rfl, fun _ => rfl⟩
  · refine ⟨fun p hp => ?_, fun _ _ p hp => ?_⟩
    all_goals
      rw [h] at hp
      cases hp

variable {t : World}

/-- A call keeps the generations apart. -/
lemma Call.history {call : Call} {xs : List Choice} {o : Except Failure CallResult × Progress}
    (hrun : (call.script P {}).run (dataRoot.guard Forward) xs w = some (o, t))
    (hhistory : History w) (hstart : w.Startable) : History t := by
  have hcall : Ends Forward (fun _ _ t' => History t') (call.script P) {} w := by
    cases call with
    | upgrade request => exact meets_upgrade_history (fun _ _ _ hx => hx) request hhistory hstart
    | rollback request => exact meets_rollback_history (fun _ _ _ hx => hx) request hhistory
  exact hcall.of_run hrun

lemma Calls.history (hcalls : Calls P (dataRoot.guard Forward) World.Startable w t)
    (hhistory : History w) : History t := by
  induction hcalls with
  | refl => exact hhistory
  | step call xs o _ hstart hrun ih => exact Call.history hrun ih hstart

/-- Over any sequence of calls, two activations of different transactions have different
generations, and a proof that was recorded under one is not accepted for the other. -/
theorem generations_distinct (P : Platform) (w t : World) (hw : w.Logged)
    (hcalls : Calls P (dataRoot.guard Forward) World.Startable w t) :
    ∀ p ∈ t.activations, ∀ q ∈ t.activations, p.2 ≠ q.2 → p.1 ≠ q.1 ∧
      ∀ adapterID eventName seenAt coreVersion proof config,
        Adapter.recordRuntimeProofWithContext adapterID eventName seenAt
          ⟨Adapter.stableBridgeProtocol, coreVersion, p.1⟩ = .ok proof →
        (Adapter.runtimeEventProofAfterConfigAndGeneration (some proof) adapterID eventName config
          q.1).2 = false ∧
        (Adapter.runtimeProofAfterConfigAndGeneration (some proof) adapterID config q.1).2 =
          false := by
  intro p hp q hq hne
  have hgeneration : p.1 ≠ q.1 := fun heq =>
    hne ((hcalls.history hw.history).unique p hp q hq heq)
  refine ⟨hgeneration, ?_⟩
  intro adapterID eventName seenAt coreVersion proof config hrecord
  constructor
  · rw [Bool.eq_false_iff]
    exact fun h => hgeneration (Adapter.generation_of_accepted hrecord (.inl h))
  · rw [Bool.eq_false_iff]
    exact fun h => hgeneration (Adapter.generation_of_accepted hrecord (.inr h))

/-- Two calls, one after the other. -/
lemma exists_two_calls {M : Machine Cmd (fun c => Except Failure (Reply c)) World Choice}
    (start : World → Prop) (first second : Call) (xs ys : List Choice)
    (accept : World → World → Bool) (hw : start w) (hstart : ∀ s t, accept s t = true → start s)
    (hrun : ((first.script P {}).run M xs w).any (fun o =>
      ((second.script P {}).run M ys o.2).any fun o' => accept o.2 o'.2) = true) :
    ∃ s t, Calls P M start w t ∧ accept s t = true := by
  obtain ⟨o, o', hfirst, hsecond, haccept⟩ :=
    Prog.exists_runs xs ys (fun s o' => accept s o'.2) hrun
  exact ⟨o.2, o'.2, .step second ys o'.1 (.step first xs o.1 (.refl w) hw hfirst)
    (hstart _ _ haccept) hsecond, haccept⟩

/-- The first installation fails at the restart of the service and is undone, so that there is no
active state again; the second one gets the same generation, and a proof recorded under the first
is accepted for the second. -/
theorem generation_used_twice :
    ∃ t, Calls samplePlatform dataRoot (fun _ => True) emptyRoot t ∧
      ∃ p ∈ t.activations, ∃ q ∈ t.activations, p.2 ≠ q.2 ∧ p.1 = q.1 ∧
        ∃ proof, Adapter.recordRuntimeProofWithContext "codex" "task.completed" (1 : Int)
          ⟨Adapter.stableBridgeProtocol, "0.3.1", p.1⟩ = .ok proof ∧
          (Adapter.runtimeEventProofAfterConfigAndGeneration (some proof) "codex" "task.completed"
            (some (1 : Int)) q.1).2 = true := by
  obtain ⟨s, t, hcalls, haccept⟩ := exists_two_calls (P := samplePlatform) (M := dataRoot)
    (w := emptyRoot) (fun _ => True)
    (.upgrade { toVersion := "0.3.1" }) (.upgrade { toVersion := "0.3.1" })
    (sampleInstallation "t1" ++ smooth 3 ++ [.failsBefore ⟨false, "the service did not start"⟩] ++
      smooth 14)
    (sampleInstallation "t2" ++ smooth 15)
    (fun _ t => t.activations = [(1, "t1"), (1, "t2")]) trivial (fun _ _ _ => trivial)
    (by decide +kernel)
  have hactivations : t.activations = [(1, "t1"), (1, "t2")] := of_decide_eq_true haccept
  refine ⟨t, hcalls, (1, "t1"), ?_, (1, "t2"), ?_, by decide, rfl, _, rfl, by decide +kernel⟩
  · rw [hactivations]
    exact List.mem_cons_self
  · rw [hactivations]
    exact List.mem_cons_of_mem _ List.mem_cons_self

/-- An operation either takes effect and returns or throws before it took effect. -/
def settled (x : Choice) (_ : Cmd) (_ : World) : Bool :=
  match x with
  | .failsAfter _ => false
  | _ => true

lemma forward_of_settled {x : Choice} {c : Cmd} (h : settled x c w = true) : Forward x c w := by
  rintro state fault - - rfl
  cases h

/-- Calls all of whose operations pass a test are calls of the machine that a weaker guard
limits. -/
lemma Calls.guard {test : Choice → Cmd → World → Bool} {g : Guard}
    {start : World → Prop} (h : Calls P (dataRoot.checked test) start w t)
    (hg : ∀ x c s, test x c s = true → g x c s) : Calls P (dataRoot.guard g) start w t := by
  induction h with
  | refl => exact .refl _
  | step call xs o _ hstart hrun ih => exact .step call xs o ih hstart (Prog.run_guard hg hrun)

/-- An installation and an upgrade. -/
theorem generations_of_upgrade :
    ∃ t, Calls samplePlatform (dataRoot.guard Forward) World.Startable emptyRoot t ∧
      t.activations = [(1, "t1"), (2, "t2")] ∧
      ∀ p ∈ t.activations, ∀ q ∈ t.activations, p.2 ≠ q.2 → p.1 ≠ q.1 ∧
      ∀ adapterID eventName seenAt coreVersion proof config,
        Adapter.recordRuntimeProofWithContext adapterID eventName seenAt
          ⟨Adapter.stableBridgeProtocol, coreVersion, p.1⟩ = .ok proof →
        (Adapter.runtimeEventProofAfterConfigAndGeneration (some proof) adapterID eventName config
          q.1).2 = false ∧
        (Adapter.runtimeProofAfterConfigAndGeneration (some proof) adapterID config q.1).2 =
          false := by
  obtain ⟨s, t, hcalls, haccept⟩ := exists_two_calls (P := samplePlatform)
    (M := dataRoot.checked settled) (w := emptyRoot) World.Startable
    (.upgrade { toVersion := "0.3.1" }) (.upgrade { toVersion := "0.3.2" })
    (sampleInstallation "t1" ++ smooth 15)
    (smooth 4 ++ [.named "t2"] ++ smooth 21 ++ [.gives nextBundle] ++ smooth 82)
    (fun s t => (s.files .active).isSome ∧ t.activations = [(1, "t1"), (2, "t2")]) (.inr rfl)
    (fun s t h => .inl (of_decide_eq_true h).1) (by decide +kernel)
  have hforward := hcalls.guard (g := Forward) fun _ _ _ => forward_of_settled
  exact ⟨t, hforward, (of_decide_eq_true haccept).2,
    generations_distinct samplePlatform emptyRoot t rfl hforward⟩

end AgentBell.Upgrade
