import AgentBell.Upgrade.CoreKept
import AgentBell.Upgrade.Preparation

/-!
# Compensations

A compensation undoes an upgrade step by step and notes which steps fail; it never throws.  Only one
of its steps writes to the active state.

What the other steps keep is a preorder on what is noted and what is stored, so that it holds of any
sequence of them.  What a property of an upgrade has to say about its compensation is then about one
step only.
-/

namespace AgentBell.Upgrade

open Interleaving

open Routine (locals assign)

/-! ## Steps that leave the active state alone -/

/-- What a step of a compensation keeps. -/
structure Tended (l : Recovery) (t : World) (l' : Recovery) (t' : World) : Prop where
  errors : l'.errors = [] → l.errors = []
  active : t'.files .active = t.files .active
  activations : t'.activations = t.activations
  committed : ∀ id, Committed t' id → Committed t id

/-- A step of a compensation that does not write to the active state. -/
def Tends {α : Type} (p : Steps Recovery α) : Prop :=
  ∀ g l t, Meets (dataRoot.guard g) (fun _ l' t' => Tended l t l' t') p l t

section Tends

variable {α β : Type}

lemma Tended.trans {l l' l'' : Recovery} {t t' t'' : World} (h : Tended l t l' t')
    (h' : Tended l' t' l'' t'') : Tended l t l'' t'' where
  errors hempty := h.errors (h'.errors hempty)
  active := h'.active.trans h.active
  activations := h'.activations.trans h.activations
  committed id hid := h.committed id (h'.committed id hid)

lemma tends_pure (a : α) : Tends (pure a) := fun _ _ _ => meets_pure ⟨id, rfl, rfl, fun _ => id⟩

lemma tends_assign {f : Recovery → Recovery} (h : ∀ l, (f l).errors = [] → l.errors = []) :
    Tends (assign f) := fun _ l _ => meets_assign ⟨h l, rfl, rfl, fun _ => id⟩

/-- A step that looks at its variables first. -/
lemma tends_locals {f : Recovery → Steps Recovery β} (hf : ∀ l, Tends (f l)) :
    Tends (locals >>= f) := fun g l t => meets_locals_bind (hf l g l t)

/-- A step that is taken on a condition. -/
lemma Tends.onlyIf {action : Steps Recovery Unit} {condition : Bool} (h : Tends action) :
    Tends (onlyIf condition action) := by
  unfold Upgrade.onlyIf
  split
  · exact h
  · exact tends_pure ()

lemma tends_onlyFor {action : α → Steps Recovery Unit} {value : Option α}
    (h : ∀ a, Tends (action a)) : Tends (onlyFor action value) := by
  cases value with
  | none => exact tends_pure ()
  | some a => exact h a

/-- A step that leaves the active state and the journals alone may fail; its failure is noted. -/
lemma tends_attemptStep {action : String} {callback : Steps Recovery Unit}
    (hp : Apart aside (·.errors) callback) : Tends (attemptStep action callback) := by
  intro g l t
  have hcallback : Ends g (fun _ l' t' => Tended l t l' t') callback l t := by
    refine (hp.touches.meets.both hp.steady.meets).weaken ?_
    rintro r l' t' ⟨⟨hfiles, hactivations⟩, herrors⟩
    refine ⟨fun h => herrors.symm.trans h, hfiles _ (by simp [aside]),
      hactivations (by simp [aside]), fun id hid => ?_⟩
    rw [← committed_congr (hfiles (.journal id) (by simp [aside]))]
    exact hid
  exact meets_attemptStep hcallback
    (fun l1 t1 _ h1 => ⟨h1.errors, h1.active, h1.activations, h1.committed⟩)
    fun e l1 t1 _ h1 => ⟨by simp, h1.active, h1.activations, h1.committed⟩

/-- A step of a compensation that worked if no error was noted. -/
lemma meets_attemptStep_outcome {g : Guard} {A B : World → Prop}
    {action : String} {callback : Steps Recovery Unit} {l : Recovery} {t : World}
    (hp : Ends g (fun r _ t' => B t' ∧ ∀ a, r = .ok a → A t') callback l t) :
    Ends g (fun _ l' t' => B t' ∧ (l'.errors = [] → A t'))
      (attemptStep action callback) l t :=
  meets_attemptStep hp (fun l1 t1 _ h1 => ⟨h1.1, fun _ => h1.2 () rfl⟩)
    fun e l1 t1 _ h1 => ⟨h1.1, by simp⟩

end Tends

/-! ## The compensation of an upgrade -/

section Compensation

variable {g : Guard} {t : World} {progress : Progress} {l : Recovery}

lemma total_onlyIf {ℓ : Type} {action : Steps ℓ Unit} {condition : Bool}
    (h : action.Total) : (onlyIf condition action).Total := by
  unfold onlyIf
  split
  · exact h
  · exact Routine.total_pure ()

lemma total_onlyFor {ℓ α : Type} {action : α → Steps ℓ Unit} {value : Option α}
    (h : ∀ a, (action a).Total) : (onlyFor action value).Total := by
  cases value with
  | none => exact Routine.total_pure ()
  | some a => exact h a

/-- A step of a compensation notes its failure and does not throw. -/
lemma total_attemptStep (action : String) (callback : Steps Recovery Unit) :
    (attemptStep action callback).Total :=
  Routine.total_catching fun _ => Routine.total_assign _

/-- A version that must not be removed is noted as an error. -/
lemma total_removeInstalled (version : String) : (removeInstalled version).Total := by
  refine Routine.total_locals.bind fun recovery => ?_
  split
  · exact total_attemptStep _ _
  · exact Routine.total_assign _

lemma tends_removeInstalled (version : String) : Tends (removeInstalled version) := by
  refine tends_locals fun recovery => ?_
  split
  · refine tends_attemptStep (apart_perform ?_)
    simp [Cmd.touched, aside]
  · exact tends_assign (by simp)

/-- A routine that never throws, followed by the rest. -/
lemma meets_total_bind {ℓ α β : Type} {m : ℓ} {post : Except Failure β → ℓ → World → Prop}
    {mid : ℓ → World → Prop} {p : Steps ℓ α} {f : α → Steps ℓ β}
    (htotal : p.Total) (hp : Ends g (fun _ l' t' => mid l' t') p m t)
    (hf : ∀ a l' t', mid l' t' → Ends g post (f a) l' t') : Ends g post (p >>= f) m t := by
  refine meets_bind (htotal.meets.both hp) (fun a l' t' h => hf a l' t' h.2) ?_
  rintro e l' t' ⟨⟨a, h⟩, -⟩
  cases h

/-- A launcher is put back from what was read before. -/
lemma tends_restoreBridge {action : String} {path : Path} {write : Content → Write}
    (hpath : path ∈ aside) (hwrite : ∀ content, (write content).path = path)
    (previous : Option Content) : Tends (attemptStep action (restoreBridge path write previous)) :=
  tends_attemptStep (apart_restoreBridge hpath (by simp [aside]) (by simp [aside]) hwrite previous)

/-- The compensation of an upgrade: what has to be shown of the step that restores the active
state. -/
theorem meets_compensateUpgrade_of {mid post : Recovery → World → Prop}
    (hrestore : ∀ l1 t1, Tended l t l1 t1 → Ends g (fun _ l' t' => mid l' t')
      (onlyIf progress.activeWritten (attemptStep "restore-active" (restoreActive progress))) l1 t1)
    (hrest : ∀ l1 t1 l2 t2, mid l1 t1 → Tended l1 t1 l2 t2 → post l2 t2) :
    Ends g (fun r l' t' => post l' t' ∧
      ∃ result, r = .ok result ∧ result.2 = l'.errors) (compensateUpgrade progress) l t := by
  refine meets_total_bind (total_onlyFor fun _ => total_onlyIf (total_attemptStep _ _))
    (tends_onlyFor (fun _ => (tends_attemptStep (apart_quiet rfl)).onlyIf) g l t) ?_
  intro _ l1 t1 h1
  refine meets_total_bind (total_onlyIf (total_attemptStep _ _))
    ((tends_restoreBridge (by simp [aside]) (by exact fun _ => rfl) _).onlyIf g l1 t1) ?_
  intro _ l2 t2 h2
  refine meets_total_bind (total_onlyIf (total_attemptStep _ _))
    ((tends_restoreBridge (by simp [aside]) (by exact fun _ => rfl) _).onlyIf g l2 t2) ?_
  intro _ l3 t3 h3
  refine meets_total_bind (total_onlyIf (total_attemptStep _ _))
    (hrestore l3 t3 ((h1.trans h2).trans h3)) ?_
  intro _ l4 t4 hmid
  refine meets_locals_bind (meets_total_bind
    (total_onlyFor fun _ => total_onlyIf (total_attemptStep _ _))
    (tends_onlyFor (fun _ => (tends_attemptStep (apart_quiet rfl)).onlyIf) g l4 t4) ?_)
  intro _ l5 t5 h5
  refine meets_total_bind (total_onlyFor fun _ => total_onlyIf (total_removeInstalled _))
    (tends_onlyFor (fun version => (tends_removeInstalled version).onlyIf) g l5 t5) ?_
  intro _ l6 t6 h6
  exact meets_locals_bind (meets_pure ⟨hrest l4 t4 l6 t6 hmid (h5.trans h6), _, rfl, rfl⟩)

end Compensation

end AgentBell.Upgrade
