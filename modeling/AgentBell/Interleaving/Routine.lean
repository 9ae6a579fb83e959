import AgentBell.Interleaving.Program

/-!
# Routines with exceptions and local variables

A routine is a program whose commands may fail, which has local variables, and which returns or
throws.  What it wrote to its variables before it threw is still there for the handler.  The rules
below take a routine apart where it runs alone.
-/

namespace Interleaving

/-! ## What a program may return -/

/-- Whatever replies a program gets, it returns something that meets a condition. -/
def Prog.Returns {C : Type} {R : C → Type} {α : Type} (φ : α → Prop) : Prog C R α → Prop
  | .ret a => φ a
  | .cmd _ next => ∀ r, (next r).Returns φ

section Returns

variable {C : Type} {R : C → Type} {α β : Type} {φ : α → Prop} {p : Prog C R α} {f : α → Prog C R β}

theorem Prog.returns_of_forall (h : ∀ a, φ a) : p.Returns φ := by
  induction p with
  | ret a => exact h a
  | cmd c next ih => exact ih

theorem Prog.Returns.weaken {ψ : α → Prop} (hp : p.Returns φ) (h : ∀ a, φ a → ψ a) :
    p.Returns ψ := by
  induction p with
  | ret a => exact h a hp
  | cmd c next ih => exact fun r => ih r (hp r)

theorem Prog.Returns.bind {ψ : β → Prop} (hp : p.Returns φ) (hf : ∀ a, φ a → (f a).Returns ψ) :
    (p.bind f).Returns ψ := by
  induction p with
  | ret a => exact hf a hp
  | cmd c next ih => exact fun r => ih r (hp r)

/-- What follows a program is looked at only for what the program may return. -/
theorem Prog.Returns.bind_congr {g : α → Prog C R β} (hp : p.Returns φ) (h : ∀ a, φ a → f a = g a) :
    p.bind f = p.bind g := by
  induction p with
  | ret a => exact h a hp
  | cmd c next ih =>
    have hnext : (fun r => (next r).bind f) = fun r => (next r).bind g :=
      funext fun r => ih r (hp r)
    simp only [Prog.bind, hnext]

theorem Prog.Returns.safe {σ χ : Type} {M : Machine C R σ χ} {post : α → σ → Prop} {s : σ}
    (hp : p.Returns φ) (hpost : ∀ a, φ a → ∀ t, post a t) :
    Safe M Alone (fun _ _ => True) post p s := by
  induction p generalizing s with
  | ret a => exact safe_alone_ret (hpost a hp s)
  | cmd c next ih => exact safe_alone_cmd trivial fun x r t _ => ih r (hp r)

end Returns

/-! ## Programs whose commands may fail -/

/-- What is left of a program whose commands may fail when all of them work. -/
def Prog.unfailing {C : Type} {R : C → Type} {ε α : Type} :
    Prog C (fun c => Except ε (R c)) α → Prog C R α
  | .ret a => .ret a
  | .cmd c next => .cmd c fun r => (next (.ok r)).unfailing

theorem Prog.unfailing_bind {C : Type} {R : C → Type} {ε α β : Type}
    (p : Prog C (fun c => Except ε (R c)) α) (f : α → Prog C (fun c => Except ε (R c)) β) :
    (p.bind f).unfailing = p.unfailing.bind fun a => (f a).unfailing := by
  induction p with
  | ret a => rfl
  | cmd c next ih => simp only [Prog.bind, Prog.unfailing, ih]

/-! ## Routines -/

/-- A routine with local variables `ℓ` that returns an `α` or throws an `ε`. -/
def Routine (C : Type) (R : C → Type) (ℓ ε α : Type) : Type :=
  ℓ → Prog C (fun c => Except ε (R c)) (Except ε α × ℓ)

namespace Routine

variable {C : Type} {R : C → Type} {ℓ ℓ' ε α β : Type} {p : Routine C R ℓ ε α}
  {f : α → Routine C R ℓ ε β} {handler : ε → Routine C R ℓ ε α} {last : Routine C R ℓ ε Unit}

/-- Go on with a result, or stop at an exception. -/
def next (f : α → Routine C R ℓ ε β) :
    Except ε α × ℓ → Prog C (fun c => Except ε (R c)) (Except ε β × ℓ)
  | (.ok a, l) => f a l
  | (.error e, l) => .ret (.error e, l)

instance : Monad (Routine C R ℓ ε) where
  pure a := fun l => .ret (.ok a, l)
  bind p f := fun l => (p l).bind (next f)

/-- Throw an exception. -/
def raise (e : ε) : Routine C R ℓ ε α := fun l => .ret (.error e, l)

/-- Throw an exception under a condition. -/
def raiseIf (bad : Prop) [Decidable bad] (e : ε) : Routine C R ℓ ε Unit :=
  if bad then raise e else pure ()

/-- Return what was computed, or throw. -/
def lift : Except ε α → Routine C R ℓ ε α
  | .ok a => pure a
  | .error e => raise e

/-- Issue a command. -/
def perform (c : C) : Routine C R ℓ ε (R c) := fun l => .cmd c fun r => .ret (r, l)

/-- The local variables. -/
def locals : Routine C R ℓ ε ℓ := fun l => .ret (.ok l, l)

/-- Assign to local variables. -/
def assign (f : ℓ → ℓ) : Routine C R ℓ ε Unit := fun l => .ret (.ok (), f l)

/-- Hand an exception to a handler. -/
def handle (handler : ε → Routine C R ℓ ε α) :
    Except ε α × ℓ → Prog C (fun c => Except ε (R c)) (Except ε α × ℓ)
  | (.ok a, l) => .ret (.ok a, l)
  | (.error e, l) => handler e l

/-- Run a routine with a handler for its exceptions. -/
def catching (p : Routine C R ℓ ε α) (handler : ε → Routine C R ℓ ε α) : Routine C R ℓ ε α :=
  fun l => (p l).bind (handle handler)

/-- The outcome after a last step: an exception of the last step replaces the outcome. -/
def settle (outcome : Except ε α) : Except ε Unit × ℓ → Except ε α × ℓ
  | (.ok (), l) => (outcome, l)
  | (.error e, l) => (.error e, l)

/-- Run a routine, and a last step whether it returns or throws. -/
def lastly (p : Routine C R ℓ ε α) (last : Routine C R ℓ ε Unit) : Routine C R ℓ ε α :=
  fun l => (p l).bind fun o => (last o.2).bind fun o' => .ret (settle o.1 o')

/-- Run a routine with variables of its own. -/
def enclosed (p : Routine C R ℓ' ε α) (start : ℓ') : Routine C R ℓ ε α :=
  fun l => (p start).bind fun o => .ret (o.1, l)

/-- The routine as a program whose commands all work. -/
def working (p : Routine C R ℓ ε α) (l : ℓ) : Prog C R (Except ε α × ℓ) := (p l).unfailing

section Working

variable {l : ℓ}

@[simp] theorem working_pure (a : α) : (pure a : Routine C R ℓ ε α).working l = .ret (.ok a, l) :=
  rfl

@[simp] theorem working_raise (e : ε) :
    (raise e : Routine C R ℓ ε α).working l = .ret (.error e, l) := rfl

@[simp] theorem working_assign (f : ℓ → ℓ) :
    (assign f : Routine C R ℓ ε Unit).working l = .ret (.ok (), f l) := rfl

@[simp] theorem working_locals_bind (f : ℓ → Routine C R ℓ ε β) :
    (locals >>= f).working l = (f l).working l := rfl

@[simp] theorem working_perform (c : C) :
    (perform c : Routine C R ℓ ε (R c)).working l = .cmd c fun r => .ret (.ok r, l) := rfl

@[simp] theorem working_perform_bind (c : C) (f : R c → Routine C R ℓ ε β) :
    (perform c >>= f).working l = .cmd c fun r => (f r).working l := rfl

@[simp] theorem working_raiseIf_bind (bad : Prop) [Decidable bad] (e : ε)
    (f : Unit → Routine C R ℓ ε β) : (raiseIf bad e >>= f).working l =
      if bad then .ret (.error e, l) else (f ()).working l := by
  unfold raiseIf
  split
  · rfl
  · rfl

/-- A composition goes on with the result of its first part, or stops at its exception. -/
theorem working_bind (p : Routine C R ℓ ε α) (f : α → Routine C R ℓ ε β) :
    (p >>= f).working l = (p.working l).bind fun
      | (.ok a, l) => (f a).working l
      | (.error e, l) => .ret (.error e, l) := by
  refine (Prog.unfailing_bind (p l) (next f)).trans (congrArg _ (funext ?_))
  rintro ⟨e | a, l'⟩
  · rfl
  · rfl

theorem working_catching (p : Routine C R ℓ ε α) (handler : ε → Routine C R ℓ ε α) :
    (p.catching handler).working l = (p.working l).bind fun
      | (.ok a, l) => .ret (.ok a, l)
      | (.error e, l) => (handler e).working l := by
  refine (Prog.unfailing_bind (p l) (handle handler)).trans (congrArg _ (funext ?_))
  rintro ⟨e | a, l'⟩
  · rfl
  · rfl

end Working

/-- Every command of the routine meets a condition. -/
def Within (φ : C → Prop) (p : Routine C R ℓ ε α) : Prop := ∀ l, (p l).Within φ

section Within

variable {φ : C → Prop}

theorem Within.mono {φ' : C → Prop} (hp : p.Within φ) (h : ∀ c, φ c → φ' c) : p.Within φ' := by
  have hprog : ∀ {q : Prog C (fun c => Except ε (R c)) (Except ε α × ℓ)}, q.Within φ →
      q.Within φ' := by
    intro q
    induction q with
    | ret o => exact fun _ => trivial
    | cmd c next ih => exact fun hq => ⟨h c hq.1, fun r => ih r (hq.2 r)⟩
  exact fun l => hprog (hp l)

theorem within_pure (a : α) : (pure a : Routine C R ℓ ε α).Within φ := fun _ => trivial

theorem within_raise (e : ε) : (raise e : Routine C R ℓ ε α).Within φ := fun _ => trivial

theorem within_raiseIf (bad : Prop) [Decidable bad] (e : ε) :
    (raiseIf bad e : Routine C R ℓ ε Unit).Within φ := by
  intro l
  unfold raiseIf
  split
  · trivial
  · trivial

theorem within_lift (x : Except ε α) : (lift x : Routine C R ℓ ε α).Within φ := by
  cases x <;> exact fun _ => trivial

theorem within_perform {c : C} (hc : φ c) : (perform c : Routine C R ℓ ε (R c)).Within φ :=
  fun _ => ⟨hc, fun _ => trivial⟩

theorem within_locals : (locals : Routine C R ℓ ε ℓ).Within φ := fun _ => trivial

theorem within_assign (f : ℓ → ℓ) : (assign f : Routine C R ℓ ε Unit).Within φ := fun _ => trivial

theorem Within.bind (hp : p.Within φ) (hf : ∀ a, (f a).Within φ) :
    (p >>= f).Within φ := by
  refine fun l => Prog.Within.bind (hp l) ?_
  rintro ⟨a | e, l'⟩
  · trivial
  · exact hf _ l'

theorem Within.catching (hp : p.Within φ)
    (hhandler : ∀ e, (handler e).Within φ) : (p.catching handler).Within φ := by
  refine fun l => Prog.Within.bind (hp l) ?_
  rintro ⟨e | a, l'⟩
  · exact hhandler e l'
  · trivial

theorem Within.lastly (hp : p.Within φ) (hlast : last.Within φ) :
    (p.lastly last).Within φ :=
  fun l => Prog.Within.bind (hp l) fun o => Prog.Within.bind (hlast o.2) fun _ => trivial

theorem Within.enclosed {p : Routine C R ℓ' ε α} (hp : p.Within φ) (start : ℓ') :
    (p.enclosed start : Routine C R ℓ ε α).Within φ :=
  fun _ => Prog.Within.bind (hp start) fun _ => trivial

end Within

/-- The routine never changes an aspect of its variables. -/
def Steady {γ : Type} (aspect : ℓ → γ) (p : Routine C R ℓ ε α) : Prop :=
  ∀ l, (p l).Returns fun o => aspect o.2 = aspect l

section Steady

variable {γ : Type} {aspect : ℓ → γ}

theorem Steady.map {δ : Type} (f : γ → δ) (hp : p.Steady aspect) :
    p.Steady fun l => f (aspect l) := fun l => (hp l).weaken fun _ h => congrArg f h

theorem steady_pure (a : α) : (pure a : Routine C R ℓ ε α).Steady aspect := fun _ => rfl

theorem steady_raise (e : ε) : (raise e : Routine C R ℓ ε α).Steady aspect := fun _ => rfl

theorem steady_raiseIf (bad : Prop) [Decidable bad] (e : ε) :
    (raiseIf bad e : Routine C R ℓ ε Unit).Steady aspect := by
  unfold raiseIf
  split
  · exact steady_raise e
  · exact steady_pure ()

theorem steady_lift (x : Except ε α) : (lift x : Routine C R ℓ ε α).Steady aspect := by
  cases x with
  | ok a => exact steady_pure a
  | error e => exact steady_raise e

theorem steady_perform (c : C) : (perform c : Routine C R ℓ ε (R c)).Steady aspect :=
  fun _ _ => rfl

theorem steady_locals : (locals : Routine C R ℓ ε ℓ).Steady aspect := fun _ => rfl

theorem steady_assign {f : ℓ → ℓ} (h : ∀ l, aspect (f l) = aspect l) :
    (assign f : Routine C R ℓ ε Unit).Steady aspect := h

theorem Steady.bind (hp : p.Steady aspect)
    (hf : ∀ a, (f a).Steady aspect) : (p >>= f).Steady aspect := by
  refine fun l => Prog.Returns.bind (hp l) ?_
  rintro ⟨e | a, l'⟩ h
  · exact h
  · exact (hf a l').weaken fun o ho => ho.trans h

theorem Steady.catching (hp : p.Steady aspect)
    (hhandler : ∀ e, (handler e).Steady aspect) : (p.catching handler).Steady aspect := by
  refine fun l => Prog.Returns.bind (hp l) ?_
  rintro ⟨e | a, l'⟩ h
  · exact (hhandler e l').weaken fun o ho => ho.trans h
  · exact h

theorem Steady.lastly (hp : p.Steady aspect)
    (hlast : last.Steady aspect) : (p.lastly last).Steady aspect := by
  refine fun l => Prog.Returns.bind (hp l) fun o ho => Prog.Returns.bind (hlast o.2) ?_
  rintro ⟨e | a, l'⟩ h
  · exact h.trans ho
  · exact h.trans ho

end Steady

/-- The routine never throws. -/
def Total (p : Routine C R ℓ ε α) : Prop := ∀ l, (p l).Returns fun o => ∃ a, o.1 = .ok a

section Total

theorem total_pure (a : α) : (pure a : Routine C R ℓ ε α).Total := fun _ => ⟨a, rfl⟩

theorem total_locals : (locals : Routine C R ℓ ε ℓ).Total := fun l => ⟨l, rfl⟩

theorem total_assign (f : ℓ → ℓ) : (assign f : Routine C R ℓ ε Unit).Total := fun _ => ⟨(), rfl⟩

theorem Total.bind (hp : p.Total) (hf : ∀ a, (f a).Total) :
    (p >>= f).Total := by
  refine fun l => Prog.Returns.bind (hp l) ?_
  rintro ⟨r, l'⟩ ⟨a, rfl⟩
  exact hf a l'

theorem total_catching (hhandler : ∀ e, (handler e).Total) :
    (p.catching handler).Total := by
  refine fun l => Prog.Returns.bind (Prog.returns_of_forall fun _ => trivial) ?_
  rintro ⟨e | a, l'⟩ -
  · exact hhandler e l'
  · exact ⟨a, rfl⟩

end Total

end Routine

variable {C : Type} {R : C → Type} {σ χ ℓ ℓ' ε α β : Type} {p : Prog C R α} {s t : σ} {xs : List χ}
  {a : α} {post : α → σ → Prop} {test : χ → C → σ → Bool} {l : ℓ} {r : Except ε α}

/-! ## What a routine leaves behind -/

/-- Whatever a routine that runs alone does from a store, its outcome, its variables and the store
it leaves meet `post`. -/
def Meets (M : Machine C (fun c => Except ε (R c)) σ χ) (post : Except ε α → ℓ → σ → Prop)
    (p : Routine C R ℓ ε α) (l : ℓ) (s : σ) : Prop :=
  Safe M Alone (fun _ _ => True) (fun o t => post o.1 o.2 t) (p l) s

section Rules

variable {M : Machine C (fun c => Except ε (R c)) σ χ} {post : Except ε α → ℓ → σ → Prop}
  {p : Routine C R ℓ ε α} {l : ℓ} {s : σ} {e : ε} {bad : Prop} {x : Except ε α} {f : ℓ → ℓ}
  {post' mid : Except ε α → ℓ → σ → Prop} {k : Unit → Routine C R ℓ ε β}

theorem meets_pure (h : post (.ok a) l s) : Meets M post (pure a) l s :=
  safe_alone_ret h

theorem meets_raise (h : post (.error e) l s) : Meets M post (Routine.raise e) l s :=
  safe_alone_ret h

theorem meets_raiseIf {post : Except ε Unit → ℓ → σ → Prop} [Decidable bad]
    (hbad : bad → post (.error e) l s) (hgood : ¬ bad → post (.ok ()) l s) :
    Meets M post (Routine.raiseIf bad e) l s := by
  unfold Routine.raiseIf
  split
  · exact meets_raise (hbad ‹_›)
  · exact meets_pure (hgood ‹_›)

theorem meets_lift (h : post x l s) : Meets M post (Routine.lift x) l s := by
  cases x with
  | ok a => exact meets_pure h
  | error e => exact meets_raise h

theorem meets_perform {c : C} {post : Except ε (R c) → ℓ → σ → Prop}
    (h : ∀ x r t, M.exec x c s = some (r, t) → post r l t) : Meets M post (Routine.perform c) l s :=
  safe_alone_cmd trivial fun x r t hx => safe_alone_ret (h x r t hx)

theorem meets_assign {post : Except ε Unit → ℓ → σ → Prop} (h : post (.ok ()) (f l) s) :
    Meets M post (Routine.assign f) l s := safe_alone_ret h

/-- The postcondition may be weakened. -/
theorem Meets.weaken (hp : Meets M post p l s) (h : ∀ r l' t, post r l' t → post' r l' t) :
    Meets M post' p l s :=
  Safe.weaken hp (fun _ _ _ => trivial) fun o t ho => h o.1 o.2 t ho

/-- Sequential composition. -/
theorem meets_bind {post : Except ε β → ℓ → σ → Prop} {f : α → Routine C R ℓ ε β}
    (hp : Meets M mid p l s) (hok : ∀ a l' t, mid (.ok a) l' t → Meets M post (f a) l' t)
    (herror : ∀ e l' t, mid (.error e) l' t → post (.error e) l' t) :
    Meets M post (p >>= f) l s := by
  refine Safe.bind_alone hp ?_
  rintro ⟨e | a, l'⟩ t h
  · exact safe_alone_ret (herror e l' t h)
  · exact hok a l' t h

/-- A routine that is sure to answer, and leaves the variables as they are, is followed by the
rest. -/
theorem meets_answer_bind {post : Except ε β → ℓ → σ → Prop} {f : α → Routine C R ℓ ε β} {a : α}
    {Q : σ → Prop} (hp : Meets M (fun r l' t => r = .ok a ∧ l' = l ∧ Q t) p l s)
    (h : ∀ t, Q t → Meets M post (f a) l t) : Meets M post (p >>= f) l s := by
  refine meets_bind hp ?_ (by rintro e l' t ⟨⟨⟩, -⟩)
  rintro _ _ t ⟨⟨⟩, rfl, ht⟩
  exact h t ht

/-- The variables are read, and then the rest runs. -/
theorem meets_locals_bind {post : Except ε β → ℓ → σ → Prop} {f : ℓ → Routine C R ℓ ε β}
    (h : Meets M post (f l) l s) : Meets M post (Routine.locals >>= f) l s := h

/-- The variables are set, and then the rest runs. -/
theorem meets_assign_bind {post : Except ε β → ℓ → σ → Prop} (h : Meets M post (k ()) (f l) s) :
    Meets M post (Routine.assign f >>= k) l s := h

/-- An exception is thrown, or the rest runs. -/
theorem meets_raiseIf_bind {post : Except ε β → ℓ → σ → Prop} [Decidable bad]
    (hbad : bad → post (.error e) l s) (hok : ¬ bad → Meets M post (k ()) l s) :
    Meets M post (Routine.raiseIf bad e >>= k) l s := by
  by_cases h : bad
  · have hraise : Routine.raiseIf bad e = (Routine.raise e : Routine C R ℓ ε Unit) := if_pos h
    rw [hraise]
    exact safe_alone_ret (hbad h)
  · have hpure : Routine.raiseIf bad e = (pure () : Routine C R ℓ ε Unit) := if_neg h
    rw [hpure]
    exact hok h

/-- A result is taken apart, and then the rest runs. -/
theorem meets_lift_bind {post : Except ε β → ℓ → σ → Prop} {k : α → Routine C R ℓ ε β}
    (herror : ∀ e, x = .error e → post (.error e) l s)
    (hok : ∀ a, x = .ok a → Meets M post (k a) l s) : Meets M post (Routine.lift x >>= k) l s := by
  cases x with
  | error e => exact safe_alone_ret (herror e rfl)
  | ok a => exact hok a rfl

/-- Exceptions go to the handler. -/
theorem meets_catching {handler : ε → Routine C R ℓ ε α} (hp : Meets M mid p l s)
    (hok : ∀ a l' t, mid (.ok a) l' t → post (.ok a) l' t)
    (herror : ∀ e l' t, mid (.error e) l' t → Meets M post (handler e) l' t) :
    Meets M post (p.catching handler) l s := by
  refine Safe.bind_alone hp ?_
  rintro ⟨e | a, l'⟩ t h
  · exact herror e l' t h
  · exact safe_alone_ret (hok a l' t h)

/-- Exceptions go to the handler, and what is returned is a function of the outcome. -/
theorem meets_catching_map {post : Except ε β → ℓ → σ → Prop} {f : α → β}
    {handler : ε → Routine C R ℓ ε β} (hp : Meets M mid p l s)
    (hok : ∀ a l' t, mid (.ok a) l' t → post (.ok (f a)) l' t)
    (herror : ∀ e l' t, mid (.error e) l' t → Meets M post (handler e) l' t) :
    Meets M post (Routine.catching (p >>= fun a => pure (f a)) handler) l s := by
  have hmap : Meets M (fun r l' t => match r with
      | .ok b => post (.ok b) l' t
      | .error e => mid (.error e) l' t) (p >>= fun a => pure (f a)) l s :=
    meets_bind hp (fun a l' t h => meets_pure (hok a l' t h)) fun _ _ _ h => h
  exact meets_catching hmap (fun _ _ _ h => h) herror

/-- The last step runs after every outcome. -/
theorem meets_lastly {last : Routine C R ℓ ε Unit} (hp : Meets M mid p l s)
    (hlast : ∀ r l' t, mid r l' t →
      Meets M (fun r' l'' t' =>
        post (Routine.settle r (r', l'')).1 (Routine.settle r (r', l'')).2 t') last l' t) :
    Meets M post (p.lastly last) l s := by
  refine Safe.bind_alone hp ?_
  rintro ⟨r, l'⟩ t h
  refine Safe.bind_alone (hlast r l' t h) ?_
  rintro ⟨r', l''⟩ t' h'
  exact safe_alone_ret h'

/-- The variables of a scope are gone after it. -/
theorem meets_enclosed {p : Routine C R ℓ' ε α} {start : ℓ'}
    (hp : Meets M (fun r _ t => post r l t) p start s) : Meets M post (p.enclosed start) l s :=
  Safe.bind_alone hp fun _ _ h => safe_alone_ret h

/-- Two postconditions hold together. -/
theorem Meets.both (hp : Meets M post p l s) (hp' : Meets M post' p l s) :
    Meets M (fun r l' t => post r l' t ∧ post' r l' t) p l s :=
  Safe.both hp hp'

/-- What a routine leaves alone is the same when it is over. -/
theorem Routine.Steady.meets {γ : Type} {aspect : ℓ → γ} (hp : p.Steady aspect) :
    Meets M (fun _ l' _ => aspect l' = aspect l) p l s :=
  Prog.Returns.safe (hp l) fun _ h _ => h

/-- A routine that never throws returns something. -/
theorem Routine.Total.meets (hp : p.Total) : Meets M (fun r _ _ => ∃ a, r = .ok a) p l s :=
  Prog.Returns.safe (hp l) fun _ h _ => h

/-- What all commands of a routine keep holds when it is over. -/
theorem Routine.Within.meets {φ : C → Prop} {A : σ → Prop} (hp : p.Within φ)
    (hexec : ∀ x c s r t, φ c → A s → M.exec x c s = some (r, t) → A t) (hs : A s) :
    Meets M (fun _ _ t => A t) p l s := by
  refine Prog.Within.safe (hp l) ?_ (fun _ _ _ _ => trivial) hexec hs
  rintro o s t hA rfl
  exact hA

end Rules

/-! ## What a routine issues -/

/-- As long as the replies meet `answers`, the commands of a program meet `φ` and its result meets
`ψ`. -/
def Prog.Issues {R : C → Type} (answers : ∀ c, R c → Prop) (φ : C → Prop) (ψ : α → Prop) :
    Prog C R α → Prop
  | .ret a => ψ a
  | .cmd c next => φ c ∧ ∀ r, answers c r → (next r).Issues answers φ ψ

section IssuesProg

variable {answers : ∀ c, R c → Prop} {φ : C → Prop} {ψ ψ' : α → Prop} {p : Prog C R α}

/-- The condition on the result may be weakened. -/
theorem Prog.Issues.weaken (hp : p.Issues answers φ ψ) (h : ∀ a, ψ a → ψ' a) :
    p.Issues answers φ ψ' := by
  induction p with
  | ret a => exact h a hp
  | cmd c next ih => exact ⟨hp.1, fun r hr => ih r (hp.2 r hr)⟩

/-- Sequential composition. -/
theorem Prog.Issues.bind {ψ' : β → Prop} {f : α → Prog C R β} (hp : p.Issues answers φ ψ)
    (hf : ∀ a, ψ a → (f a).Issues answers φ ψ') : (p.bind f).Issues answers φ ψ' := by
  induction p with
  | ret a => exact hf a hp
  | cmd c next ih => exact ⟨hp.1, fun r hr => ih r (hp.2 r hr)⟩

/-- What holds of all results holds besides. -/
theorem Prog.Issues.and (hp : p.Issues answers φ ψ) (hreturns : p.Returns ψ') :
    p.Issues answers φ fun a => ψ a ∧ ψ' a := by
  induction p with
  | ret a => exact ⟨hp, hreturns⟩
  | cmd c next ih => exact ⟨hp.1, fun r hr => ih r (hp.2 r hr) (hreturns r)⟩

/-- What holds of all commands and of all results. -/
theorem Prog.Within.issues (hp : p.Within φ) (hreturns : p.Returns ψ) : p.Issues answers φ ψ := by
  induction p with
  | ret a => exact hreturns
  | cmd c next ih => exact ⟨hp.1, fun r _ => ih r (hp.2 r) (hreturns r)⟩

/-- What a program returns whatever the replies are. -/
theorem Prog.Issues.returns (hp : p.Issues (fun _ _ => True) φ ψ) : p.Returns ψ := by
  induction p with
  | ret a => exact hp
  | cmd c next ih => exact fun r => ih r (hp.2 r trivial)

/-- A program that runs alone keeps what the commands it may issue keep, as long as the replies are
as expected. -/
theorem Prog.Issues.safe {M : Machine C R σ χ} {A : σ → Prop} (hp : p.Issues answers φ ψ)
    (hexec : ∀ x c s r t, φ c → A s → M.exec x c s = some (r, t) → answers c r ∧ A t) (hs : A s) :
    Safe M Alone (fun _ _ => True) (fun a t => ψ a ∧ A t) p s := by
  induction p generalizing s with
  | ret a => exact safe_alone_ret ⟨hp, hs⟩
  | cmd c next ih =>
    refine safe_alone_cmd trivial fun x r t hx => ?_
    have hstep := hexec x c s r t hp.1 hs hx
    exact ih r (hp.2 r hstep.1) hstep.2

end IssuesProg

namespace Routine

/-- As long as the replies meet `answers`, the commands of a routine meet `φ`, and its outcome and
its variables meet `post`. -/
def Issues (answers : ∀ c, Except ε (R c) → Prop) (φ : C → Prop) (post : Except ε α → ℓ → Prop)
    (p : Routine C R ℓ ε α) (l : ℓ) : Prop :=
  (p l).Issues answers φ fun o => post o.1 o.2

section Issues

variable {answers : ∀ c, Except ε (R c) → Prop} {φ : C → Prop} {post : Except ε α → ℓ → Prop}
  {p : Routine C R ℓ ε α} {l : ℓ} {mid : Except ε α → ℓ → Prop} {k : Unit → Routine C R ℓ ε β}
  {γ : Type} {aspect : ℓ → γ}

/-- The postcondition may be weakened. -/
theorem Issues.weaken {post' : Except ε α → ℓ → Prop} (hp : Issues answers φ post p l)
    (h : ∀ r l', post r l' → post' r l') : Issues answers φ post' p l :=
  Prog.Issues.weaken hp fun o ho => h o.1 o.2 ho

/-- Sequential composition. -/
theorem Issues.bind {post : Except ε β → ℓ → Prop} {f : α → Routine C R ℓ ε β}
    (hp : Issues answers φ mid p l) (hok : ∀ a l', mid (.ok a) l' → Issues answers φ post (f a) l')
    (herror : ∀ e l', mid (.error e) l' → post (.error e) l') :
    Issues answers φ post (p >>= f) l := by
  refine Prog.Issues.bind hp ?_
  rintro ⟨e | a, l'⟩ h
  · exact herror e l' h
  · exact hok a l' h

/-- The variables are read, and then the rest runs. -/
theorem issues_locals_bind {post : Except ε β → ℓ → Prop} {f : ℓ → Routine C R ℓ ε β}
    (h : Issues answers φ post (f l) l) : Issues answers φ post (locals >>= f) l := h

/-- The variables are set, and then the rest runs. -/
theorem issues_assign_bind {post : Except ε β → ℓ → Prop} {f : ℓ → ℓ}
    (h : Issues answers φ post (k ()) (f l)) : Issues answers φ post (assign f >>= k) l := h

/-- A command is issued, and then the rest runs with its reply. -/
theorem issues_perform_bind {post : Except ε β → ℓ → Prop} {c : C} {f : R c → Routine C R ℓ ε β}
    (hc : φ c) (hok : ∀ a, answers c (.ok a) → Issues answers φ post (f a) l)
    (herror : ∀ e, post (.error e) l) : Issues answers φ post (perform c >>= f) l := by
  refine ⟨hc, ?_⟩
  rintro (e | a) hr
  · exact herror e
  · exact hok a hr

/-- An exception is thrown, or the rest runs. -/
theorem issues_raiseIf_bind {post : Except ε β → ℓ → Prop} {bad : Prop} [Decidable bad] {e : ε}
    (hbad : bad → post (.error e) l) (hok : ¬ bad → Issues answers φ post (k ()) l) :
    Issues answers φ post (raiseIf bad e >>= k) l := by
  by_cases h : bad
  · have hraise : raiseIf bad e = (raise e : Routine C R ℓ ε Unit) := if_pos h
    rw [hraise]
    exact hbad h
  · have hpure : raiseIf bad e = (pure () : Routine C R ℓ ε Unit) := if_neg h
    rw [hpure]
    exact hok h

/-- A result is taken apart, and then the rest runs. -/
theorem issues_lift_bind {post : Except ε β → ℓ → Prop} {x : Except ε α}
    {k : α → Routine C R ℓ ε β} (herror : ∀ e, x = .error e → post (.error e) l)
    (hok : ∀ a, x = .ok a → Issues answers φ post (k a) l) :
    Issues answers φ post (lift x >>= k) l := by
  cases x with
  | error e => exact herror e rfl
  | ok a => exact hok a rfl

/-- Exceptions go to the handler. -/
theorem Issues.catching {handler : ε → Routine C R ℓ ε α} (hp : Issues answers φ mid p l)
    (hok : ∀ a l', mid (.ok a) l' → post (.ok a) l')
    (herror : ∀ e l', mid (.error e) l' → Issues answers φ post (handler e) l') :
    Issues answers φ post (p.catching handler) l := by
  refine Prog.Issues.bind hp ?_
  rintro ⟨e | a, l'⟩ h
  · exact herror e l' h
  · exact hok a l' h

/-- The last step runs after every outcome. -/
theorem Issues.lastly {last : Routine C R ℓ ε Unit} (hp : Issues answers φ mid p l)
    (hlast : ∀ r l', mid r l' → Issues answers φ (fun r' l'' =>
      post (settle r (r', l'')).1 (settle r (r', l'')).2) last l') :
    Issues answers φ post (p.lastly last) l := by
  refine Prog.Issues.bind hp ?_
  rintro ⟨r, l'⟩ h
  refine Prog.Issues.bind (hlast r l' h) ?_
  rintro ⟨r', l''⟩ h'
  exact h'

/-- A routine leaves alone an aspect of its variables besides. -/
theorem Issues.steady (hp : Issues answers φ post p l) (hsteady : p.Steady aspect) :
    Issues answers φ (fun r l' => post r l' ∧ aspect l' = aspect l) p l :=
  Prog.Issues.and hp (hsteady l)

/-- A routine that issues only such commands, whatever comes of it. -/
theorem Within.issues_any (hp : p.Within φ) : Issues answers φ (fun _ _ => True) p l :=
  Prog.Within.issues (hp l) (Prog.returns_of_forall fun _ => trivial)

/-- A routine that issues only such commands and leaves alone an aspect of its variables. -/
theorem Within.issues (hp : p.Within φ) (hsteady : p.Steady aspect) :
    Issues answers φ (fun _ l' => aspect l' = aspect l) p l :=
  Prog.Within.issues (hp l) (hsteady l)

/-- What the commands a routine may issue keep holds when it is over. -/
theorem Issues.meets {M : Machine C (fun c => Except ε (R c)) σ χ} {A : σ → Prop}
    (hp : Issues answers φ post p l)
    (hexec : ∀ x c s r t, φ c → A s → M.exec x c s = some (r, t) → answers c r ∧ A t) (hs : A s) :
    Meets M (fun r l' t => post r l' ∧ A t) p l s :=
  Prog.Issues.safe hp hexec hs

end Issues

/-- A routine that keeps its variables in `inv` and issues commands in `φ` only. -/
def Confined (inv : ℓ → Prop) (φ : C → Prop) (p : Routine C R ℓ ε α) : Prop :=
  ∀ l, inv l → Issues (fun _ _ => True) φ (fun _ l' => inv l') p l

section Confined

variable {inv : ℓ → Prop} {φ : C → Prop} {p : Routine C R ℓ ε α}

theorem confined_pure (a : α) : (pure a : Routine C R ℓ ε α).Confined inv φ := fun _ hl => hl

theorem confined_raise (e : ε) : (raise e : Routine C R ℓ ε α).Confined inv φ := fun _ hl => hl

theorem confined_raiseIf (bad : Prop) [Decidable bad] (e : ε) :
    (raiseIf bad e : Routine C R ℓ ε Unit).Confined inv φ := by
  unfold raiseIf
  split
  · exact confined_raise e
  · exact confined_pure ()

theorem confined_lift (x : Except ε α) : (lift x : Routine C R ℓ ε α).Confined inv φ := by
  cases x with
  | error e => exact confined_raise e
  | ok a => exact confined_pure a

theorem confined_perform {c : C} (hc : φ c) :
    (perform c : Routine C R ℓ ε (R c)).Confined inv φ := fun _ hl => ⟨hc, fun _ _ => hl⟩

theorem confined_assign {f : ℓ → ℓ} (h : ∀ l, inv l → inv (f l)) :
    (assign f : Routine C R ℓ ε Unit).Confined inv φ := h

theorem Confined.bind {f : α → Routine C R ℓ ε β} (hp : p.Confined inv φ)
    (hf : ∀ a, (f a).Confined inv φ) : (p >>= f).Confined inv φ :=
  fun l hl => Issues.bind (hp l hl) (fun a l' hl' => hf a l' hl') fun _ _ hl' => hl'

/-- What is read from the variables is what they are kept to. -/
theorem confined_locals_bind {f : ℓ → Routine C R ℓ ε β}
    (hf : ∀ l, inv l → (f l).Confined inv φ) : (locals >>= f).Confined inv φ :=
  fun l hl => hf l hl l hl

theorem Confined.catching {handler : ε → Routine C R ℓ ε α} (hp : p.Confined inv φ)
    (hhandler : ∀ e, (handler e).Confined inv φ) : (p.catching handler).Confined inv φ :=
  fun l hl => Issues.catching (hp l hl) (fun _ _ hl' => hl') fun e l' hl' => hhandler e l' hl'

end Confined

end Routine

/-! ## Runs -/

/-- The outcome of a program and the store it leaves, when the environment makes these choices. -/
def Prog.run (M : Machine C R σ χ) : Prog C R α → List χ → σ → Option (α × σ)
  | .ret a, [], s => some (a, s)
  | .ret _, _ :: _, _ => none
  | .cmd _ _, [], _ => none
  | .cmd c next, x :: xs, s =>
    match M.exec x c s with
    | none => none
    | some (r, t) => (next r).run M xs t

/-- The store after the first commands of a program, when it is stopped there. -/
def Prog.after (M : Machine C R σ χ) : Prog C R α → List χ → σ → Option σ
  | _, [], s => some s
  | .ret _, _ :: _, _ => none
  | .cmd c next, x :: xs, s =>
    match M.exec x c s with
    | none => none
    | some (r, t) => (next r).after M xs t

theorem Prog.bind_assoc {γ : Type} (p : Prog C R α) (f : α → Prog C R β) (g : β → Prog C R γ) :
    (p.bind f).bind g = p.bind fun a => (f a).bind g := by
  induction p with
  | ret a => rfl
  | cmd c next ih =>
    have hnext : (fun r => ((next r).bind f).bind g) =
        fun r => (next r).bind fun a => (f a).bind g := funext ih
    simp only [Prog.bind, hnext]

/-- The run of a program on the first of some turns, with the turns that are left. -/
def Prog.consume (M : Machine C R σ χ) : Prog C R α → List χ → σ → Option (α × σ × List χ)
  | .ret a, xs, s => some (a, s, xs)
  | .cmd _ _, [], _ => none
  | .cmd c next, x :: xs, s =>
    match M.exec x c s with
    | none => none
    | some (r, t) => (next r).consume M xs t

variable {M : Machine C R σ χ}

/-- What is consumed is a run. -/
theorem Prog.run_of_consume {rest : List χ} (h : p.consume M xs s = some (a, t, rest)) :
    ∃ used, xs = used ++ rest ∧ p.run M used s = some (a, t) := by
  induction p generalizing s xs with
  | ret b =>
    cases h
    exact ⟨[], rfl, rfl⟩
  | cmd c next ih =>
    cases xs with
    | nil => cases h
    | cons x xs =>
      simp only [Prog.consume] at h
      split at h
      · cases h
      · rename_i r u hexec
        obtain ⟨used, rfl, hrun⟩ := ih r h
        refine ⟨x :: used, rfl, ?_⟩
        simp only [Prog.run, hexec]
        exact hrun

/-- A composition runs its second part on the turns that the first one leaves. -/
theorem Prog.run_bind (M : Machine C R σ χ) (p : Prog C R α) (f : α → Prog C R β) (xs : List χ)
    (s : σ) : (p.bind f).run M xs s =
      (p.consume M xs s).bind fun o => (f o.1).run M o.2.2 o.2.1 := by
  induction p generalizing s xs with
  | ret a => rfl
  | cmd c next ih =>
    cases xs with
    | nil => rfl
    | cons x xs =>
      simp only [Prog.bind, Prog.run, Prog.consume]
      split
      · rfl
      · exact ih _ xs _

/-- A run follows a program command by command: what holds where it returns and is handed back from
command to command holds where the run starts. -/
@[elab_as_elim]
theorem Prog.run_induct {o : α × σ} {I : Prog C R α → List χ → σ → Prop}
    (hrun : p.run M xs s = some o) (hret : I (.ret o.1) [] o.2)
    (hcmd : ∀ x c next xs s r t, M.exec x c s = some (r, t) → I (next r) xs t →
      I (.cmd c next) (x :: xs) s) : I p xs s := by
  induction p generalizing s xs with
  | ret b =>
    cases xs with
    | nil =>
      obtain rfl := Option.some.inj hrun
      exact hret
    | cons x xs => cases hrun
  | cmd c next ih =>
    cases xs with
    | nil => cases hrun
    | cons x xs =>
      simp only [Prog.run] at hrun
      split at hrun
      · cases hrun
      · rename_i r t hexec
        exact hcmd x c next xs s r t hexec (ih r hrun)

/-- What holds of a program that runs alone holds after each of its runs. -/
theorem Safe.run {pre : C → σ → Prop} (hp : Safe M Alone pre post p s)
    (hrun : p.run M xs s = some (a, t)) : post a t := by
  revert hp
  refine Prog.run_induct hrun (fun hp => hp.returns rfl) ?_
  intro x c next xs s r v hexec ih hp
  exact ih ((hp.issues rfl).2 x r v hexec)

/-- What a program ensures holds after each of its runs. -/
theorem Ensures.run (hp : Ensures M post p s) (hrun : p.run M xs s = some (a, t)) : post a t := by
  revert hp
  refine Prog.run_induct hrun (fun hp => hp.returns) ?_
  intro x c next xs s r v hexec ih hp
  exact ih (hp.issues hexec)

/-- Where every step may fail and change nothing, a program that is stopped leaves what it leaves in
a run in which all further steps fail. -/
theorem Prog.exists_run_of_after (hfail : ∀ c s, ∃ x r, M.exec x c s = some (r, s))
    (h : p.after M xs s = some t) : ∃ ys a, p.run M ys s = some (a, t) := by
  induction p generalizing s xs with
  | ret a =>
    cases xs with
    | nil => exact ⟨[], a, by rw [← Option.some.inj h]; rfl⟩
    | cons x xs => cases h
  | cmd c next ih =>
    cases xs with
    | nil =>
      obtain rfl := Option.some.inj h
      obtain ⟨x, r, hexec⟩ := hfail c s
      have hrest : (next r).after M [] s = some s := by cases next r <;> rfl
      obtain ⟨ys, a, hrun⟩ := ih r hrest
      exact ⟨x :: ys, a, by simp only [Prog.run, hexec, hrun]⟩
    | cons x xs =>
      simp only [Prog.after] at h
      split at h
      · cases h
      · rename_i r v hexec
        obtain ⟨ys, a, hrun⟩ := ih r h
        exact ⟨x :: ys, a, by simp only [Prog.run, hexec, hrun]⟩

/-- The machine without the steps a test forbids. -/
def Machine.checked (M : Machine C R σ χ) (test : χ → C → σ → Bool) : Machine C R σ χ where
  exec x c s := if test x c s then M.exec x c s else none

theorem Machine.checked_exec {x : χ} {c : C} {o : R c × σ} :
    (M.checked test).exec x c s = some o ↔ test x c s = true ∧ M.exec x c s = some o := by
  simp only [Machine.checked, Option.ite_none_right_eq_some]

/-- A run all of whose steps pass a test is one of the machine that a weaker guard limits. -/
theorem Prog.run_guard {g : χ → C → σ → Prop} {o : α × σ}
    (hg : ∀ x c s, test x c s = true → g x c s) (hrun : p.run (M.checked test) xs s = some o) :
    p.run (M.guard g) xs s = some o := by
  refine Prog.run_induct hrun rfl ?_
  intro x c next xs s r t hexec ih
  obtain ⟨htest, hexec⟩ := Machine.checked_exec.mp hexec
  have hguard : (M.guard g).exec x c s = some (r, t) :=
    Machine.guard_exec.mpr ⟨hg x c s htest, hexec⟩
  simp only [Prog.run, hguard, ih]

/-- The machine with a note that says whether every step so far passed a test. -/
def Machine.noting (M : Machine C R σ χ) (test : χ → C → σ → Bool) :
    Machine C R (σ × Bool) χ where
  exec x c s := (M.exec x c s.1).map fun o => (o.1, o.2, s.2 && test x c s.1)

theorem Machine.noting_exec {x : χ} {c : C} {r : R c} {s t : σ × Bool} :
    (M.noting test).exec x c s = some (r, t) ↔
      M.exec x c s.1 = some (r, t.1) ∧ t.2 = (s.2 && test x c s.1) := by
  obtain ⟨t, note⟩ := t
  simp only [Machine.noting, Option.map_eq_some_iff, Prod.exists, Prod.mk.injEq]
  constructor
  · rintro ⟨r', t', hexec, rfl, rfl, rfl⟩
    exact ⟨hexec, rfl⟩
  · rintro ⟨hexec, rfl⟩
    exact ⟨r, t, hexec, rfl, rfl, rfl⟩

/-- A run has a note at its end, and if it still stands, every step passed the test. -/
theorem Prog.exists_run_noting (test : χ → C → σ → Bool) (note : Bool)
    (hrun : p.run M xs s = some (a, t)) :
    ∃ note', p.run (M.noting test) xs (s, note) = some (a, t, note') ∧
      (note' = true → note = true ∧ p.run (M.checked test) xs s = some (a, t)) := by
  revert note
  refine Prog.run_induct hrun (fun note => ⟨note, rfl, fun h => ⟨h, rfl⟩⟩) ?_
  intro x c next xs s r u hexec ih note
  obtain ⟨note', hnoting, hpassed⟩ := ih (note && test x c s)
  have hstep : (M.noting test).exec x c (s, note) = some (r, u, note && test x c s) :=
    Machine.noting_exec.mpr ⟨hexec, rfl⟩
  refine ⟨note', by simp only [Prog.run, hstep, hnoting], fun h => ?_⟩
  obtain ⟨hboth, hchecked⟩ := hpassed h
  obtain ⟨hnote, htest⟩ := Bool.and_eq_true_iff.mp hboth
  have hcheck : (M.checked test).exec x c s = some (r, u) :=
    Machine.checked_exec.mpr ⟨htest, hexec⟩
  exact ⟨hnote, by simp only [Prog.run, hcheck, hchecked]⟩

/-- A run of a routine: its outcome and the store it leaves. -/
def Settles (M : Machine C (fun c => Except ε (R c)) σ χ) (p : Routine C R ℓ ε α) (l : ℓ) (s : σ)
    (r : Except ε α) (t : σ) : Prop :=
  ∃ xs l', (p l).run M xs s = some ((r, l'), t)

/-- A run that a test accepts. -/
theorem Prog.exists_run (xs : List χ) (accept : α × σ → Bool)
    (hrun : (p.run M xs s).any accept = true) : ∃ o, p.run M xs s = some o ∧ accept o = true := by
  cases hresult : p.run M xs s with
  | none =>
    rw [hresult] at hrun
    cases hrun
  | some o =>
    rw [hresult] at hrun
    exact ⟨o, rfl, hrun⟩

/-- Two runs, one after the other, that a test accepts. -/
theorem Prog.exists_runs {q : Prog C R β} (xs ys : List χ) (accept : σ → β × σ → Bool)
    (hrun : (p.run M xs s).any (fun o => (q.run M ys o.2).any (accept o.2)) = true) :
    ∃ o o', p.run M xs s = some o ∧ q.run M ys o.2 = some o' ∧ accept o.2 o' = true := by
  obtain ⟨o, hfirst, hrest⟩ := Prog.exists_run xs _ hrun
  obtain ⟨o', hsecond, haccept⟩ := Prog.exists_run ys _ hrest
  exact ⟨o, o', hfirst, hsecond, haccept⟩

/-- What a routine meets holds after each of its runs. -/
theorem Meets.of_run {M : Machine C (fun c => Except ε (R c)) σ χ}
    {post : Except ε α → ℓ → σ → Prop} {p : Routine C R ℓ ε α} {l' : ℓ} (hp : Meets M post p l s)
    (hrun : (p l).run M xs s = some ((r, l'), t)) : post r l' t := by
  have hsafe : Safe M Alone (fun _ _ => True) (fun o t => post o.1 o.2 t) (p l) s := hp
  exact hsafe.run hrun

theorem Meets.of_settles {M : Machine C (fun c => Except ε (R c)) σ χ}
    {post : Except ε α → ℓ → σ → Prop} {p : Routine C R ℓ ε α} (hp : Meets M post p l s)
    (hrun : Settles M p l s r t) : ∃ l', post r l' t := by
  obtain ⟨xs, l', hrun⟩ := hrun
  exact ⟨l', hp.of_run hrun⟩

end Interleaving
