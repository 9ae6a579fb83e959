import Mathlib.Tactic.Common
import Mathlib.Logic.Basic

/-!
# Programs over atomic commands, and their safety under interference

A program is a tree of atomic commands: it either returns a value or issues one command
and goes on with the reply.  A `Machine` says what each command does to the shared store;
what the command leaves open (a clock, a random value, the order of a directory listing) is
a choice handed to it from outside.

Other processes may change the store between two commands of a program, and the program may
be dropped between any two of its commands.  `Safe rely pre post p s` says that `p`, started
at the store `s`, issues every command in a store where `pre` allows it and returns only
values that meet `post`, whatever changes allowed by `rely` happen in between.  The relation
`rely` may depend on the command the program is about to issue.
-/

namespace Interleaving

/-- A program over the commands `C`, whose replies have the types `R`. -/
inductive Prog (C : Type) (R : C → Type) (α : Type) where
  | ret (a : α)
  | cmd (c : C) (next : R c → Prog C R α)

namespace Prog

variable {C : Type} {R : C → Type} {α β : Type}

/-- Run `p` and go on with `f` on its result. -/
def bind : Prog C R α → (α → Prog C R β) → Prog C R β
  | .ret a, f => f a
  | .cmd c next, f => .cmd c fun r => (next r).bind f

instance : Monad (Prog C R) where
  pure := .ret
  bind := Prog.bind

/-- The program that issues one command and returns its reply. -/
def issue (c : C) : Prog C R (R c) :=
  .cmd c .ret

/-- The program as part of one over other commands, to which each of its commands is mapped;
`back` turns the replies back. -/
def embed {C' : Type} {R' : C' → Type} (f : C → C') (back : ∀ c, R' (f c) → R c) :
    Prog C R α → Prog C' R' α
  | .ret a => .ret a
  | .cmd c next => .cmd (f c) fun r => (next (back c r)).embed f back

/-- The command a program is about to issue, if it has not returned yet. -/
def head : Prog C R α → Option C
  | .ret _ => none
  | .cmd c _ => some c

@[simp] theorem pure_eq (a : α) : (pure a : Prog C R α) = .ret a := rfl

@[simp] theorem bind_eq (p : Prog C R α) (f : α → Prog C R β) : p >>= f = p.bind f := rfl

@[simp] theorem ret_bind (a : α) (f : α → Prog C R β) :
    (Prog.ret a : Prog C R α).bind f = f a := rfl

@[simp] theorem cmd_bind (c : C) (next : R c → Prog C R α) (f : α → Prog C R β) :
    (Prog.cmd c next).bind f = .cmd c fun r => (next r).bind f := rfl

@[simp] theorem issue_bind (c : C) (f : R c → Prog C R β) :
    (Prog.issue c : Prog C R (R c)).bind f = .cmd c f := rfl

@[simp] theorem head_cmd (c : C) (next : R c → Prog C R α) : (Prog.cmd c next).head = some c := rfl

end Prog

/-- The meaning of commands: given a choice and a store, a command is either not possible
with that choice, or gives a reply and a new store. -/
structure Machine (C : Type) (R : C → Type) (σ χ : Type) where
  exec : χ → (c : C) → σ → Option (R c × σ)

/-- A condition on what a program returns, or on the error it ends with. -/
abbrev either {ε α : Type} (error : ε → Prop) (ok : α → Prop) : Except ε α → Prop
  | .error e => error e
  | .ok a => ok a

variable {C : Type} {R : C → Type} {σ χ α β : Type} {C' σ' χ' : Type} {R' : C' → Type}
  {M : Machine C R σ χ} {f : C → C'} {proj : σ' → σ} {rely : Option C → σ → σ → Prop}
  {pre : C → σ → Prop} {post : α → σ → Prop} {p : Prog C R α} {s t : σ} {φ : C → Prop} {a : α}
  {c : C} {back : ∀ c, R' (f c) → R c} {next : R c → Prog C R α} {x : χ}

/-- Every command of the program is issued in a store `pre` allows and every result meets
`post`, for every interference `rely` allows before each command and before the return. -/
def Safe (M : Machine C R σ χ) (rely : Option C → σ → σ → Prop) (pre : C → σ → Prop)
    (post : α → σ → Prop) : Prog C R α → σ → Prop
  | .ret a, s => ∀ t, rely none s t → post a t
  | .cmd c next, s => ∀ t, rely (some c) s t →
      pre c t ∧ ∀ x r v, M.exec x c t = some (r, v) → Safe M rely pre post (next r) v

section Rules

variable {M : Machine C R σ χ} {rely : Option C → σ → σ → Prop} {pre : C → σ → Prop}
  {post : α → σ → Prop} {a : α} {s : σ} {c : C} {next : R c → Prog C R α} {A : σ → Prop}
  {p : Prog C R α} {pre' : C → σ → Prop} {post' : α → σ → Prop}

/-- A returned value is safe when its postcondition survives interference. -/
theorem safe_ret (h : ∀ t, rely none s t → post a t) : Safe M rely pre post (.ret a) s := h

/-- A command is safe when it is allowed after any interference and what follows is safe. -/
theorem safe_cmd (h : ∀ t, rely (some c) s t →
      pre c t ∧ ∀ x r v, M.exec x c t = some (r, v) → Safe M rely pre post (next r) v) :
    Safe M rely pre post (.cmd c next) s := h

/-- A value returned under an assertion that interference keeps. -/
theorem safe_ret_of_stable (hs : A s) (hA : ∀ s t, A s → rely none s t → A t)
    (hpost : ∀ t, A t → post a t) :
    Safe M rely pre post (.ret a) s := fun t hst => hpost t (hA s t hs hst)

/-- A command issued under an assertion that interference keeps. -/
theorem safe_cmd_of_stable (hs : A s) (hA : ∀ s t, A s → rely (some c) s t → A t)
    (hpre : ∀ t, A t → pre c t)
    (hnext : ∀ x r t v, A t → M.exec x c t = some (r, v) → Safe M rely pre post (next r) v) :
    Safe M rely pre post (.cmd c next) s := by
  intro t hst
  have ht : A t := hA s t hs hst
  exact ⟨hpre t ht, fun x r v hx => hnext x r t v ht hx⟩

/-- Safety survives the interference a program tolerates at its next command. -/
theorem Safe.stable (hp : Safe M rely pre post p s)
    (htrans : ∀ o a b c, rely o a b → rely o b c → rely o a c) (hst : rely p.head s t) :
    Safe M rely pre post p t := by
  cases p with
  | ret a => exact fun v hv => hp v (htrans none s t v hst hv)
  | cmd c next => exact fun v hv => hp v (htrans (some c) s t v hst hv)

/-- The postcondition and the allowed commands may be weakened. -/
theorem Safe.weaken (hp : Safe M rely pre post p s) (hpre : ∀ c t, pre c t → pre' c t)
    (hpost : ∀ a t, post a t → post' a t) : Safe M rely pre' post' p s := by
  induction p generalizing s with
  | ret a => exact fun t ht => hpost a t (hp t ht)
  | cmd c next ih =>
    intro t ht
    obtain ⟨hc, hnext⟩ := hp t ht
    exact ⟨hpre c t hc, fun x r v hx => ih r (hnext x r v hx)⟩

/-- Two postconditions hold together. -/
theorem Safe.both (hp : Safe M rely pre post p s) (hp' : Safe M rely pre post' p s) :
    Safe M rely pre (fun a t => post a t ∧ post' a t) p s := by
  induction p generalizing s with
  | ret a => exact fun t ht => ⟨hp t ht, hp' t ht⟩
  | cmd c next ih =>
    intro t ht
    exact ⟨(hp t ht).1, fun x r v hx => ih r ((hp t ht).2 x r v hx) ((hp' t ht).2 x r v hx)⟩

/-- Sequential composition: what the first part returns must make the rest safe. -/
theorem Safe.bind {Q : α → σ → Prop} {f : α → Prog C R β} {post : β → σ → Prop}
    (hrefl : ∀ o a, rely o a a) (hp : Safe M rely pre Q p s)
    (hf : ∀ a t, Q a t → Safe M rely pre post (f a) t) : Safe M rely pre post (p.bind f) s := by
  induction p generalizing s with
  | ret a => exact hf a s (hp s (hrefl none s))
  | cmd c next ih =>
    intro t ht
    obtain ⟨hc, hnext⟩ := hp t ht
    exact ⟨hc, fun x r v hx => ih r (hnext x r v hx)⟩

end Rules

/-! ## A program as part of one over a larger store -/

/-- A program stays safe as part of one over a larger store, when its commands do there what
they do on its own store, others do no more to its own store than it tolerates, and its
commands keep an assertion `F` about the rest. -/
theorem Safe.embed {M' : Machine C' R' σ' χ'} {rely' : Option C' → σ' → σ' → Prop}
    {pre' : C' → σ' → Prop} {F : σ' → Prop} (hexec : ∀ x c s r v, M'.exec x (f c) s = some (r, v) →
      ∃ y, M.exec y c (proj s) = some (back c r, proj v))
    (hrely : ∀ o s t, F s → rely' (o.map f) s t → rely o (proj s) (proj t))
    (hpre : ∀ c s, F s → pre c (proj s) → pre' (f c) s) (hFrely : ∀ o s t, F s → rely' o s t → F t)
    (hFexec : ∀ x c s r v, F s → M'.exec x (f c) s = some (r, v) → F v) {s : σ'} (hF : F s)
    (hp : Safe M rely pre post p (proj s)) :
    Safe M' rely' pre' (fun a t => F t ∧ post a (proj t)) (p.embed f back) s := by
  induction p generalizing s with
  | ret a => exact fun t hst => ⟨hFrely none s t hF hst, hp (proj t) (hrely none s t hF hst)⟩
  | cmd c next ih =>
    intro t hst
    have hFt : F t := hFrely _ s t hF hst
    obtain ⟨hc, hnext⟩ := hp (proj t) (hrely (some c) s t hF hst)
    refine ⟨hpre c t hFt hc, fun x r v hx => ?_⟩
    obtain ⟨y, hy⟩ := hexec x c t r v hx
    exact ih (back c r) (hFexec x c t r v hFt hx) (hnext y (back c r) (proj v) hy)

/-- A program stays safe on a machine whose store records more. -/
theorem Safe.project {M' : Machine C R σ' χ'} {rely' : Option C → σ' → σ' → Prop}
    (hexec : ∀ x c s r v, M'.exec x c s = some (r, v) → ∃ y, M.exec y c (proj s) = some (r, proj v))
    (hrely : ∀ o s t, rely' o s t → rely o (proj s) (proj t)) {s : σ'}
    (hp : Safe M rely pre post p (proj s)) :
    Safe M' rely' (fun c t => pre c (proj t)) (fun a t => post a (proj t)) p s := by
  induction p generalizing s with
  | ret a => exact fun t hst => hp (proj t) (hrely none s t hst)
  | cmd c next ih =>
    intro t hst
    obtain ⟨hc, hnext⟩ := hp (proj t) (hrely (some c) s t hst)
    refine ⟨hc, fun x r v hx => ?_⟩
    obtain ⟨y, hy⟩ := hexec x c t r v hx
    exact ih r (hnext y r (proj v) hy)

/-- The machine as a program over other commands sees it, whose commands are mapped. -/
def Machine.comap {C' : Type} {R' : C' → Type} (M : Machine C' R' σ χ) (f : C → C')
    (back : ∀ c, R' (f c) → R c) : Machine C R σ χ where
  exec x c s := (M.exec x (f c) s).map fun o => (back c o.1, o.2)

/-- A program is safe as part of one over other commands when it is safe on the machine it
sees. -/
theorem Safe.of_comap {M : Machine C' R' σ χ} {rely : Option C' → σ → σ → Prop}
    {pre : C' → σ → Prop}
    (hp : Safe (M.comap f back) (fun o => rely (o.map f)) (fun c => pre (f c)) post p s) :
    Safe M rely pre post (p.embed f back) s := by
  induction p generalizing s with
  | ret a => exact hp
  | cmd c next ih =>
    intro t hst
    obtain ⟨hc, hnext⟩ := hp t hst
    refine ⟨hc, fun x r v hx => ih (back c r) (hnext x (back c r) v ?_)⟩
    simp only [Machine.comap, hx, Option.map_some]

/-- Every command the program may issue meets `φ`. -/
def Prog.Within (φ : C → Prop) : Prog C R α → Prop
  | .ret _ => True
  | .cmd c next => φ c ∧ ∀ r, (next r).Within φ

@[simp] theorem Prog.within_ret : (Prog.ret a : Prog C R α).Within φ :=
  trivial

/-- A program issues only commands that meet what all commands meet. -/
theorem Prog.within_of_forall (h : ∀ c, φ c) : p.Within φ := by
  induction p with
  | ret a => trivial
  | cmd c next ih => exact ⟨h c, ih⟩

/-- A composition issues commands of its two parts only. -/
theorem Prog.Within.bind {f : α → Prog C R β} (hp : p.Within φ) (hf : ∀ a, (f a).Within φ) :
    (p.bind f).Within φ := by
  induction p with
  | ret a => exact hf a
  | cmd c next ih => exact ⟨hp.1, fun r => ih r (hp.2 r)⟩

/-- A program as part of one over other commands issues only the commands its own are mapped
to. -/
theorem Prog.within_embed {φ : C' → Prop} (h : ∀ c, φ (f c)) : (p.embed f back).Within φ := by
  induction p with
  | ret a => trivial
  | cmd c next ih => exact ⟨h c, fun r => ih (back c r)⟩

/-- A program that starts with a command. -/
theorem Prog.within_issue {f : R c → Prog C R β} (hc : φ c) (hf : ∀ r, (f r).Within φ) :
    ((Prog.issue c : Prog C R (R c)).bind f).Within φ := ⟨hc, hf⟩

/-- A program is safe when an assertion survives interference and every command it may issue. -/
theorem Prog.Within.safe {A : σ → Prop} (hp : p.Within φ) (hA : ∀ o s t, A s → rely o s t → A t)
    (hpre : ∀ c s, φ c → A s → pre c s)
    (hexec : ∀ x c s r v, φ c → A s → M.exec x c s = some (r, v) → A v) (hs : A s) :
    Safe M rely pre (fun _ t => A t) p s := by
  induction p generalizing s with
  | ret a => exact fun t hst => hA none s t hs hst
  | cmd c next ih =>
    intro t hst
    have ht : A t := hA _ s t hs hst
    exact ⟨hpre c t hp.1 ht, fun x r v hx => ih r (hp.2 r) (hexec x c t r v hp.1 ht hx)⟩

/-- A safe program about to issue a command may issue it, and goes on safely. -/
theorem Safe.issues (h : Safe M rely pre post (.cmd c next) s) (hst : rely (some c) s t) :
    pre c t ∧ ∀ x r v, M.exec x c t = some (r, v) → Safe M rely pre post (next r) v := h t hst

/-- A safe program about to return meets its postcondition. -/
theorem Safe.returns (h : Safe M rely pre post (.ret a) s) (hst : rely none s t) :
    post a t := h t hst

-- Programs are taken apart by the rules above only: unfolding `Safe` at a call would evaluate
-- the whole program.
attribute [irreducible] Safe

/-! ## A program that runs alone -/

/-- No interference: nothing changes the store between two commands. -/
def Alone (_ : Option C) (s t : σ) : Prop := t = s

theorem Alone.refl (o : Option C) (s : σ) : Alone o s s := rfl

section Alone

variable {M : Machine C R σ χ} {pre : C → σ → Prop} {post : α → σ → Prop} {s : σ}

/-- A program that runs alone returns in the store it is in. -/
theorem safe_alone_ret (h : post a s) : Safe M Alone pre post (.ret a) s := by
  refine safe_ret fun t ht => ?_
  obtain rfl : t = s := ht
  exact h

/-- A program that runs alone issues its command in the store it is in. -/
theorem safe_alone_cmd (hpre : pre c s)
    (hnext : ∀ x r v, M.exec x c s = some (r, v) → Safe M Alone pre post (next r) v) :
    Safe M Alone pre post (.cmd c next) s := by
  refine safe_cmd fun t ht => ?_
  obtain rfl : t = s := ht
  exact ⟨hpre, hnext⟩

/-- Sequential composition of programs that run alone. -/
theorem Safe.bind_alone {Q : α → σ → Prop} {f : α → Prog C R β}
    {post : β → σ → Prop} (hp : Safe M Alone pre Q p s)
    (hf : ∀ a t, Q a t → Safe M Alone pre post (f a) t) : Safe M Alone pre post (p.bind f) s :=
  Safe.bind Alone.refl hp hf

end Alone

/-! ## A program that runs to its end -/

/-- Every run of the program alone goes on until it returns, and returns a value that meets
`post`. -/
def Ensures (M : Machine C R σ χ) (post : α → σ → Prop) : Prog C R α → σ → Prop
  | .ret a, s => post a s
  | .cmd c next, s => (∃ x o, M.exec x c s = some o) ∧
      ∀ x r v, M.exec x c s = some (r, v) → Ensures M post (next r) v

section Total

variable {M : Machine C R σ χ} {post : α → σ → Prop} {a : α} {s : σ} {c : C}
  {next : R c → Prog C R α} {x : χ} {p : Prog C R α} {post' : α → σ → Prop}

/-- A program that returns. -/
theorem ensures_ret (h : post a s) : Ensures M post (.ret a) s := h

/-- A command that is possible and after which, whatever it does, the rest runs to its end. -/
theorem ensures_cmd {o : R c × σ} (hpossible : M.exec x c s = some o)
    (hnext : ∀ x r v, M.exec x c s = some (r, v) → Ensures M post (next r) v) :
    Ensures M post (.cmd c next) s := ⟨⟨x, o, hpossible⟩, hnext⟩

/-- The postcondition may be weakened. -/
theorem Ensures.weaken (hp : Ensures M post p s) (hpost : ∀ a t, post a t → post' a t) :
    Ensures M post' p s := by
  induction p generalizing s with
  | ret a => exact hpost a s hp
  | cmd c next ih => exact ⟨hp.1, fun x r v hx => ih r (hp.2 x r v hx)⟩

/-- Sequential composition. -/
theorem Ensures.bind {Q : α → σ → Prop} {f : α → Prog C R β} {post : β → σ → Prop}
    (hp : Ensures M Q p s) (hf : ∀ a t, Q a t → Ensures M post (f a) t) :
    Ensures M post (p.bind f) s := by
  induction p generalizing s with
  | ret a => exact hf a s hp
  | cmd c next ih => exact ⟨hp.1, fun x r v hx => ih r (hp.2 x r v hx)⟩

/-- A program about to return meets what it ensures. -/
theorem Ensures.returns (hp : Ensures M post (.ret a) s) : post a s := hp

/-- A program about to issue a command goes on to ensure what it ensures. -/
theorem Ensures.issues {v : σ} {r : R c} (hp : Ensures M post (.cmd c next) s)
    (hexec : M.exec x c s = some (r, v)) : Ensures M post (next r) v := hp.2 x r v hexec

/-- A program that ensures two things returns a value that meets both. -/
theorem Ensures.exists_both (hp : Ensures M post p s) (hp' : Ensures M post' p s) :
    ∃ a t, post a t ∧ post' a t := by
  induction p generalizing s with
  | ret a => exact ⟨a, s, hp, hp'⟩
  | cmd c next ih =>
    obtain ⟨⟨x, ⟨r, v⟩, hx⟩, hnext⟩ := hp
    exact ih r (hnext x r v hx) (hp'.2 x r v hx)

/-- A program runs to its end as part of one over a larger store, when its commands are possible
there whenever they are possible on its own store, do there what they do on its own store, and
keep an assertion `F` about the rest. -/
theorem Ensures.embed {M' : Machine C' R' σ' χ'} {F : σ' → Prop}
    (hpossible : ∀ x c s o, M.exec x c (proj s) = some o → ∃ y o', M'.exec y (f c) s = some o')
    (hexec : ∀ x c s r v, F s → M'.exec x (f c) s = some (r, v) →
      F v ∧ ∃ y, M.exec y c (proj s) = some (back c r, proj v)) {s : σ'} (hF : F s)
    (hp : Ensures M post p (proj s)) :
    Ensures M' (fun a t => F t ∧ post a (proj t)) (p.embed f back) s := by
  induction p generalizing s with
  | ret a => exact ⟨hF, hp⟩
  | cmd c next ih =>
    obtain ⟨⟨x, o, hx⟩, hnext⟩ := hp
    refine ⟨hpossible x c s o hx, fun x r v hx => ?_⟩
    obtain ⟨hFv, y, hy⟩ := hexec x c s r v hF hx
    exact ih (back c r) hFv (hnext y (back c r) (proj v) hy)

end Total

attribute [irreducible] Ensures

/-! ## A machine in a limited environment -/

open Classical in
/-- The machine without the steps a guard forbids. -/
noncomputable def Machine.guard (M : Machine C R σ χ) (g : χ → C → σ → Prop) : Machine C R σ χ where
  exec x c s := if g x c s then M.exec x c s else none

/-- What a guarded machine does. -/
theorem Machine.guard_exec {g : χ → C → σ → Prop} {o : R c × σ} :
    (M.guard g).exec x c s = some o ↔ g x c s ∧ M.exec x c s = some o := by
  simp only [Machine.guard]
  split <;> simp [*]

/-- The machine when its environment makes only some of its choices.  What the environment may
choose depends on a patience that each choice may use up. -/
def Machine.limit {π : Type} (M : Machine C R σ χ) (allow : C → χ → σ → π → Option π) :
    Machine C R (σ × π) χ where
  exec x c s := (allow c x s.1 s.2).bind fun left =>
    (M.exec x c s.1).map fun o => (o.1, (o.2, left))

/-- What a limited machine does. -/
theorem Machine.limit_exec {π : Type} {allow : C → χ → σ → π → Option π} {s v : σ × π} {r : R c} :
    (M.limit allow).exec x c s = some (r, v) ↔
      allow c x s.1 s.2 = some v.2 ∧ M.exec x c s.1 = some (r, v.1) := by
  simp only [Machine.limit, Option.bind_eq_some_iff, Option.map_eq_some_iff]
  constructor
  · rintro ⟨left, hleft, ⟨r', t⟩, hexec, heq⟩
    cases heq
    exact ⟨hleft, hexec⟩
  · rintro ⟨hleft, hexec⟩
    exact ⟨v.2, hleft, (r, v.1), hexec, rfl⟩

end Interleaving
