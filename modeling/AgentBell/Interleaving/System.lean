import Mathlib.Logic.Function.Basic
import AgentBell.Interleaving.Program

/-!
# Processes sharing a store

A `Protocol` fixes the machine, the calls a process may make and the program each call
runs.  A configuration holds the shared store and what each process is doing: resting with
its own memory, or busy with the rest of a call.  One event lets one process appear, start a
call, issue one command (or return), or die.

A `Contract` states for a process which interference it tolerates, in which stores it issues
which command, and what its memory says about the store between calls.  `Config.Sound` says
that every process keeps its contract; `Config.Sound.next` reduces the preservation of
soundness to three obligations: a new process may rest, a started call is safe, and a command
one process issues is tolerated by all others.
-/

namespace Interleaving

/-- What a process is doing: resting with its memory, or busy with the rest of a call. -/
inductive Activity (C : Type) (R : C → Type) (κ μ : Type) where
  | idle (m : μ)
  | busy (k : κ) (p : Prog C R μ)

/-- The shared store together with the activity of every live process. -/
structure Config (C : Type) (R : C → Type) (σ κ μ ι : Type) where
  store : σ
  procs : ι → Option (Activity C R κ μ)

/-- One thing that happens in a run. -/
inductive Event (κ χ ι : Type) where
  | spawn (i : ι)
  | call (i : ι) (k : κ)
  | step (i : ι) (x : χ)
  | kill (i : ι)

/-- The processes of a system: the machine they run on, the calls they may make, the
programs of the calls of each process and the memory of a new process. -/
structure Protocol (C : Type) (R : C → Type) (σ χ κ μ ι : Type) where
  machine : Machine C R σ χ
  may : ι → κ → μ → σ → Bool
  body : ι → κ → μ → Prog C R μ
  fresh : μ

section Resting

variable {C : Type} {R : C → Type} {σ κ μ ι : Type} {c : Config C R σ κ μ ι} {i : ι} {m : μ}

/-- The memory of a process that rests. -/
def Config.rests (c : Config C R σ κ μ ι) (i : ι) : Option μ :=
  match c.procs i with
  | some (.idle m) => some m
  | _ => none

theorem Config.procs_of_rests (h : c.rests i = some m) : c.procs i = some (.idle m) := by
  unfold Config.rests at h
  split at h
  · rw [‹c.procs i = _›, Option.some.inj h]
  · cases h

end Resting

section Semantics

variable {C : Type} {R : C → Type} {σ χ κ μ ι : Type} [DecidableEq ι] {P : Protocol C R σ χ κ μ ι}
  {ok : Event κ χ ι → Config C R σ κ μ ι → Prop} {start c c' : Config C R σ κ μ ι} {i j : ι}
  {e : Event κ χ ι} {g : χ → C → σ → Prop}

/-- Replace what process `i` is doing. -/
def Config.put (c : Config C R σ κ μ ι) (i : ι) (a : Option (Activity C R κ μ)) :
    Config C R σ κ μ ι :=
  { c with procs := Function.update c.procs i a }

/-- What one event does to a configuration, if it is possible there. -/
def Protocol.next (P : Protocol C R σ χ κ μ ι) (e : Event κ χ ι) (c : Config C R σ κ μ ι) :
    Option (Config C R σ κ μ ι) :=
  match e with
  | .spawn i =>
    match c.procs i with
    | none => some (c.put i (some (.idle P.fresh)))
    | some _ => none
  | .call i k =>
    match c.procs i with
    | some (.idle m) =>
      if P.may i k m c.store then some (c.put i (some (.busy k (P.body i k m)))) else none
    | _ => none
  | .step i x =>
    match c.procs i with
    | some (.busy _ (.ret m)) => some (c.put i (some (.idle m)))
    | some (.busy k (.cmd o next)) =>
      match P.machine.exec x o c.store with
      | some (r, v) => some ({ c with store := v }.put i (some (.busy k (next r))))
      | none => none
    | _ => none
  | .kill i => some (c.put i none)

/-- The configuration after a list of events, if each of them is possible and passes a
check in the configuration it happens in. -/
def Protocol.runIf (P : Protocol C R σ χ κ μ ι)
    (check : Event κ χ ι → Config C R σ κ μ ι → Bool) :
    List (Event κ χ ι) → Config C R σ κ μ ι → Option (Config C R σ κ μ ι)
  | [], c => some c
  | e :: es, c => if check e c then (P.next e c).bind (P.runIf check es) else none

/-- The configurations a run from `start` reaches when each of its events meets `ok` in the
configuration it happens in. -/
inductive Reachable (P : Protocol C R σ χ κ μ ι)
    (ok : Event κ χ ι → Config C R σ κ μ ι → Prop) (start : Config C R σ κ μ ι) :
    Config C R σ κ μ ι → Prop where
  | start : Reachable P ok start start
  | next {c c' : Config C R σ κ μ ι} (e : Event κ χ ι) (reach : Reachable P ok start c)
      (allowed : ok e c) (happens : P.next e c = some c') : Reachable P ok start c'

/-- A list of events that can happen one after the other leads to a reachable
configuration when the check they pass implies that they are allowed. -/
theorem reachable_of_runIf {check : Event κ χ ι → Config C R σ κ μ ι → Bool}
    (hcheck : ∀ e c, check e c = true → ok e c) (es : List (Event κ χ ι))
    (hc : Reachable P ok start c) (h : P.runIf check es c = some c') : Reachable P ok start c' := by
  induction es generalizing c with
  | nil =>
    obtain rfl : c = c' := Option.some.inj h
    exact hc
  | cons e es ih =>
    unfold Protocol.runIf at h
    split at h
    · rename_i hpass
      obtain ⟨d, hd, hrest⟩ := Option.bind_eq_some_iff.mp h
      exact ih (.next e hc (hcheck e c hpass) hd) hrest
    · cases h

/-- The configuration after such a list of events, or the first one if they cannot happen. -/
def Protocol.endOf (P : Protocol C R σ χ κ μ ι)
    (check : Event κ χ ι → Config C R σ κ μ ι → Bool) (es : List (Event κ χ ι))
    (c : Config C R σ κ μ ι) : Config C R σ κ μ ι := (P.runIf check es c).getD c

/-- A list of events that was found to end well does so in a reachable configuration. -/
theorem reachable_endOf {check : Event κ χ ι → Config C R σ κ μ ι → Bool}
    (hcheck : ∀ e c, check e c = true → ok e c) {es : List (Event κ χ ι)}
    {good : Config C R σ κ μ ι → Bool} (hc : Reachable P ok start c)
    (h : (P.runIf check es c).any good = true) (hend : c' = P.endOf check es c) :
    Reachable P ok start c' ∧ good c' = true := by
  obtain ⟨d, hrun, hgood⟩ := (Option.any_eq_true _ _).mp h
  rw [Protocol.endOf, hrun, Option.getD_some] at hend
  subst hend
  exact ⟨reachable_of_runIf hcheck es hc hrun, hgood⟩

/-- Induction over runs: what holds at the start and survives every allowed event holds in
every reachable configuration. -/
theorem Reachable.invariant (I : Config C R σ κ μ ι → Prop) (hstart : I start)
    (hnext : ∀ c c' e, I c → ok e c → P.next e c = some c' → I c') (h : Reachable P ok start c) :
    I c := by
  induction h with
  | start => exact hstart
  | next e _ allowed happens ih => exact hnext _ _ e ih allowed happens

@[simp] theorem Config.put_procs_self (c : Config C R σ κ μ ι) (i : ι)
    (a : Option (Activity C R κ μ)) : (c.put i a).procs i = a := by
  simp [Config.put]

theorem Config.put_procs_ne (c : Config C R σ κ μ ι) (a : Option (Activity C R κ μ)) (h : j ≠ i) :
    (c.put i a).procs j = c.procs j := by
  simp [Config.put, h]

/-- A live process lives on when an activity is set. -/
theorem Config.put_procs_ne_none (c : Config C R σ κ μ ι) {a : Activity C R κ μ}
    (hj : c.procs j ≠ none) : (c.put i (some a)).procs j ≠ none := by
  by_cases hji : j = i
  · rw [hji, Config.put_procs_self]
    nofun
  · rw [Config.put_procs_ne _ _ hji]
    exact hj

/-- Everything an event can do. -/
inductive Protocol.Effect (P : Protocol C R σ χ κ μ ι) (c : Config C R σ κ μ ι) :
    Event κ χ ι → Config C R σ κ μ ι → Prop where
  | spawned (i : ι) (absent : c.procs i = none) :
      P.Effect c (.spawn i) (c.put i (some (.idle P.fresh)))
  | called (i : ι) (k : κ) (m : μ) (rests : c.procs i = some (.idle m))
      (permitted : P.may i k m c.store = true) :
      P.Effect c (.call i k) (c.put i (some (.busy k (P.body i k m))))
  | returned (i : ι) (x : χ) (k : κ) (m : μ) (done : c.procs i = some (.busy k (.ret m))) :
      P.Effect c (.step i x) (c.put i (some (.idle m)))
  | issued (i : ι) (x : χ) (k : κ) (o : C) (next : R o → Prog C R μ) (r : R o) (v : σ)
      (runs : c.procs i = some (.busy k (.cmd o next)))
      (result : P.machine.exec x o c.store = some (r, v)) :
      P.Effect c (.step i x) ({ c with store := v }.put i (some (.busy k (next r))))
  | killed (i : ι) : P.Effect c (.kill i) (c.put i none)

/-- An event that happens has one of the listed effects. -/
theorem Protocol.effect_of_next (h : P.next e c = some c') : P.Effect c e c' := by
  cases e with
  | spawn i =>
    simp only [Protocol.next] at h
    split at h
    · rename_i habsent
      obtain rfl := Option.some.inj h
      exact .spawned i habsent
    · cases h
  | call i k =>
    simp only [Protocol.next] at h
    split at h
    · rename_i m hidle
      split at h
      · rename_i hmay
        obtain rfl := Option.some.inj h
        exact .called i k m hidle hmay
      · cases h
    · cases h
  | step i x =>
    simp only [Protocol.next] at h
    split at h
    · rename_i k m hdone
      obtain rfl := Option.some.inj h
      exact .returned i x k m hdone
    · rename_i k o next hruns
      split at h
      · rename_i r v hexec
        obtain rfl := Option.some.inj h
        exact .issued i x k o next r v hruns hexec
      · cases h
    · cases h
  | kill i =>
    obtain rfl := Option.some.inj h
    exact .killed i

/-- The system without the steps a guard forbids. -/
noncomputable def Protocol.guard (P : Protocol C R σ χ κ μ ι) (g : χ → C → σ → Prop) :
    Protocol C R σ χ κ μ ι :=
  { P with machine := P.machine.guard g }

/-- An event happens in the guarded system too, when the guard does not forbid its step. -/
theorem Protocol.guard_next (h : P.next e c = some c')
    (hg : ∀ i x k o next, e = .step i x → c.procs i = some (.busy k (.cmd o next)) →
      g x o c.store) : (P.guard g).next e c = some c' := by
  cases Protocol.effect_of_next h with
  | issued i x k o next r v runs result =>
    have hguarded := Machine.guard_exec.mpr ⟨hg i x k o next rfl runs, result⟩
    simp only [Protocol.next, runs, Protocol.guard, hguarded]
  | returned i x k m done => simp only [Protocol.next, done]
  | _ => exact h

/-- A run in which the guard forbids no step is a run of the guarded system. -/
theorem Reachable.guard {ok' : Event κ χ ι → Config C R σ κ μ ι → Prop}
    (hok : ∀ e c, ok e c → ok' e c) (hg : ∀ e c, ok e c → ∀ i x k o next, e = .step i x →
      c.procs i = some (.busy k (.cmd o next)) → g x o c.store) (h : Reachable P ok start c) :
    Reachable (P.guard g) ok' start c := by
  induction h with
  | start => exact .start
  | next e _ allowed happens ih =>
    exact .next e ih (hok e _ allowed) (Protocol.guard_next happens (hg e _ allowed))

end Semantics

/-! ## Contracts -/

/-- What a process promises and what it expects of the others: the interference it tolerates
while resting and before each command of a call, the stores in which a call issues a command,
what the memory of a resting process says about the store, and what a call guarantees when it
is done. -/
structure Contract (C σ κ μ : Type) where
  rest : σ → σ → Prop
  rely : κ → Option C → σ → σ → Prop
  pre : κ → C → σ → Prop
  idle : μ → σ → Prop
  done : κ → μ → σ → Prop

/-- The interference relations of a contract are preorders, resting survives them, and a call
that is done leaves a process that may rest. -/
structure Contract.Lawful {C σ κ μ : Type} (K : Contract C σ κ μ) : Prop where
  rely_refl : ∀ k o s, K.rely k o s s
  rely_trans : ∀ k o s t v, K.rely k o s t → K.rely k o t v → K.rely k o s v
  rest_refl : ∀ s, K.rest s s
  idle_stable : ∀ m s t, K.idle m s → K.rest s t → K.idle m t
  idle_of_done : ∀ k m s, K.done k m s → K.idle m s

section Contracts

variable {C : Type} {R : C → Type} {σ χ κ μ ι : Type} {M : Machine C R σ χ}
  {K : ι → Contract C σ κ μ} {c : Config C R σ κ μ ι} {i : ι} {k : κ}

/-- A process keeps its contract in a store. -/
def Activity.Holds (M : Machine C R σ χ) (K : Contract C σ κ μ) :
    Activity C R κ μ → σ → Prop
  | .idle m, s => K.idle m s
  | .busy k p, s => Safe M (K.rely k) (K.pre k) (K.done k) p s

/-- A process tolerates a change of the store at the point where it is. -/
def Activity.Tolerates (K : Contract C σ κ μ) : Activity C R κ μ → σ → σ → Prop
  | .idle _, s, t => K.rest s t
  | .busy k p, s, t => K.rely k p.head s t

/-- A process that keeps its contract still keeps it after a change it tolerates. -/
theorem Activity.Holds.stable {K : Contract C σ κ μ} (hK : K.Lawful) {a : Activity C R κ μ}
    {s t : σ} (ha : a.Holds M K s) (ht : a.Tolerates K s t) : a.Holds M K t := by
  cases a with
  | idle m => exact hK.idle_stable m s t ha ht
  | busy k p => exact Safe.stable ha (hK.rely_trans k) ht

/-- Every live process keeps its contract. -/
def Config.Sound (M : Machine C R σ χ) (K : ι → Contract C σ κ μ) (c : Config C R σ κ μ ι) : Prop :=
  ∀ i a, c.procs i = some a → a.Holds M (K i) c.store

/-- A busy process about to issue a command does so in an allowed store. -/
theorem Config.Sound.pre (h : c.Sound M K) (hK : ∀ i, (K i).Lawful) {o : C}
    {next : R o → Prog C R μ} (hi : c.procs i = some (.busy k (.cmd o next))) :
    (K i).pre k o c.store :=
  (Safe.issues (h i _ hi) ((hK i).rely_refl k (some o) c.store)).1

/-- A process about to return has what its call guarantees. -/
theorem Config.Sound.returns (h : c.Sound M K) (hK : ∀ i, (K i).Lawful) {m : μ}
    (hi : c.procs i = some (.busy k (.ret m))) : (K i).done k m c.store :=
  Safe.returns (h i _ hi) ((hK i).rely_refl k none c.store)

variable [DecidableEq ι]

/-- Setting one process keeps soundness when that process keeps its contract in the new
store and every other process tolerates the change. -/
theorem Config.Sound.put (h : c.Sound M K) (hK : ∀ i, (K i).Lawful) (i : ι) (v : σ)
    (act : Option (Activity C R κ μ)) (hact : ∀ a, act = some a → a.Holds M (K i) v)
    (hothers : ∀ j a, j ≠ i → c.procs j = some a → a.Tolerates (K j) c.store v) :
    ({ c with store := v }.put i act).Sound M K := by
  intro j a hj
  by_cases hji : j = i
  · subst hji
    rw [Config.put_procs_self] at hj
    exact hact a hj
  · rw [Config.put_procs_ne _ _ hji] at hj
    exact (h j a hj).stable (hK j) (hothers j a hji hj)

/-- Soundness survives an event when a new process may rest, a started call is safe, and
every other process tolerates the command that was issued. -/
theorem Config.Sound.next {P : Protocol C R σ χ κ μ ι} {c' : Config C R σ κ μ ι} {e : Event κ χ ι}
    (h : c.Sound P.machine K) (hK : ∀ i, (K i).Lawful) (he : P.next e c = some c')
    (hspawn : ∀ i, e = .spawn i → c.procs i = none → (K i).idle P.fresh c.store)
    (hcall : ∀ i k m, e = .call i k → (K i).idle m c.store → P.may i k m c.store = true →
      Safe P.machine ((K i).rely k) ((K i).pre k) ((K i).done k) (P.body i k m) c.store)
    (hstep : ∀ i x k o next r v, e = .step i x →
      c.procs i = some (.busy k (.cmd o next)) → (K i).pre k o c.store →
      P.machine.exec x o c.store = some (r, v) →
      ∀ j a, j ≠ i → c.procs j = some a → a.Tolerates (K j) c.store v) : c'.Sound P.machine K := by
  have hsame : ∀ j (a : Activity C R κ μ), a.Tolerates (K j) c.store c.store := by
    intro j a
    cases a with
    | idle m => exact (hK j).rest_refl c.store
    | busy k p => exact (hK j).rely_refl k p.head c.store
  cases Protocol.effect_of_next he with
  | spawned i absent =>
    refine h.put hK i c.store _ ?_ fun j a _ _ => hsame j a
    rintro a ⟨⟩
    exact hspawn i rfl absent
  | called i k m rests permitted =>
    refine h.put hK i c.store _ ?_ fun j a _ _ => hsame j a
    rintro a ⟨⟩
    exact hcall i k m rfl (h i _ rests) permitted
  | returned i x k m done =>
    refine h.put hK i c.store _ ?_ fun j a _ _ => hsame j a
    rintro a ⟨⟩
    exact (hK i).idle_of_done k m c.store (h.returns hK done)
  | issued i x k o next r v runs result =>
    refine h.put hK i v _ ?_ (hstep i x k o next r v rfl runs (h.pre hK runs) result)
    rintro a ⟨⟩
    exact (Safe.issues (h i _ runs) ((hK i).rely_refl k (some o) c.store)).2 x r v result
  | killed i =>
    refine h.put hK i c.store _ ?_ fun j a _ _ => hsame j a
    rintro a ⟨⟩

end Contracts

end Interleaving
