import Mathlib.Logic.Function.Basic
import AgentBell.Interleaving.System

/-!
# Locks that protect named parts of a store

Processes work on a store whose parts have names, and take the lock of a name while they change its
part.  `locked` adds to a machine who holds which lock.  The lock itself is not modelled: an orderly
run is one in which a lock is taken only when no live process holds it, and no process is killed
while the part it works on is not settled.

In an orderly run what a process holds is changed by no one else, and a process that takes a lock
finds a settled part.  `Runs` is the logic of a single process under these assumptions, and
`ordered_of_reachable` carries it over to every run.
-/

namespace Interleaving.NamedLock

/-- How the commands of a machine use locks: which lock a command took, which one it gives back,
which parts it may change, what a part looks like and when it is settled, which commands are allowed
in a store, and what they may do to the store as a whole. -/
structure Locking (C : Type) (R : C → Type) (σ N V : Type) where
  takes : (c : C) → R c → Option N
  drops : C → Option N
  touches : C → N → Prop
  view : σ → N → V
  settled : V → Prop
  allowed : C → σ → Prop
  step : σ → σ → Prop

/-- A store with the holders of the locks. -/
structure Held (σ N : Type) where
  store : σ
  holders : N → Option Nat := fun _ => none

section Definitions

variable {C : Type} {R : C → Type} {σ χ N V : Type} [DecidableEq N]

/-- Who holds the locks after a command of process `i`. -/
def after (K : Locking C R σ N V) (i : Nat) (c : C) (r : R c) (holders : N → Option Nat) :
    N → Option Nat :=
  match K.takes c r with
  | some n => Function.update holders n (some i)
  | none =>
    match K.drops c with
    | some n => if holders n = some i then Function.update holders n none else holders
    | none => holders

/-- Everything a command can do to the holder of a lock. -/
theorem after_cases (K : Locking C R σ N V) (i : Nat) (c : C) (r : R c)
    (holders : N → Option Nat) (n : N) : after K i c r holders n = holders n ∨
      (K.takes c r = some n ∧ after K i c r holders n = some i) ∨
      (K.drops c = some n ∧ holders n = some i ∧ after K i c r holders n = none) := by
  cases htakes : K.takes c r with
  | some m =>
    simp only [after, htakes]
    by_cases hmn : n = m
    · subst hmn
      exact .inr (.inl ⟨rfl, Function.update_self ..⟩)
    · exact .inl (Function.update_of_ne hmn ..)
  | none =>
    cases hdrops : K.drops c with
    | none => exact .inl (by simp only [after, htakes, hdrops])
    | some m =>
      simp only [after, htakes, hdrops]
      split
      · rename_i hheld
        by_cases hmn : n = m
        · subst hmn
          exact .inr (.inr ⟨rfl, hheld, Function.update_self ..⟩)
        · exact .inl (Function.update_of_ne hmn ..)
      · exact .inl rfl

/-- The machine with the holders of the locks; a command carries the process that issues it. -/
def locked (M : Machine C R σ χ) (K : Locking C R σ N V) :
    Machine (Nat × C) (fun c => R c.2) (Held σ N) χ where
  exec x c s := (M.exec x c.2 s.store).map fun o => (o.1, ⟨o.2, after K c.1 c.2 o.1 s.holders⟩)

/-- Commands change what they touch only and do nothing else to locks then, and allowed commands
make steps. -/
structure Locking.Lawful (M : Machine C R σ χ) (K : Locking C R σ N V) : Prop where
  refl : ∀ s, K.step s s
  trans : ∀ s t u, K.step s t → K.step t u → K.step s u
  plain : ∀ {c n}, K.touches c n → K.drops c = none ∧ ∀ r, K.takes c r = none
  untouched : ∀ {x c s r t n}, M.exec x c s = some (r, t) → ¬ K.touches c n →
    K.view t n = K.view s n
  steps : ∀ {x c s r t}, K.allowed c s → M.exec x c s = some (r, t) → K.step s t

/-- What process `i` expects of the others. -/
structure Tolerates (K : Locking C R σ N V) (i : Nat) (s t : Held σ N) : Prop where
  holds : ∀ n, s.holders n = some i → t.holders n = some i
  view : ∀ n, s.holders n = some i → K.view t.store n = K.view s.store n
  step : K.step s.store t.store

/-- When process `i` may issue a command: it holds the locks of the parts the command touches, gives
locks back when their parts are settled, and the command is allowed. -/
structure Permits (K : Locking C R σ N V) (i : Nat) (c : Nat × C) (s : Held σ N) : Prop where
  own : c.1 = i
  holds : ∀ n, K.touches c.2 n → s.holders n = some i
  settled : ∀ n, K.drops c.2 = some n → s.holders n = some i → K.settled (K.view s.store n)
  allowed : K.allowed c.2 s.store

/-- A step finds the part of a lock it takes settled, and meets a condition `g`. -/
def Finds (M : Machine C R σ χ) (K : Locking C R σ N V) (g : χ → C → σ → Prop) (x : χ)
    (c : Nat × C) (s : Held σ N) : Prop :=
  g x c.2 s.store ∧ ∀ r t n, M.exec x c.2 s.store = some (r, t) → K.takes c.2 r = some n →
    K.settled (K.view s.store n)

/-- The machine whose steps find settled parts. -/
noncomputable abbrev finding (M : Machine C R σ χ) (K : Locking C R σ N V)
    (g : χ → C → σ → Prop) : Machine (Nat × C) (fun c => R c.2) (Held σ N) χ :=
  (locked M K).guard (Finds M K g)

/-- A program that process `i` may run, with what it returns. -/
def Runs (M : Machine C R σ χ) (K : Locking C R σ N V) (g : χ → C → σ → Prop) (i : Nat)
    {α : Type} (post : α → Held σ N → Prop) (p : Prog C R α) (s : Held σ N) : Prop :=
  Safe ((finding M K g).comap (fun c => (i, c)) fun _ r => r) (fun _ => Tolerates K i)
    (fun c => Permits K i (i, c)) post p s

/-- Process `i` holds the lock of a name, and knows something of its part. -/
structure Holding (K : Locking C R σ N V) (i : Nat) (n : N) (φ : V → Prop) (s : Held σ N) :
    Prop where
  holder : s.holders n = some i
  view : φ (K.view s.store n)

/-- A property of stores that survives every step. -/
def Locking.Stable (K : Locking C R σ N V) (F : σ → Prop) : Prop :=
  ∀ s t, F s → K.step s t → F t

end Definitions

/-! ## Rules for the programs of one process -/

section Rules

variable {C : Type} {R : C → Type} {σ χ N V : Type} {M : Machine C R σ χ}
  {K : Locking C R σ N V} {g : χ → C → σ → Prop} {i : Nat} {α β : Type}
  {post : α → Held σ N → Prop} {s t : Held σ N} {n : N} {φ : V → Prop} {F : σ → Prop}

theorem Tolerates.refl (hK : K.Lawful M) (i : Nat) (s : Held σ N) : Tolerates K i s s :=
  ⟨fun _ h => h, fun _ _ => rfl, hK.refl _⟩

theorem Tolerates.trans (hK : K.Lawful M) {u : Held σ N} (hst : Tolerates K i s t)
    (htu : Tolerates K i t u) : Tolerates K i s u where
  holds := fun n h => htu.holds n (hst.holds n h)
  view := fun n h => (htu.view n (hst.holds n h)).trans (hst.view n h)
  step := hK.trans _ _ _ hst.step htu.step

theorem Holding.stable (h : Holding K i n φ s) (ht : Tolerates K i s t) : Holding K i n φ t :=
  ⟨ht.holds n h.holder, by rw [ht.view n h.holder]; exact h.view⟩

variable [DecidableEq N]

theorem runs_ret {a : α} (h : ∀ t, Tolerates K i s t → post a t) : Runs M K g i post (.ret a) s :=
  safe_ret h

/-- A value is returned under a property of the store. -/
theorem runs_return {a : α} {post : α → Prop} (hF : K.Stable F) (hs : F s.store) (h : post a) :
    Runs M K g i (fun a t => F t.store ∧ post a) (.ret a) s :=
  runs_ret fun _ ht => ⟨hF _ _ hs ht.step, h⟩

theorem runs_cmd {c : C} {next : R c → Prog C R α}
    (h : ∀ t, Tolerates K i s t → Permits K i (i, c) t ∧ ∀ x r v, g x c t.store →
      M.exec x c t.store = some (r, v) →
      (∀ n, K.takes c r = some n → K.settled (K.view t.store n)) →
      Runs M K g i post (next r) ⟨v, after K i c r t.holders⟩) :
    Runs M K g i post (.cmd c next) s := by
  refine safe_cmd fun t ht => ⟨(h t ht).1, fun x r v hexec => ?_⟩
  simp only [Machine.comap, Option.map_eq_some_iff] at hexec
  obtain ⟨⟨r', v'⟩, hguard, heq⟩ := hexec
  cases heq
  obtain ⟨⟨hg, hfinds⟩, hlocked⟩ := Machine.guard_exec.mp hguard
  simp only [locked, Option.map_eq_some_iff] at hlocked
  obtain ⟨⟨r'', v''⟩, hM, heq⟩ := hlocked
  cases heq
  exact (h t ht).2 x _ _ hg hM fun n htakes => hfinds _ _ n hM htakes

theorem Runs.bind {Q : α → Held σ N → Prop} {p : Prog C R α} {f : α → Prog C R β}
    {post : β → Held σ N → Prop} (hK : K.Lawful M) (hp : Runs M K g i Q p s)
    (hf : ∀ a t, Q a t → Runs M K g i post (f a) t) : Runs M K g i post (p.bind f) s :=
  Safe.bind (fun _ => Tolerates.refl hK i) hp hf

theorem Runs.weaken {post' : α → Held σ N → Prop} {p : Prog C R α} (hp : Runs M K g i post p s)
    (h : ∀ a t, post a t → post' a t) : Runs M K g i post' p s :=
  Safe.weaken hp (fun _ _ hc => hc) h

section Commands

variable {c : C} {next : R c → Prog C R α} (hK : K.Lawful M) (hF : K.Stable F) (hs : F s.store)

include hK hF hs

/-- A command that uses no lock and touches no part. -/
theorem runs_outside (hdrops : K.drops c = none) (htouches : ∀ n, ¬ K.touches c n)
    (hallowed : ∀ t, F t → K.allowed c t)
    (hnext : ∀ x r t v, F t → M.exec x c t = some (r, v) → ∀ u : Held σ N, F u.store →
      Runs M K g i post (next r) u) : Runs M K g i post (.cmd c next) s := by
  refine runs_cmd fun t ht => ?_
  have hFt : F t.store := hF _ _ hs ht.step
  refine ⟨⟨rfl, fun n hn => absurd hn (htouches n), fun n hn => ?_, hallowed _ hFt⟩, ?_⟩
  · rw [hdrops] at hn
    cases hn
  · intro x r v _ hexec _
    exact hnext x r _ v hFt hexec _ (hF _ _ hFt (hK.steps (hallowed _ hFt) hexec))

/-- A command on the part of a lock that process `i` holds. -/
theorem runs_inside (hold : Holding K i n φ s) (htakes : ∀ r, K.takes c r = none)
    (hdrops : K.drops c = none) (htouches : ∀ m, K.touches c m → m = n)
    (hallowed : ∀ t, F t → φ (K.view t n) → K.allowed c t)
    (hnext : ∀ x r t v, F t → φ (K.view t n) → g x c t → M.exec x c t = some (r, v) →
      ∀ u : Held σ N, u.store = v → F u.store → u.holders n = some i →
        Runs M K g i post (next r) u) : Runs M K g i post (.cmd c next) s := by
  refine runs_cmd fun t ht => ?_
  have hFt : F t.store := hF _ _ hs ht.step
  have hheld := hold.stable ht
  have hallowedt := hallowed _ hFt hheld.view
  refine ⟨⟨rfl, fun m hm => ?_, fun m hm => ?_, hallowedt⟩, ?_⟩
  · rw [htouches m hm]
    exact hheld.holder
  · rw [hdrops] at hm
    cases hm
  · intro x r v hg hexec _
    refine hnext x r _ v hFt hheld.view hg hexec _ rfl (hF _ _ hFt (hK.steps hallowedt hexec)) ?_
    simp only [after, htakes, hdrops]
    exact hheld.holder

/-- A command that takes the lock of a name or not. -/
theorem runs_take (htakes : ∀ r, K.takes c r = none ∨ K.takes c r = some n)
    (hdrops : K.drops c = none) (htouches : ∀ m, ¬ K.touches c m)
    (hallowed : ∀ t, F t → K.allowed c t)
    (htaken : ∀ r u, K.takes c r = some n → F u.store → Holding K i n K.settled u →
      Runs M K g i post (next r) u)
    (hnot : ∀ r u, K.takes c r = none → F u.store → Runs M K g i post (next r) u) :
    Runs M K g i post (.cmd c next) s := by
  refine runs_cmd fun t ht => ?_
  have hFt : F t.store := hF _ _ hs ht.step
  refine ⟨⟨rfl, fun m hm => absurd hm (htouches m), fun m hm => ?_, hallowed _ hFt⟩, ?_⟩
  · rw [hdrops] at hm
    cases hm
  · intro x r v _ hexec hfinds
    have hFv : F v := hF _ _ hFt (hK.steps (hallowed _ hFt) hexec)
    rcases htakes r with hnone | hsome
    · exact hnot r _ hnone hFv
    · refine htaken r _ hsome hFv ⟨?_, ?_⟩
      · simp only [after, hsome, Function.update_self]
      · rw [hK.untouched hexec (htouches n)]
        exact hfinds n hsome

/-- A command that gives back the lock of a name. -/
theorem runs_drop (hold : Holding K i n K.settled s) (hdrops : K.drops c = some n)
    (htouches : ∀ m, ¬ K.touches c m) (hallowed : ∀ t, F t → K.allowed c t)
    (hnext : ∀ r u, F u.store → Runs M K g i post (next r) u) :
    Runs M K g i post (.cmd c next) s := by
  refine runs_cmd fun t ht => ?_
  have hFt : F t.store := hF _ _ hs ht.step
  refine ⟨⟨rfl, fun m hm => absurd hm (htouches m), fun m hm _ => ?_, hallowed _ hFt⟩, ?_⟩
  · obtain rfl := Option.mem_unique hdrops hm
    exact (hold.stable ht).view
  · intro x r v _ hexec _
    exact hnext r _ (hF _ _ hFt (hK.steps (hallowed _ hFt) hexec))

end Commands

end Rules

/-! ## Orderly runs -/

section Systems

variable {C : Type} {R : C → Type} {σ χ N V κ μ : Type}

/-- The contract of process `i`, which knows `idle` of the store while it rests. -/
def contract (K : Locking C R σ N V) (idle : μ → Held σ N → Prop) (i : Nat) :
    Contract (Nat × C) (Held σ N) κ μ where
  rest := Tolerates K i
  rely := fun _ _ => Tolerates K i
  pre := fun _ => Permits K i
  idle := idle
  done := fun _ => idle

theorem contract_lawful {M : Machine C R σ χ} {K : Locking C R σ N V} (hK : K.Lawful M) {i : Nat}
    {idle : μ → Held σ N → Prop} (hidle : ∀ m s t, idle m s → Tolerates K i s t → idle m t) :
    (contract K idle i : Contract (Nat × C) (Held σ N) κ μ).Lawful where
  rely_refl := fun _ _ => Tolerates.refl hK i
  rely_trans := fun _ _ _ _ _ => Tolerates.trans hK
  rest_refl := Tolerates.refl hK i
  idle_stable := hidle
  idle_of_done := fun _ _ _ h => h

variable [DecidableEq N]

/-- Processes that run programs over a machine with locks. -/
def protocol (M : Machine C R σ χ) (K : Locking C R σ N V) (may : Nat → κ → μ → Bool)
    (body : Nat → κ → μ → Prog C R μ) (fresh : μ) :
    Protocol (Nat × C) (fun c => R c.2) (Held σ N) χ κ μ Nat where
  machine := locked M K
  may := fun i k m _ => may i k m
  body := fun i k m => (body i k m).embed (fun c => (i, c)) fun _ r => r
  fresh := fresh

/-- A configuration of such processes. -/
abbrev World (C : Type) (R : C → Type) (σ N κ μ : Type) :=
  Config (Nat × C) (fun c : Nat × C => R c.2) (Held σ N) κ μ Nat

/-- A lock is taken only when no live process holds it, and no process is started anew. -/
def Exclusive (M : Machine C R σ χ) (K : Locking C R σ N V) (e : Event κ χ Nat)
    (c : World C R σ N κ μ) : Prop :=
  match e with
  | .spawn _ => False
  | .step i x => ∀ k o next r t n j, c.procs i = some (.busy k (.cmd o next)) →
      M.exec x o.2 c.store.store = some (r, t) → K.takes o.2 r = some n →
      c.store.holders n = some j → c.procs j = none
  | _ => True

/-- No process is killed while a part it holds is not settled, and the steps meet a condition
`g`. -/
def Careful (K : Locking C R σ N V) (g : χ → C → σ → Prop) (e : Event κ χ Nat)
    (c : World C R σ N κ μ) : Prop :=
  match e with
  | .kill i => ∀ n, c.store.holders n = some i → K.settled (K.view c.store.store n)
  | .step i x => ∀ k o next, c.procs i = some (.busy k (.cmd o next)) → g x o.2 c.store.store
  | _ => True

/-- An orderly event. -/
def Orderly (M : Machine C R σ χ) (K : Locking C R σ N V) (g : χ → C → σ → Prop)
    (e : Event κ χ Nat) (c : World C R σ N κ μ) : Prop :=
  Exclusive M K e c ∧ Careful K g e c

/-- Every process keeps its contract, and a part that is not settled has a live holder. -/
structure Ordered (M : Machine C R σ χ) (K : Locking C R σ N V) (g : χ → C → σ → Prop)
    (idle : Nat → μ → Held σ N → Prop) (c : World C R σ N κ μ) : Prop where
  sound : c.Sound (finding M K g) fun i => contract K (idle i) i
  guarded : ∀ n, ¬ K.settled (K.view c.store.store n) →
    ∃ j, c.store.holders n = some j ∧ c.procs j ≠ none

variable {M : Machine C R σ χ} {K : Locking C R σ N V} {g : χ → C → σ → Prop}
  {idle : Nat → μ → Held σ N → Prop} {may : Nat → κ → μ → Bool} {body : Nat → κ → μ → Prog C R μ}
  {fresh : μ} {c c' : World C R σ N κ μ} {e : Event κ χ Nat}

/-- The step of one process is tolerated by every other live one. -/
theorem tolerates_of_exec (hK : K.Lawful M) {i j : Nat} {x : χ} {o : C} {r : R o}
    {s : Held σ N} {v : σ} (hpermits : Permits K i (i, o) s) (hji : j ≠ i)
    (hexec : M.exec x o s.store = some (r, v))
    (htakes : ∀ n, K.takes o r = some n → s.holders n ≠ some j) :
    Tolerates K j s ⟨v, after K i o r s.holders⟩ where
  holds := by
    intro n hn
    rcases after_cases K i o r s.holders n with hsame | ⟨htaken, -⟩ | ⟨-, hheld, -⟩
    · exact hsame.trans hn
    · exact absurd hn (htakes n htaken)
    · exact absurd (Option.mem_unique hn hheld) hji
  view := by
    intro n hn
    refine hK.untouched hexec fun htouches => ?_
    exact hji (Option.some.inj (hn.symm.trans (hpermits.holds n htouches)))
  step := hK.steps hpermits.allowed hexec

/-- A part that is not settled after a step is held by a process that lives. -/
theorem guarded_of_exec (hK : K.Lawful M) (hc : Ordered M K g idle c) {i : Nat} {x : χ} {o : C}
    {r : R o} {v : σ} (hi : c.procs i ≠ none) (hpermits : Permits K i (i, o) c.store)
    (hexec : M.exec x o c.store.store = some (r, v)) {n : N} (hn : ¬ K.settled (K.view v n)) :
    ∃ j, after K i o r c.store.holders n = some j ∧ c.procs j ≠ none := by
  by_cases htouches : K.touches o n
  · -- the process holds what it touches
    refine ⟨i, ?_, hi⟩
    obtain ⟨hdrops, htakes⟩ := hK.plain htouches
    simp only [after, hdrops, htakes]
    exact hpermits.holds n htouches
  · rw [hK.untouched hexec htouches] at hn
    obtain ⟨j, hj, hlive⟩ := hc.guarded n hn
    rcases after_cases K i o r c.store.holders n with hsame | ⟨-, htaken⟩ | ⟨hdrops, hheld, -⟩
    · exact ⟨j, hsame.trans hj, hlive⟩
    · exact ⟨i, htaken, hi⟩
    · exact absurd (hpermits.settled n hdrops hheld) hn

/-- The order survives every orderly event. -/
theorem Ordered.next (hK : K.Lawful M)
    (hidle : ∀ i m s t, idle i m s → Tolerates K i s t → idle i m t)
    (hbody : ∀ i k m s, idle i m s → may i k m = true → Runs M K g i (idle i) (body i k m) s)
    (hc : Ordered M K g idle c) (hok : Orderly M K g e c)
    (hnext : (protocol M K may body fresh).next e c = some c') : Ordered M K g idle c' := by
  have hlawful : ∀ i, (contract K (idle i) i : Contract (Nat × C) (Held σ N) κ μ).Lawful :=
    fun i => contract_lawful hK (hidle i)
  have hguarded : ((protocol M K may body fresh).guard (Finds M K g)).next e c = some c' := by
    refine Protocol.guard_next hnext ?_
    rintro i x k o next rfl hi
    refine ⟨hok.2 k o next hi, fun r t n hexec htaken => ?_⟩
    by_contra hn
    obtain ⟨j, hj, hlive⟩ := hc.guarded n hn
    exact hlive (hok.1 k o next r t n j hi hexec htaken hj)
  refine ⟨hc.sound.next hlawful hguarded ?_ ?_ ?_, ?_⟩
  · rintro i rfl
    exact hok.1.elim
  · rintro i k m rfl hrests hmay
    exact Safe.of_comap (hbody i k m c.store hrests hmay)
  · rintro i x k o next r v rfl hi hpermits hexec j a hji hj
    obtain ⟨-, hlocked⟩ := Machine.guard_exec.mp hexec
    simp only [protocol, locked, Option.map_eq_some_iff] at hlocked
    obtain ⟨⟨r', v'⟩, hM, heq⟩ := hlocked
    cases heq
    obtain ⟨i', o⟩ := o
    obtain rfl : i' = i := hpermits.own
    have htolerates : Tolerates K j c.store ⟨v', after K i' o r' c.store.holders⟩ := by
      refine tolerates_of_exec hK hpermits hji hM fun n htaken hheld => ?_
      have hgone := hok.1 k (i', o) next r' v' n j hi hM htaken hheld
      rw [hj] at hgone
      cases hgone
    cases a with
    | idle m => exact htolerates
    | busy k' p => exact htolerates
  · intro n hn
    cases Protocol.effect_of_next hnext with
    | spawned i absent => exact hok.1.elim
    | called i k m rests permitted =>
      obtain ⟨j, hj, hlive⟩ := hc.guarded n hn
      exact ⟨j, hj, Config.put_procs_ne_none _ hlive⟩
    | returned i x k m done =>
      obtain ⟨j, hj, hlive⟩ := hc.guarded n hn
      exact ⟨j, hj, Config.put_procs_ne_none _ hlive⟩
    | killed i =>
      obtain ⟨j, hj, hlive⟩ := hc.guarded n hn
      refine ⟨j, hj, ?_⟩
      by_cases hji : j = i
      · subst hji
        exact absurd (hok.2 n hj) hn
      · rw [Config.put_procs_ne _ _ hji]
        exact hlive
    | issued i x k o next r v runs result =>
      have hpermits := hc.sound.pre hlawful runs
      simp only [protocol, locked, Option.map_eq_some_iff] at result
      obtain ⟨⟨r', v'⟩, hM, heq⟩ := result
      cases heq
      obtain ⟨i', o⟩ := o
      obtain rfl : i' = i := hpermits.own
      have hi : c.procs i' ≠ none := by
        rw [runs]
        nofun
      obtain ⟨j, hj, hlive⟩ := guarded_of_exec hK hc hi hpermits hM hn
      exact ⟨j, hj, Config.put_procs_ne_none _ hlive⟩

/-- The order holds in every orderly run that starts with it, and the run makes steps only. -/
theorem ordered_of_reachable (hK : K.Lawful M)
    (hidle : ∀ i m s t, idle i m s → Tolerates K i s t → idle i m t)
    (hbody : ∀ i k m s, idle i m s → may i k m = true → Runs M K g i (idle i) (body i k m) s)
    {start : World C R σ N κ μ} (hstart : Ordered M K g idle start)
    (h : Reachable (protocol M K may body fresh) (Orderly M K g) start c) :
    Ordered M K g idle c ∧ K.step start.store.store c.store.store := by
  refine h.invariant (fun c => Ordered M K g idle c ∧ K.step start.store.store c.store.store)
    ⟨hstart, hK.refl _⟩ ?_
  rintro c c' e ⟨hc, hstep⟩ hok hnext
  refine ⟨hc.next hK hidle hbody hok hnext, hK.trans _ _ _ hstep ?_⟩
  cases Protocol.effect_of_next hnext with
  | issued i x k o next r v runs result =>
    have hpermits := hc.sound.pre (fun i => contract_lawful hK (hidle i)) runs
    simp only [protocol, locked, Option.map_eq_some_iff] at result
    obtain ⟨⟨r', v'⟩, hM, heq⟩ := result
    cases heq
    exact hK.steps hpermits.allowed hM
  | _ => exact hK.refl _

end Systems

end Interleaving.NamedLock
