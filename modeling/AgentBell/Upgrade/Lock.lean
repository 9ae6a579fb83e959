import AgentBell.Interleaving.ExclusiveFile

/-!
# The lock of the bootstrap

An upgrade and a rollback hold the directory `upgrade.lock` from `acquireLock` to their end.  A
process that finds the directory looks at its age, removes it by its path when it is too old, and
waits otherwise.  Nothing refreshes the age of the directory, and the release removes the directory
by its path.
-/

namespace AgentBell.Upgrade.Lock

open Interleaving Interleaving.ExclusiveFile

/-- Why the lock was not acquired: the directory of the lock could not be made, a step failed, the
lock was gone when it was looked at, the deadline passed, or the process still waits. -/
inductive LockError where
  | prepare
  | failed
  | missing
  | timedOut (text : String)
  | running
  deriving DecidableEq, Repr

/-- The text of the timeout. -/
def timeoutText : String := "Timed out waiting for the AgentBell upgrade lock."

/-- A program over the lock directory, which has no content. -/
abbrev LockProg := Prog (Cmd Unit) (Reply Unit)

/-- The program that issues one command. -/
abbrev perform (c : Cmd Unit) : LockProg (Reply Unit c) := Prog.issue c

/-- The attempts of a process to make the lock directory.  Every error of the look, also that the
directory is gone, ends the acquisition. -/
def attempts (process : Nat) : Nat → LockProg (Except LockError Unit)
  | 0 => return .error .running
  | fuel + 1 => do
    match ← perform (.create process) with
    | .made _ => return .ok ()
    | .failed => return .error .failed
    | .taken =>
      match ← perform .look with
      | .missing => return .error .missing
      | .contended | .failed => return .error .failed
      | .present true =>
        match ← perform (.remove .condemned) with
        | .removed | .missing => attempts process fuel
        | .contended | .failed => return .error .failed
      | .present false =>
        if ← perform .ask then return .error (.timedOut timeoutText) else attempts process fuel

/-- Acquire the lock. -/
def acquireLock (process fuel : Nat) : LockProg (Except LockError Unit) := do
  if ← perform .ask then attempts process fuel else return .error .prepare

/-- Release the lock: remove what is at the path. -/
def release : LockProg Unit := do
  let _ ← perform (.remove .own)
  return ()

/-! ## Processes that upgrade and roll back -/

/-- A call of a process: an upgrade or a rollback acquires the lock, and is over. -/
inductive Call where
  | acquire (fuel : Nat)
  | release

/-- What a process remembers: whether it has the lock, and how its last acquisition ended. -/
structure Memory where
  held : Bool := false
  last : Option LockError := none
  deriving DecidableEq

/-- The program of a call. -/
def body (process : Nat) : Call → Memory → LockProg Memory
  | .acquire fuel, _ => do
    match ← acquireLock process fuel with
    | .ok () => return ⟨true, none⟩
    | .error err => return ⟨false, some err⟩
  | .release, m => do
    release
    return { m with held := false }

/-- Processes that upgrade and roll back one data root. -/
def upgradeLock : Protocol (Cmd Unit) (Reply Unit) (Slot Unit) (Choice Unit) Call Memory Nat where
  machine := machine Unit
  may := fun _ k m _ =>
    match k with
    | .acquire _ => !m.held
    | .release => m.held
  body := body
  fresh := {}

/-! ## Undisturbed steps -/

/-- The file system does what it is asked, and a process that looks at the directory finds one. -/
def Undisturbed (x : Choice Unit) (c : Cmd Unit) (s : Slot Unit) : Prop :=
  x ≠ .fails ∧ x ≠ .contended ∧ (c = .look → s.entry ≠ none)

/-- The machine whose steps are undisturbed. -/
noncomputable abbrev calm : Machine (Cmd Unit) (Reply Unit) (Slot Unit) (Choice Unit) :=
  (machine Unit).guard Undisturbed

lemma follows_calm : Follows calm := fun _ _ _ _ _ h => (Machine.guard_exec.mp h).2

section Proofs

variable {i : Nat} {s t v : Slot Unit} {x : Choice Unit}

lemma create_undisturbed : calm.exec x (.create i) t ≠ some (.failed, v) := by
  intro h
  obtain ⟨⟨hfails, -⟩, hexec⟩ := Machine.guard_exec.mp h
  cases x with
  | fails => exact hfails rfl
  | works =>
    simp only [machine, exec] at hexec
    split at hexec <;> cases hexec
  | contended | answers | value => cases hexec

lemma look_undisturbed {sight : Sight} (h : calm.exec x .look t = some (sight, v)) :
    ∃ stale, sight = .present stale := by
  obtain ⟨⟨hfails, hcontended, hfinds⟩, hexec⟩ := Machine.guard_exec.mp h
  cases x with
  | fails => exact absurd rfl hfails
  | contended => exact absurd rfl hcontended
  | answers stale =>
    simp only [machine, exec, Option.isSome_iff_ne_none.mpr (hfinds rfl), if_true] at hexec
    cases hexec
    exact ⟨stale, rfl⟩
  | works | value => cases hexec

lemma remove_undisturbed {reason : Removal} {outcome : Removed}
    (h : calm.exec x (.remove reason) t = some (outcome, v)) :
    outcome = .removed ∨ outcome = .missing := by
  obtain ⟨⟨hfails, hcontended, -⟩, hexec⟩ := Machine.guard_exec.mp h
  cases x with
  | fails => exact absurd rfl hfails
  | contended => exact absurd rfl hcontended
  | works =>
    cases hexec
    split
    · exact .inl rfl
    · exact .inr rfl
  | answers | value => cases hexec

/-! ## The contract of the programs -/

/-- An acquisition ended as it should on a contended lock: it worked, it ran into the deadline, it
still waits, or it never came to the lock. -/
def Expected : Option LockError → Prop
  | none | some .prepare | some (.timedOut _) | some .running => True
  | some .failed | some .missing => False

/-- Whatever a program returns, the process has the directory when it acquired the lock, and the
outcome is one of the expected. -/
def Acquires (i : Nat) (p : LockProg (Except LockError Unit)) (s : Slot Unit) : Prop :=
  Behaves calm i (fun r t => either (fun err => Expected (some err)) (fun _ => Possesses i t) r) p s

lemma acquires_error {err : LockError} (h : Expected (some err)) :
    Acquires i (.ret (.error err)) s :=
  safe_ret fun _ _ => h

lemma acquires_attempts (fuel : Nat) : Acquires i (attempts i fuel) s := by
  induction fuel generalizing s with
  | zero => exact acquires_error trivial
  | succ fuel ih =>
    refine safe_create follows_calm ?_ (fun _ => ?_) fun _ _ _ h => absurd h create_undisturbed
    · exact fun inode v hv => safe_ret fun _ ht => ht hv
    refine safe_step (fun _ => trivial) fun x sight t v hexec => ?_
    obtain ⟨stale, rfl⟩ := look_undisturbed hexec
    cases stale with
    | true =>
      refine safe_step (fun _ => trivial) fun x outcome t v hexec => ?_
      rcases remove_undisturbed hexec with rfl | rfl
      · exact ih
      · exact ih
    | false =>
      refine safe_step (fun _ => trivial) fun _ expired _ v _ => ?_
      cases expired with
      | true => exact acquires_error trivial
      | false => exact ih

lemma acquires_acquireLock (fuel : Nat) : Acquires i (acquireLock i fuel) s := by
  refine safe_step (fun _ => trivial) fun _ made _ v _ => ?_
  cases made with
  | true => exact acquires_attempts fuel
  | false => exact acquires_error trivial

/-- Every call keeps the contract of its process. -/
lemma safe_body {k : Call} {m : Memory} (h : Expected m.last ∧ (m.held = true → Possesses i s))
    (hmay : upgradeLock.may i k m s = true) :
    Behaves calm i (fun m t => Expected m.last ∧ (m.held = true → Possesses i t)) (body i k m)
      s := by
  cases k with
  | acquire fuel =>
    refine Behaves.bind (acquires_acquireLock fuel) ?_
    rintro (err | ⟨⟩) t hdone
    · exact safe_ret fun _ _ => ⟨hdone, nofun⟩
    · exact safe_ret fun _ ht => ⟨trivial, fun _ => ht hdone⟩
  | release =>
    refine safe_removeOwn (h.2 hmay) fun _ v => ?_
    exact safe_ret fun _ _ => ⟨h.1, nofun⟩

end Proofs

/-! ## One upgrade at a time -/

/-- A process is between a successful acquisition and the end of its release: it rests, it is about
to return with the lock, or it is in its release. -/
def HoldsLock (c : World Unit Call Memory) (i : Nat) : Prop :=
  ∃ m : Memory, m.held = true ∧
    (c.procs i = some (.idle m) ∨ (∃ k, c.procs i = some (.busy k (.ret m))) ∨
      c.procs i = some (.busy .release (body i .release m)))

/-- The step of an event is undisturbed. -/
def CalmEvent (e : Event Call (Choice Unit) Nat) (c : World Unit Call Memory) : Prop :=
  ∀ i x k o next, e = .step i x → c.procs i = some (.busy k (.cmd o next)) →
    Undisturbed x o c.store

/-- A process that removes a directory it judged left behind finds that of a process that is gone,
and the steps are undisturbed. -/
def Orderly (e : Event Call (Choice Unit) Nat) (c : World Unit Call Memory) : Prop :=
  RemovesAbandoned e c ∧ CalmEvent e c

/-- A process that holds the lock has the directory. -/
lemma possesses_of_holdsLock {c : World Unit Call Memory} {i : Nat}
    (h : c.Sound calm (contract (fun m => m.held = true) fun m => Expected m.last))
    (hi : HoldsLock c i) : Possesses i c.store := by
  obtain ⟨m, hm, hidle | ⟨k, hreturns⟩ | hreleases⟩ := hi
  · exact (h i _ hidle).2 hm
  · exact (h.returns (fun i => contract_lawful _ _ i) hreturns).2 hm
  · exact h.pre (fun i => contract_lawful _ _ i) hreleases

lemma sound_of_orderly {c : World Unit Call Memory}
    (h : Reachable upgradeLock Orderly (crowd upgradeLock) c) :
    c.Sound calm (contract (fun m => m.held = true) fun m => Expected m.last) := by
  have hreach : Reachable (upgradeLock.guard Undisturbed) RemovesAbandoned (crowd upgradeLock) c :=
    h.guard (fun _ _ hok => hok.1) fun _ _ hok => hok.2
  exact sound_of_reachable (P := upgradeLock.guard Undisturbed) follows_calm
    (fun _ _ _ _ hidle hmay => safe_body hidle hmay) trivial nofun hreach

/-- In every orderly run at most one live process is between a successful acquisition and its
release, the release of a process removes its own directory, and an acquisition that came to the
lock worked, ran into the deadline or still waits. -/
theorem upgrade_lock_exclusive (c : World Unit Call Memory)
    (h : Reachable upgradeLock Orderly (crowd upgradeLock) c) :
    (∀ i j, HoldsLock c i → HoldsLock c j → i = j) ∧
      (∀ i k next, c.procs i = some (.busy k (.cmd (.remove .own) next)) → Possesses i c.store) ∧
      ∀ i m, c.procs i = some (.idle m) → Expected m.last := by
  have hsound := sound_of_orderly h
  refine ⟨fun i j hi hj => ?_, fun i k next hi => ?_, fun i m hi => ?_⟩
  · exact (possesses_of_holdsLock hsound hi).unique (possesses_of_holdsLock hsound hj)
  · exact hsound.pre (fun i => contract_lawful _ _ i) hi
  · exact (hsound i _ hi).1

/-- Process 0 holds the lock for longer than the stale time, and process 1 acquires it too. -/
def slowRun : List (Event Call (Choice Unit) Nat) :=
  [.call 0 (.acquire 1), .step 0 (.answers true), .step 0 .works, .step 0 .works,
    .call 1 (.acquire 2), .step 1 (.answers true), .step 1 .works, .step 1 (.answers true),
    .step 1 .works, .step 1 .works, .step 1 .works]

/-- The configuration after that run. -/
def slowEnd : World Unit Call Memory :=
  upgradeLock.endOf (fun _ _ => true) slowRun (crowd upgradeLock)

/-- Process 0 releases the lock between the attempt of process 1 to make the directory and its look
at it. -/
def raceRun : List (Event Call (Choice Unit) Nat) :=
  [.call 0 (.acquire 1), .step 0 (.answers true), .step 0 .works, .step 0 .works,
    .call 1 (.acquire 2), .step 1 (.answers true), .step 1 .works, .call 0 .release,
    .step 0 .works, .step 0 .works, .step 1 (.answers false), .step 1 .works]

/-- The configuration after that run. -/
def raceEnd : World Unit Call Memory :=
  upgradeLock.endOf (fun _ _ => true) raceRun (crowd upgradeLock)

/-- Two live processes hold the lock; and an acquisition of a contended lock ends with the error of
the look. -/
theorem upgrade_lock_held_twice :
    (Reachable upgradeLock (fun _ _ => True) (crowd upgradeLock) slowEnd ∧
      HoldsLock slowEnd 0 ∧ HoldsLock slowEnd 1) ∧
      Reachable upgradeLock (fun _ _ => True) (crowd upgradeLock) raceEnd ∧
      raceEnd.procs 1 = some (.idle ⟨false, some .missing⟩) := by
  have hslow : (upgradeLock.runIf (fun _ _ => true) slowRun (crowd upgradeLock)).any (fun c =>
      c.rests 0 = some ⟨true, none⟩ ∧ c.rests 1 = some ⟨true, none⟩) = true := by decide +kernel
  have hrace : (upgradeLock.runIf (fun _ _ => true) raceRun (crowd upgradeLock)).any (fun c =>
      c.rests 1 = some ⟨false, some .missing⟩) = true := by decide +kernel
  obtain ⟨hslow, hheld⟩ := reachable_endOf (fun _ _ _ => trivial) .start hslow rfl
  obtain ⟨hfirst, hsecond⟩ := of_decide_eq_true hheld
  obtain ⟨hrace, hfailed⟩ := reachable_endOf (fun _ _ _ => trivial) .start hrace rfl
  exact ⟨⟨hslow, ⟨_, rfl, .inl (Config.procs_of_rests hfirst)⟩,
    ⟨_, rfl, .inl (Config.procs_of_rests hsecond)⟩⟩, hrace,
    Config.procs_of_rests (of_decide_eq_true hfailed)⟩

/-- Process 0 upgrades and releases the lock; process 1 acquires it. -/
def turnsRun : List (Event Call (Choice Unit) Nat) :=
  [.call 0 (.acquire 1), .step 0 (.answers true), .step 0 .works, .step 0 .works,
    .call 1 (.acquire 2), .step 1 (.answers true), .step 1 .works, .step 1 (.answers false),
    .step 1 (.answers false), .call 0 .release, .step 0 .works, .step 0 .works, .step 1 .works,
    .step 1 .works]

/-- Whether an event is orderly. -/
def orderlyCheck (e : Event Call (Choice Unit) Nat) (c : World Unit Call Memory) : Bool :=
  removesCheck e c &&
    match e with
    | .step i x =>
      (match x with
        | .fails | .contended => false
        | _ => true) &&
      match c.procs i with
      | some (.busy _ (.cmd .look _)) => c.store.entry.isSome
      | _ => true
    | _ => true

lemma orderly_of_check {e : Event Call (Choice Unit) Nat} {c : World Unit Call Memory}
    (h : orderlyCheck e c = true) : Orderly e c := by
  obtain ⟨hremoves, hcalm⟩ := Bool.and_eq_true_iff.mp h
  refine ⟨removesAbandoned_of_check hremoves, ?_⟩
  rintro i x k o next rfl hi
  obtain ⟨hworks, hfinds⟩ := Bool.and_eq_true_iff.mp hcalm
  refine ⟨?_, ?_, ?_⟩
  · rintro rfl
    cases hworks
  · rintro rfl
    cases hworks
  · rintro rfl hnone
    simp only [hi, hnone] at hfinds
    cases hfinds

/-- The configuration after that run. -/
def turnsEnd : World Unit Call Memory := upgradeLock.endOf orderlyCheck turnsRun (crowd upgradeLock)

/-- After an upgrade by process 0 only process 1 holds the lock. -/
theorem upgrade_lock_held_in_turn :
    HoldsLock turnsEnd 1 ∧ (∀ i j, HoldsLock turnsEnd i → HoldsLock turnsEnd j → i = j) ∧
      (∀ i k next, turnsEnd.procs i = some (.busy k (.cmd (.remove .own) next)) →
        Possesses i turnsEnd.store) ∧
      ∀ i m, turnsEnd.procs i = some (.idle m) → Expected m.last := by
  have hends : (upgradeLock.runIf orderlyCheck turnsRun (crowd upgradeLock)).any (fun c =>
      c.rests 1 = some ⟨true, none⟩) = true := by decide +kernel
  obtain ⟨hreach, hheld⟩ := reachable_endOf (fun _ _ => orderly_of_check) .start hends rfl
  exact ⟨⟨_, rfl, .inl (Config.procs_of_rests (of_decide_eq_true hheld))⟩,
    upgrade_lock_exclusive turnsEnd hreach⟩

end AgentBell.Upgrade.Lock
