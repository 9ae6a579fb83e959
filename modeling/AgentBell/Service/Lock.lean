import AgentBell.Interleaving.ExclusiveFile

/-!
# The lock of the service

`Run` holds the lock file `service.lock` while it runs.  The file records the process that created
it.  A process that finds a file which is older than the stale time, or whose process is gone,
removes it by its path and creates its own; the release removes the file by its path.
-/

namespace AgentBell.Service.Lock

open Interleaving Interleaving.ExclusiveFile

/-- Why a lock was not acquired. -/
inductive LockError where
  | exist
  | failed (text : String)
  deriving DecidableEq, Repr

/-- A program over the lock file; a file records the number of its process. -/
abbrev LockProg := Prog (Cmd Int) (Reply Int)

/-- The program that issues one command. -/
abbrev perform (c : Cmd Int) : LockProg (Reply Int c) := Prog.issue c

/-- Create the lock file and write the record of the process to it.  The file is synced and closed
also when the record could not be written. -/
def create (process : Nat) : LockProg (Except LockError Unit) := do
  match ← perform (.create process) with
  | .taken => return .error .exist
  | .failed => return .error (.failed "")
  | .made inode =>
    let encoded ← perform (.fill inode (process + 1))
    let synced ← perform .ask
    let closed ← perform .ask
    if encoded && synced && closed then return .ok () else return .error (.failed "")

/-- Remove a lock file that was left behind, and create a new one. -/
def replace (process : Nat) : LockProg (Except LockError Unit) := do
  match ← perform (.remove .condemned) with
  | .removed => create process
  | _ => return .error (.failed "remove stale service lock: ")

/-- Look after the process of a lock file that is not old. -/
def checkOwner (process : Nat) : LockProg (Except LockError Unit) := do
  match ← perform .read with
  | none => return .error (.failed "")
  | some (_, none) => return .error (.failed "decode AgentBell service lock: ")
  | some (inode, some pid) =>
    if pid ≤ 0 then return .error (.failed "AgentBell service lock has an invalid PID")
    else
      match ← perform (.probe inode) with
      | none => return .error (.failed "check AgentBell service lock PID: ")
      | some true => return .error (.failed "another AgentBell service instance is running")
      | some false => replace process

/-- Acquire the lock of the service. -/
def acquireLock (process : Nat) : LockProg (Except LockError Unit) := do
  match ← create process with
  | .ok () => return .ok ()
  | .error (.failed text) => return .error (.failed text)
  | .error .exist =>
    match ← perform .look with
    | .present false => checkOwner process
    | .present true => replace process
    | _ => return .error (.failed "")

/-- Release the lock of the service. -/
def releaseLock : LockProg (Except LockError Unit) := do
  match ← perform (.remove .own) with
  | .removed | .missing => return .ok ()
  | _ => return .error (.failed "")

/-! ## Processes that run the service -/

/-- A call of a process: it acquires the lock, refreshes its time, or releases it. -/
inductive Call where
  | acquire
  | heartbeat
  | release

/-- The program of a call, with whether the process holds the lock.  A heartbeat changes the time of
the file at the path only, and its result is ignored. -/
def body (process : Nat) : Call → Bool → LockProg Bool
  | .acquire, _ => do
    match ← acquireLock process with
    | .ok () => return true
    | .error _ => return false
  | .heartbeat, held => do
    let _ ← perform .ask
    return held
  | .release, _ => do
    let _ ← releaseLock
    return false

/-- Processes that run the service on one queue. -/
def serviceLock : Protocol (Cmd Int) (Reply Int) (Slot Int) (Choice Int) Call Bool Nat where
  machine := machine Int
  may := fun _ k held _ =>
    match k with
    | .acquire => !held
    | .heartbeat | .release => held
  body := body
  fresh := false

section Proofs

variable {i : Nat} {s : Slot Int}

/-- An acquisition that worked. -/
def Acquired : Except LockError Unit → Prop
  | .ok () => True
  | .error _ => False

lemma keeps_create : Keeps i Acquired (create i) s := by
  refine safe_create follows_machine ?_ (fun _ => keeps_return nofun)
    fun _ _ _ _ => keeps_return nofun
  intro inode v hv
  refine safe_keeping follows_machine hv (fun _ => trivial) nofun fun encoded v hv => ?_
  refine safe_keeping follows_machine hv (fun _ => trivial) nofun fun synced v hv => ?_
  refine safe_keeping follows_machine hv (fun _ => trivial) nofun fun closed v hv => ?_
  show Keeps i Acquired (if encoded && synced && closed then _ else _) v
  split
  · exact keeps_return fun _ => hv
  · exact keeps_return nofun

lemma keeps_replace : Keeps i Acquired (replace i) s := by
  refine safe_step (fun _ => trivial) fun _ outcome _ v _ => ?_
  cases outcome with
  | removed => exact keeps_create
  | missing | contended | failed => exact keeps_return nofun

lemma keeps_checkOwner : Keeps i Acquired (checkOwner i) s := by
  refine safe_step (fun _ => trivial) fun _ found _ v _ => ?_
  rcases found with _ | ⟨inode, _ | pid⟩
  · exact keeps_return nofun
  · exact keeps_return nofun
  show Keeps i Acquired (if pid ≤ 0 then _ else _) v
  split
  · exact keeps_return nofun
  refine safe_step (fun _ => trivial) fun _ answer _ v _ => ?_
  rcases answer with _ | _ | _
  · exact keeps_return nofun
  · exact keeps_replace
  · exact keeps_return nofun

lemma keeps_acquireLock : Keeps i Acquired (acquireLock i) s := by
  refine Behaves.bind keeps_create ?_
  rintro (err | ⟨⟩) t h
  · cases err with
    | failed text => exact keeps_return nofun
    | exist =>
      refine safe_step (fun _ => trivial) fun _ sight _ v _ => ?_
      cases sight with
      | missing | contended | failed => exact keeps_return nofun
      | present stale =>
        cases stale with
        | false => exact keeps_checkOwner
        | true => exact keeps_replace
  · exact keeps_return h

/-- Every call keeps the contract of its process. -/
lemma keeps_body {k : Call} {held : Bool} (h : held = true → Possesses i s)
    (hmay : serviceLock.may i k held s = true) :
    Keeps i (fun held => held = true) (body i k held) s := by
  cases k with
  | acquire =>
    refine Behaves.bind keeps_acquireLock ?_
    rintro (err | ⟨⟩) t h
    · exact keeps_return nofun
    · exact keeps_return fun _ => h trivial
  | heartbeat =>
    refine safe_keeping follows_machine (h hmay) (fun _ => trivial) nofun fun _ v hv => ?_
    exact keeps_return fun _ => hv
  | release =>
    have hrelease : Keeps i (fun _ => False) releaseLock s := by
      refine safe_removeOwn (h hmay) fun outcome v => ?_
      cases outcome <;> exact keeps_return nofun
    exact Behaves.bind hrelease fun _ _ _ => keeps_return nofun

end Proofs

/-! ## One running service -/

/-- A process is between a successful acquisition and the end of its release: it rests, it is about
to return from a call that leaves it with the lock, or it is in a heartbeat or a release. -/
def HoldsLock (c : World Int Call Bool) (i : Nat) : Prop :=
  c.procs i = some (.idle true) ∨
    ∃ k, c.procs i = some (.busy k (.ret true)) ∨
      k ≠ .acquire ∧ c.procs i = some (.busy k (body i k true))

/-- A process that holds the lock has the file. -/
lemma possesses_of_holdsLock {c : World Int Call Bool} {i : Nat}
    (h : c.Sound (machine Int) (contract (fun held => held = true) fun _ => True))
    (hi : HoldsLock c i) : Possesses i c.store := by
  rcases hi with hidle | ⟨k, hreturns | ⟨hk, hbusy⟩⟩
  · exact (h i _ hidle).2 rfl
  · exact (h.returns (fun i => contract_lawful _ _ i) hreturns).2 rfl
  · cases k with
    | acquire => exact absurd rfl hk
    | heartbeat =>
      -- the refresh leaves the file in place, and the process holds the lock after it
      have hask := (Safe.issues (h i _ hbusy) (Spares.refl i _)).2 (.answers true) true
        c.store rfl
      exact (Safe.returns hask (Spares.refl i _)).2 rfl
    | release => exact h.pre (fun i => contract_lawful _ _ i) hbusy

/-- In every run in which a process that removes a lock file left behind finds the file of a process
that is gone, at most one process holds the lock, and a release takes away the file of its own
process. -/
theorem service_lock_exclusive (c : World Int Call Bool)
    (h : Reachable serviceLock RemovesAbandoned (crowd serviceLock) c) :
    (∀ i j, HoldsLock c i → HoldsLock c j → i = j) ∧
      (∀ i next, c.procs i = some (.busy .release (.cmd (.remove .own) next)) →
        Possesses i c.store) ∧
      ∀ e c' entry, RemovesAbandoned e c → serviceLock.next e c = some c' →
        c.store.entry = some entry → c.procs entry.owner ≠ none →
        ¬ Possesses entry.owner c'.store → ∃ x, e = .step entry.owner x := by
  have hsound : c.Sound (machine Int) (contract (fun held => held = true) fun _ => True) := by
    refine sound_of_reachable follows_machine ?_ trivial nofun h
    intro i k held s hidle hmay
    exact (keeps_body hidle.2 hmay).weaken (fun _ _ => id) fun _ _ hholds => ⟨trivial, hholds⟩
  refine ⟨?_, ?_, fun e c' entry => taken_by_owner follows_machine hsound⟩
  · intro i j hi hj
    exact (possesses_of_holdsLock hsound hi).unique (possesses_of_holdsLock hsound hj)
  · exact fun i next hi => hsound.pre (fun i => contract_lawful _ _ i) hi

/-- A process creates the lock file and completes it. -/
def creates (i : Nat) : List (Event Call (Choice Int) Nat) :=
  [.step i .works, .step i .works, .step i (.answers true), .step i (.answers true), .step i .works]

/-- A process finds the lock file of a crashed process too old. -/
def judges (i : Nat) : List (Event Call (Choice Int) Nat) :=
  [.call i .acquire, .step i .works, .step i (.answers true)]

/-- Process 0 crashes with the lock; 1 and 2 find its file too old; 2 takes over; 1 removes the file
of 2 and takes over too. -/
def twiceRun : List (Event Call (Choice Int) Nat) :=
  [.call 0 .acquire] ++ creates 0 ++ [.kill 0] ++ judges 1 ++ judges 2 ++ [.step 2 .works] ++
    creates 2 ++ [.step 1 .works] ++ creates 1

/-- The configuration after that run. -/
def twiceEnd : World Int Call Bool := serviceLock.endOf judgesCheck twiceRun (crowd serviceLock)

lemma holdsLock_of_rests {c : World Int Call Bool} {i : Nat} (h : c.rests i = some true) :
    HoldsLock c i := .inl (Config.procs_of_rests h)

/-- Two live processes run the service, and the file that the release of one of them will remove is
that of the other. -/
theorem service_lock_held_twice : Reachable serviceLock JudgesRightly (crowd serviceLock) twiceEnd ∧
      HoldsLock twiceEnd 1 ∧ HoldsLock twiceEnd 2 ∧ ¬ Possesses 2 twiceEnd.store := by
  have hends : (serviceLock.runIf judgesCheck twiceRun (crowd serviceLock)).any (fun c =>
      c.rests 1 = some true ∧ c.rests 2 = some true ∧ c.store.entry.map Entry.owner = some 1) =
        true := by decide +kernel
  obtain ⟨hreach, hgood⟩ := reachable_endOf (fun _ _ => judgesRightly_of_check) .start hends rfl
  obtain ⟨hfirst, hsecond, hfile⟩ := of_decide_eq_true hgood
  refine ⟨hreach, holdsLock_of_rests hfirst, holdsLock_of_rests hsecond, ?_⟩
  rintro ⟨entry, hentry, howner⟩
  have howned : twiceEnd.store.entry.map Entry.owner = some 1 := hfile
  rw [hentry, Option.map_some, howner] at howned
  cases howned

/-- Process 0 crashes with the lock, and process 1 takes over. -/
def onceRun : List (Event Call (Choice Int) Nat) :=
  [.call 0 .acquire] ++ creates 0 ++ [.kill 0] ++ judges 1 ++ [.step 1 .works] ++ creates 1

/-- The configuration after that run. -/
def onceEnd : World Int Call Bool := serviceLock.endOf removesCheck onceRun (crowd serviceLock)

/-- After a takeover only the new owner holds the lock. -/
theorem service_lock_held_once :
    HoldsLock onceEnd 1 ∧ (∀ i j, HoldsLock onceEnd i → HoldsLock onceEnd j → i = j) ∧
      (∀ i next, onceEnd.procs i = some (.busy .release (.cmd (.remove .own) next)) →
        Possesses i onceEnd.store) ∧
      ∀ e c' entry, RemovesAbandoned e onceEnd → serviceLock.next e onceEnd = some c' →
        onceEnd.store.entry = some entry → onceEnd.procs entry.owner ≠ none →
        ¬ Possesses entry.owner c'.store → ∃ x, e = .step entry.owner x := by
  have hends : (serviceLock.runIf removesCheck onceRun (crowd serviceLock)).any
      (fun c => c.rests 1 = some true) = true := by decide +kernel
  obtain ⟨hreach, hheld⟩ := reachable_endOf (fun _ _ => removesAbandoned_of_check) .start hends rfl
  exact ⟨holdsLock_of_rests (of_decide_eq_true hheld), service_lock_exclusive onceEnd hreach⟩

end AgentBell.Service.Lock
