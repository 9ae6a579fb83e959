import AgentBell.Interleaving.ExclusiveFile

/-!
# The token lock

The lock of the relay storage, of the binding store, of the remote sidecar and of the channel
configuration.  A process creates the lock file, writes a random token to it and holds the lock; to
release it, it reads the file and removes it when it finds its token.  A process that finds a file
older than the stale time removes it by its path.

The four packages have the same algorithm, which differs in which failures are retried at once, in
the use of a context and in the texts of the errors (`LockStyle`).  The clock, the context and the
failures of single steps are answers from outside.  The loop that waits gets a budget of rounds; as
the budget is an argument of the call, a run of any length is covered by a large enough one.
-/

namespace AgentBell.Locks

open Interleaving Interleaving.ExclusiveFile

/-- What the four versions of the lock differ in. -/
structure LockStyle where
  /-- The permissions of a new lock file are set. -/
  permissions : Bool
  /-- The context is looked at before each attempt. -/
  headContext : Bool
  /-- The context is looked at before the deadline. -/
  deadlineContext : Bool
  /-- The context is looked at while waiting. -/
  waitContext : Bool
  /-- Old lock files are looked for. -/
  looksForStale : Bool
  /-- A lock file that is gone at the look is retried at once. -/
  retriesMissing : Bool
  /-- A removed lock file is retried at once. -/
  retriesRemoved : Bool
  /-- The text of the timeout. -/
  timedOut : String
  /-- The texts in front of the failures of the creation, the look and the removal. -/
  acquireText : String
  inspectText : String
  removeText : String

/-- Why a lock was not acquired: a failed step, the deadline, the context, or the end of the
budget. -/
inductive LockError where
  | failed (text : String)
  | timedOut (text : String)
  | cancelled
  | running
  deriving DecidableEq, Repr

/-- A program over the lock file. -/
abbrev LockProg := Prog (Cmd String) (Reply String)

/-- The program that issues one command. -/
abbrev perform (c : Cmd String) : LockProg (Reply String c) := Prog.issue c

/-- Remove a lock file that could not be written. -/
def abandon : LockProg (Except LockError Unit) := do
  let _ ← perform (.remove .own)
  return .error (.failed "")

/-- Write the token to a new lock file, sync it and close it. -/
def writeToken (inode : Nat) (token : String) : LockProg (Except LockError Unit) := do
  if ← perform (.fill inode token) then
    if ← perform .ask then
      if ← perform .ask then return .ok () else abandon
    else abandon
  else abandon

/-- Complete a lock file that was just created. -/
def publish (style : LockStyle) (inode : Nat) (token : String) :
    LockProg (Except LockError Unit) := do
  if style.permissions then
    if ← perform .ask then writeToken inode token else abandon
  else writeToken inode token

/-- Whether the context has ended, where it is looked at. -/
def ended (looks : Bool) : LockProg Bool :=
  if looks then perform .ask else return false

/-- Wait before the next attempt: until the poll interval has passed, the deadline or the end of the
context. -/
def wait (style : LockStyle) (retry : LockProg (Except LockError Unit)) :
    LockProg (Except LockError Unit) := do
  if ← ended style.deadlineContext then return .error .cancelled
  else if ← perform .ask then return .error (.timedOut style.timedOut)
  else if ← ended style.waitContext then return .error .cancelled
  else retry

/-- Look at a lock file that is in the way. -/
def inspect (style : LockStyle) (retry : LockProg (Except LockError Unit)) :
    LockProg (Except LockError Unit) := do
  match ← perform .look with
  | .missing => if style.retriesMissing then retry else wait style retry
  | .contended => wait style retry
  | .failed => return .error (.failed style.inspectText)
  | .present false => wait style retry
  | .present true =>
    match ← perform (.remove .condemned) with
    | .removed | .missing => if style.retriesRemoved then retry else wait style retry
    | .contended => wait style retry
    | .failed => return .error (.failed style.removeText)

/-- The attempts of a process to acquire the lock. -/
def attempts (style : LockStyle) (process : Nat) (token : String) :
    Nat → LockProg (Except LockError Unit)
  | 0 => return .error .running
  | fuel + 1 => do
    if ← ended style.headContext then return .error .cancelled
    else
      match ← perform (.create process) with
      | .made inode => publish style inode token
      | .failed => return .error (.failed style.acquireText)
      | .taken =>
        if style.looksForStale then inspect style (attempts style process token fuel)
        else wait style (attempts style process token fuel)

/-- Acquire the lock: the token, or why it was not acquired. -/
def acquire (style : LockStyle) (process fuel : Nat) : LockProg (Except LockError String) := do
  if ← perform .ask then
    let token ← perform .draw
    match ← attempts style process token fuel with
    | .ok () => return .ok token
    | .error err => return .error err
  else return .error (.failed "")

/-- Release the lock. -/
def release (token : String) : LockProg Unit := do
  match ← perform .read with
  | none => return ()
  | some (_, content) =>
    if content = some token then
      let _ ← perform (.remove .own)
      return ()
    else return ()

/-! ## The four packages -/

/-- The lock of the relay storage. -/
def storageStyle : LockStyle where
  permissions := true
  headContext := false
  deadlineContext := false
  waitContext := false
  looksForStale := true
  retriesMissing := true
  retriesRemoved := false
  timedOut := "timed out waiting for relay storage lock"
  acquireText := ""
  inspectText := ""
  removeText := ""

/-- The lock of the binding store; without a stale time it waits for a file to go away. -/
def bindingStyle : LockStyle where
  permissions := true
  headContext := false
  deadlineContext := false
  waitContext := false
  looksForStale := true
  retriesMissing := true
  retriesRemoved := true
  timedOut := "timed out waiting for binding lock"
  acquireText := "acquire binding lock: "
  inspectText := "inspect binding lock: "
  removeText := "remove stale binding lock: "

/-- The lock of the remote sidecar. -/
def sidecarStyle : LockStyle where
  permissions := true
  headContext := true
  deadlineContext := false
  waitContext := true
  looksForStale := true
  retriesMissing := false
  retriesRemoved := true
  timedOut := "timed out waiting for relay config lock"
  acquireText := ""
  inspectText := ""
  removeText := ""

/-- The lock of the channel configuration; it looks for old lock files when it has a stale time. -/
def channelStyle (stale : Bool) : LockStyle where
  permissions := false
  headContext := false
  deadlineContext := true
  waitContext := true
  looksForStale := stale
  retriesMissing := true
  retriesRemoved := true
  timedOut := "timed out waiting for config lock"
  acquireText := "acquire config lock: "
  inspectText := "inspect config lock: "
  removeText := "remove stale config lock: "

/-- Acquire the lock of the relay storage. -/
def acquireStorageLock := acquire storageStyle

/-- Acquire the lock of the binding store. -/
def acquireBindingLock := acquire bindingStyle

/-- Acquire the lock of the remote sidecar. -/
def acquireSidecarLock := acquire sidecarStyle

/-- Acquire the lock of the channel configuration. -/
def acquireChannelLock (stale : Bool) := acquire (channelStyle stale)

/-! ## Processes that use the lock -/

/-- A call of a process: it acquires the lock or releases it. -/
inductive Call where
  | acquire (fuel : Nat)
  | release

/-- What a process remembers: the token of the lock it holds. -/
structure Memory where
  held : Option String := none

/-- A process releases the lock it holds. -/
def releaseHeld : Option String → LockProg Memory
  | none => return {}
  | some token => do
    release token
    return {}

/-- The program of a call. -/
def body (style : LockStyle) (process : Nat) : Call → Memory → LockProg Memory
  | .acquire fuel, _ => do
    match ← acquire style process fuel with
    | .ok token => return ⟨some token⟩
    | .error _ => return {}
  | .release, m => releaseHeld m.held

/-- Processes that use one lock: a process that does not hold it may acquire it, one that holds it
may release it. -/
def tokenLock (style : LockStyle) :
    Protocol (Cmd String) (Reply String) (Slot String) (Choice String) Call Memory Nat where
  machine := machine String
  may := fun _ k m _ =>
    match k with
    | .acquire _ => m.held.isNone
    | .release => m.held.isSome
  body := body style
  fresh := {}

/-- A process holds the lock. -/
def Memory.Holds (m : Memory) : Prop := m.held.isSome

section Proofs

variable {style : LockStyle} {i inode : Nat} {s : Slot String} {token : String} {α : Type}
  {holds : α → Prop} {next : Bool → LockProg α} {retry : LockProg (Except LockError Unit)}

/-- An acquisition that worked. -/
def Acquired {α : Type} : Except LockError α → Prop
  | .ok _ => True
  | .error _ => False

lemma keeps_abandon (h : Possesses i s) : Keeps i Acquired abandon s :=
  safe_removeOwn h fun _ _ => keeps_return nofun

/-- A step after which the process either goes on with its file or gives it up. -/
lemma keeps_test {c : Cmd String} {next : Reply String c → LockProg (Except LockError Unit)}
    (h : Possesses i s) (hc : ∀ t : Slot String, Permits i c t)
    (hkeeps : ∀ reason, c ≠ .remove reason)
    (hnext : ∀ r v, Possesses i v → Keeps i Acquired (next r) v) :
    Keeps i Acquired (.cmd c next) s :=
  safe_keeping follows_machine h hc hkeeps hnext

lemma keeps_writeToken (h : Possesses i s) : Keeps i Acquired (writeToken inode token) s := by
  refine keeps_test h (fun _ => trivial) nofun fun written v hv => ?_
  cases written with
  | false => exact keeps_abandon hv
  | true =>
    refine keeps_test hv (fun _ => trivial) nofun fun synced v hv => ?_
    cases synced with
    | false => exact keeps_abandon hv
    | true =>
      refine keeps_test hv (fun _ => trivial) nofun fun closed v hv => ?_
      cases closed with
      | false => exact keeps_abandon hv
      | true => exact keeps_return fun _ => hv

lemma keeps_publish (h : Possesses i s) : Keeps i Acquired (publish style inode token) s := by
  unfold publish
  split
  · refine keeps_test h (fun _ => trivial) nofun fun set v hv => ?_
    cases set with
    | false => exact keeps_abandon hv
    | true => exact keeps_writeToken hv
  · exact keeps_writeToken h

/-- A question to the outside. -/
lemma keeps_ask (h : ∀ answer v, Keeps i holds (next answer) v) :
    Keeps i holds (.cmd .ask next) s :=
  safe_step (fun _ => trivial) fun _ r _ v _ => h r v

lemma keeps_ended {looks : Bool} (h : ∀ answer v, Keeps i holds (next answer) v) :
    Keeps i holds ((ended looks).bind next) s := by
  unfold ended
  split
  · exact keeps_ask h
  · exact h false s

lemma keeps_wait (hretry : ∀ v, Keeps i Acquired retry v) :
    Keeps i Acquired (wait style retry) s := by
  refine keeps_ended fun cancelled v => ?_
  cases cancelled with
  | true => exact keeps_return nofun
  | false =>
    refine keeps_ask fun late v => ?_
    cases late with
    | true => exact keeps_return nofun
    | false =>
      refine keeps_ended fun cancelled v => ?_
      cases cancelled with
      | true => exact keeps_return nofun
      | false => exact hretry v

lemma keeps_inspect (hretry : ∀ v, Keeps i Acquired retry v) :
    Keeps i Acquired (inspect style retry) s := by
  have hagain : ∀ (condition : Bool) v,
      Keeps i Acquired (if condition then retry else wait style retry) v := by
    intro condition v
    split
    · exact hretry v
    · exact keeps_wait hretry
  refine safe_step (fun _ => trivial) fun _ sight _ v _ => ?_
  cases sight with
  | missing => exact hagain _ v
  | contended => exact keeps_wait hretry
  | failed => exact keeps_return nofun
  | present stale =>
    cases stale with
    | false => exact keeps_wait hretry
    | true =>
      refine safe_step (fun _ => trivial) fun _ outcome _ v _ => ?_
      cases outcome with
      | removed | missing => exact hagain _ v
      | contended => exact keeps_wait hretry
      | failed => exact keeps_return nofun

/-- The attempts give the file to the process when they succeed. -/
lemma keeps_attempts (fuel : Nat) : Keeps i Acquired (attempts style i token fuel) s := by
  induction fuel generalizing s with
  | zero => exact keeps_return nofun
  | succ fuel ih =>
    refine keeps_ended fun cancelled v => ?_
    split
    · exact keeps_return nofun
    refine safe_create follows_machine (fun inode v hv => keeps_publish hv) ?_
      fun _ _ _ _ => keeps_return nofun
    intro v
    split
    · exact keeps_inspect fun _ => ih
    · exact keeps_wait fun _ => ih

lemma keeps_release (h : Possesses i s) : Keeps i (fun _ => False) (release token) s := by
  refine safe_keeping follows_machine h (fun _ => trivial) nofun fun found v hv => ?_
  cases found with
  | none => exact keeps_return nofun
  | some file =>
    show Keeps i (fun _ => False) (if file.2 = some token then _ else _) v
    split
    · exact safe_removeOwn hv fun _ _ => keeps_return nofun
    · exact keeps_return nofun

lemma keeps_releaseHeld {held : Option String} (h : held.isSome → Possesses i s) :
    Keeps i Memory.Holds (releaseHeld held) s := by
  cases held with
  | none => exact keeps_return nofun
  | some token =>
    refine Behaves.bind (keeps_release (h rfl)) ?_
    exact fun _ _ _ => keeps_return nofun

/-- Every call keeps the contract of its process. -/
lemma keeps_body {k : Call} {m : Memory} (h : m.Holds → Possesses i s)
    (hmay : (tokenLock style).may i k m s = true) : Keeps i Memory.Holds (body style i k m) s := by
  cases k with
  | acquire fuel =>
    have hacquire : Keeps i Acquired (acquire style i fuel) s := by
      refine keeps_ask fun random v => ?_
      cases random with
      | false => exact keeps_return nofun
      | true =>
        refine safe_step (fun _ => trivial) fun _ token _ v _ => ?_
        show Keeps i Acquired ((attempts style i token fuel).bind _) v
        refine Behaves.bind (keeps_attempts fuel) ?_
        rintro (err | ⟨⟩) t h
        · exact keeps_return nofun
        · exact keeps_return fun _ => h trivial
    refine Behaves.bind hacquire ?_
    rintro (err | token) t h
    · exact keeps_return nofun
    · exact keeps_return fun _ => h trivial
  | release =>
    exact keeps_releaseHeld h

end Proofs

/-! ## Exclusion -/

/-- A process that is done with its last call and holds the lock. -/
def HoldsLock (c : World String Call Memory) (i : Nat) : Prop :=
  ∃ m, c.procs i = some (.idle m) ∧ m.Holds

/-- In every run in which a process that removes an old lock file finds the file of a process that
is gone, at most one process holds the lock, and the file of a live process is taken away by that
process only. -/
theorem token_lock_exclusive (style : LockStyle) (c : World String Call Memory)
    (h : Reachable (tokenLock style) RemovesAbandoned (crowd (tokenLock style)) c) :
    (∀ i j, HoldsLock c i → HoldsLock c j → i = j) ∧
      ∀ e c' entry, RemovesAbandoned e c → (tokenLock style).next e c = some c' →
        c.store.entry = some entry → c.procs entry.owner ≠ none →
        ¬ Possesses entry.owner c'.store → ∃ x, e = .step entry.owner x := by
  have hsound : c.Sound (machine String) (contract Memory.Holds fun _ => True) := by
    refine sound_of_reachable follows_machine ?_ trivial nofun h
    intro i k m s hidle hmay
    exact (keeps_body hidle.2 hmay).weaken (fun _ _ => id) fun _ _ hholds => ⟨trivial, hholds⟩
  refine ⟨?_, fun e c' entry => taken_by_owner follows_machine hsound⟩
  rintro i j ⟨m, hi, hm⟩ ⟨m', hj, hm'⟩
  exact ((hsound i _ hi).2 hm).unique ((hsound j _ hj).2 hm')

/-- A process acquires the free lock of the relay storage. -/
def acquires (i : Nat) (token : String) : List (Event Call (Choice String) Nat) :=
  [.call i (.acquire 2), .step i (.answers true), .step i (.value token)] ++ creates i
where
  /-- The process creates the file and completes it. -/
  creates (i : Nat) : List (Event Call (Choice String) Nat) :=
    [.step i .works, .step i (.answers true), .step i .works, .step i (.answers true),
      .step i (.answers true), .step i .works]

/-- A process finds the file of a crashed process too old. -/
def judges (i : Nat) (token : String) : List (Event Call (Choice String) Nat) :=
  [.call i (.acquire 2), .step i (.answers true), .step i (.value token), .step i .works,
    .step i (.answers true)]

/-- A process removes the file at the path and tries again. -/
def takesOver (i : Nat) : List (Event Call (Choice String) Nat) :=
  [.step i .works, .step i (.answers false)] ++ acquires.creates i

/-- Process 0 crashes with the lock; 1 and 2 find its file too old; 2 takes over; 1 removes the file
of 2 and takes over too. -/
def twiceRun : List (Event Call (Choice String) Nat) :=
  acquires 0 "a" ++ [.kill 0] ++ judges 1 "b" ++ judges 2 "c" ++ takesOver 2 ++ takesOver 1

/-- The configuration after that run. -/
def twiceEnd : World String Call Memory :=
  (tokenLock storageStyle).endOf judgesCheck twiceRun (crowd (tokenLock storageStyle))

/-- Whether a resting process holds the lock. -/
def restsHolding (c : World String Call Memory) (i : Nat) : Bool :=
  (c.rests i).any fun m => m.held.isSome

lemma holdsLock_of_rests {c : World String Call Memory} {i : Nat} (h : restsHolding c i = true) :
    HoldsLock c i := by
  obtain ⟨m, hm, hheld⟩ := (Option.any_eq_true _ _).mp h
  exact ⟨m, Config.procs_of_rests hm, hheld⟩

/-- Two live processes hold the lock of the relay storage. -/
theorem token_lock_held_twice :
    Reachable (tokenLock storageStyle) JudgesRightly (crowd (tokenLock storageStyle)) twiceEnd ∧
      HoldsLock twiceEnd 1 ∧ HoldsLock twiceEnd 2 := by
  have hends : ((tokenLock storageStyle).runIf judgesCheck twiceRun
      (crowd (tokenLock storageStyle))).any (fun c => restsHolding c 1 && restsHolding c 2) =
        true := by decide +kernel
  obtain ⟨hreach, hheld⟩ := reachable_endOf (fun _ _ => judgesRightly_of_check) .start hends
    (rfl : twiceEnd = _)
  obtain ⟨hfirst, hsecond⟩ := Bool.and_eq_true_iff.mp hheld
  exact ⟨hreach, holdsLock_of_rests hfirst, holdsLock_of_rests hsecond⟩

/-- Process 0 crashes with the lock, and process 1 takes over. -/
def onceRun : List (Event Call (Choice String) Nat) :=
  acquires 0 "a" ++ [.kill 0] ++ judges 1 "b" ++ takesOver 1

/-- The configuration after that run. -/
def onceEnd : World String Call Memory :=
  (tokenLock storageStyle).endOf removesCheck onceRun (crowd (tokenLock storageStyle))

/-- After a takeover only the new owner holds the lock. -/
theorem token_lock_held_once :
    HoldsLock onceEnd 1 ∧ (∀ i j, HoldsLock onceEnd i → HoldsLock onceEnd j → i = j) ∧
      ∀ e c' entry, RemovesAbandoned e onceEnd → (tokenLock storageStyle).next e onceEnd = some c' →
        onceEnd.store.entry = some entry → onceEnd.procs entry.owner ≠ none →
        ¬ Possesses entry.owner c'.store → ∃ x, e = .step entry.owner x := by
  have hends : ((tokenLock storageStyle).runIf removesCheck onceRun
      (crowd (tokenLock storageStyle))).any (restsHolding · 1) = true := by decide +kernel
  obtain ⟨hreach, hheld⟩ := reachable_endOf (fun _ _ => removesAbandoned_of_check) .start hends
    (rfl : onceEnd = _)
  exact ⟨holdsLock_of_rests hheld, token_lock_exclusive storageStyle onceEnd hreach⟩

end AgentBell.Locks
