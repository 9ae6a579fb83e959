import Mathlib.Data.List.Sort
import AgentBell.Interleaving.Routine
import AgentBell.Queue.Store

/-!
# The queue operations

Each operation of the Go `Queue` type, written over the file-system commands in the order in
which the code issues them.  The mutex of a `Queue` makes the operations of one process run
one after the other, so an operation is one routine.

A command may fail, and the operation then does what the code does.  An operation that holds an
item keeps it in its local variable, as the Go code keeps it behind a pointer: it is changed once
the step that stores the change has worked.  Where the subject is not a failing disk but a killed
process or a second one, an operation is run as the program whose commands all work.

The loop of `Enqueue` that waits for another reservation has no bound in the code; here it
gets a budget of rounds, and a program that uses up its budget stops without an answer.  As
the budget is an argument of the call, a run of any length is covered by a large enough one.
-/

namespace AgentBell.Queue

open Interleaving

open Routine (raise raiseIf lift locals assign catching)

/-- An error of an operation: the two the code tells apart, and all others by their text. -/
inductive OsError where
  | exist
  | notExist
  | other (text : String)
  deriving DecidableEq, Repr

/-- The text of an error. -/
def OsError.message : OsError → String
  | .exist => "file already exists"
  | .notExist => "file does not exist"
  | .other text => text

/-- A routine over the commands of the queue directory. -/
abbrev QueueRoutine (ℓ α : Type) := Interleaving.Routine Cmd Reply ℓ OsError α

variable {ℓ : Type}

/-- Issue one command. -/
abbrev step (c : Cmd) : QueueRoutine ℓ (Reply c) := Routine.perform c

/-- Go on with the result of a check, or fail with its message. -/
def check {α : Type} (result : Except String α) : QueueRoutine ℓ α :=
  lift (result.mapError OsError.other)

lemma mapError_eq_ok {ε ε' α : Type} {f : ε → ε'} {x : Except ε α} {a : α} :
    x.mapError f = .ok a ↔ x = .ok a := by
  cases x <;> simp [Except.mapError]

/-- Give a failure a text in front. -/
def wrapping {α : Type} (text : String) (p : QueueRoutine ℓ α) : QueueRoutine ℓ α :=
  catching p fun err => raise (.other (text ++ ": " ++ err.message))

/-- The name of an item directory. -/
def directoryName : Directory → String
  | .pending => "pending"
  | .inflight => "inflight"
  | .history => "history"
  | .dead => "dead"

/-! ## Writing item files -/

/-- Write an envelope to a path, by a rename from `tmp`. -/
def write (path : ItemPath) (envelope : Envelope) : QueueRoutine ℓ Unit := do
  raiseIf (envelope.encodable = false)
    (.other "Time.MarshalJSON: year outside of range [0,9999]")
  step (.write path envelope)

/-- Write an envelope to a directory that has no file of that name. -/
def writeNew (directory : Directory) (fileName : FileName) (envelope : Envelope) :
    QueueRoutine ℓ Unit := do
  let present ← step (.stat (directory, fileName))
  raiseIf (present = true) .exist
  write (directory, fileName) envelope

/-- Overwrite the file of an envelope that is there. -/
def replace (directory : Directory) (fileName : FileName) (envelope : Envelope) :
    QueueRoutine ℓ Unit := do
  let present ← wrapping "replace queue item" (step (.stat (directory, fileName)))
  raiseIf (present = false) (.other "replace queue item: file does not exist")
  write (directory, fileName) envelope

/-- Write an envelope to its next directory and remove it from the one it comes from.  It
is the body of both `transition` and `transitionEnvelope`. -/
def transitionEnvelope (source destination : Directory) (fileName : FileName)
    (envelope : Envelope) : QueueRoutine ℓ Unit := do
  writeNew destination fileName envelope
  wrapping ("remove queue source " ++ directoryName source)
    (step (.remove (source, fileName)))

/-! ## Listing a directory -/

/-- Read the files of a directory one by one, moving unreadable ones aside. -/
def readItems (directory : Directory) : List FileName → QueueRoutine ℓ (List Item)
  | [] => pure []
  | fileName :: rest => do
    match ← step (.readFile (directory, fileName)) with
    | none => raise .notExist
    | some envelope =>
      if envelope.listable then do
        let items ← readItems directory rest
        pure (⟨envelope, fileName⟩ :: items)
      else do
        let moved ← wrapping "quarantine corrupt queue item"
          (step (.quarantine (directory, fileName)))
        raiseIf (moved = false)
          (.other "quarantine corrupt queue item: file does not exist")
        readItems directory rest

/-- The items of a directory, oldest first. -/
def listUnlocked (directory : Directory) : QueueRoutine ℓ (List Item) := do
  let fileNames ← step (.readDir directory)
  let items ← readItems directory fileNames
  pure (items.insertionSort fun a b => a.envelope.createdAt ≤ b.envelope.createdAt)

/-! ## Enqueue -/

/-- How a look at an existing idempotency marker ends. -/
inductive Reservation where
  | durable (id : String)
  | retry
  | failed (message : String)
  | running

/-- Whether some item directory holds a file of this id. -/
def itemExists (id : String) : QueueProg Bool := do
  if ← perform (.globItem .pending id) then return true
  else if ← perform (.globItem .inflight id) then return true
  else if ← perform (.globItem .history id) then return true
  else perform (.globItem .dead id)

/-- Whether the item named in a marker exists; a marker that is still empty names none. -/
def reservedItemExists (id : String) : QueueProg Bool :=
  if id ≠ "" then itemExists id else return false

/-- Wait until the item of an existing marker is there; a marker without an item is dropped
once it is older than a second. -/
def waitForDurableReservation (key : String) : Nat → QueueProg Reservation
  | 0 => return .running
  | fuel + 1 => do
    match ← perform (.readKey key) with
    | none => return .retry
    | some content =>
      let id := content.getD ""
      if ← reservedItemExists id then return .durable id
      else if ← perform .deadlinePassed then
        match ← perform (.keyStale key) with
        | none => return .retry
        | some true =>
          perform (.removeKey key)
          return .retry
        | some false => return .failed "idempotency reservation is not durable yet"
      else
        waitForDurableReservation key fuel

/-- The envelope of a new item. -/
def newEnvelope (id : String) (notification : Notification) (now : Time) : Envelope :=
  { queueVersion := queueVersion
    id := id
    state := .pending
    event := notification
    createdAt := now
    updatedAt := now }

/-- Reserve the idempotency marker and write the item, or find the item of the marker. -/
def reserve (key id : String) (notification : Notification) (now : Time) :
    Nat → QueueProg (Option Answer)
  | 0 => return none
  | fuel + 1 => do
    match ← perform (.createKey key) with
    | none =>
      match ← waitForDurableReservation key fuel with
      | .retry => reserve key id notification now fuel
      | .failed message => return some (.error message)
      | .durable existingID => return some (.ok (existingID, true))
      | .running => return none
    | some inode =>
      perform (.writeKey key inode id)
      match ← (writeNew .pending ⟨now, id⟩ (newEnvelope id notification now)).working () with
      | (.error err, _) =>
        perform (.removeKey key)
        return some (.error err.message)
      | (.ok (), _) => return some (.ok (id, false))

/-- Store a notification once for its idempotency key. -/
def enqueue (sha256 : String → String) (fuel : Nat) (notification : Notification)
    (now : Time) : QueueProg (Option Answer) :=
  match notification.validate with
  | .error message => return some (.error message)
  | .ok () => do
    let id ← perform .randomID
    reserve (sha256 notification.idempotencyKey ++ ".key") id notification now fuel

/-! ## Claim, Ack and Nack -/

/-- The envelope of a claimed item. -/
def claimedEnvelope (now : Time) (lease : Duration) (envelope : Envelope) : Envelope :=
  { envelope with state := .inflight, updatedAt := now, leaseUntil := now + lease }

/-- Whether a file was written; another one in its place is no failure. -/
def writeUnlessExists (directory : Directory) (fileName : FileName) (envelope : Envelope) :
    QueueRoutine ℓ Bool :=
  catching
    (do
      writeNew directory fileName envelope
      pure true)
    fun err => if err = .exist then pure false else raise err

/-- Claim the first item that is due. -/
def claimFirst (now : Time) (lease : Duration) : List Item → QueueRoutine ℓ (Option Item)
  | [] => pure none
  | item :: rest =>
    if ¬ item.envelope.nextAttemptAt.isZero ∧ now < item.envelope.nextAttemptAt then
      claimFirst now lease rest
    else do
      let claimed : Item := { item with envelope := claimedEnvelope now lease item.envelope }
      if ← writeUnlessExists .inflight item.fileName claimed.envelope then do
        wrapping "finish queue claim" (step (.remove (.pending, item.fileName)))
        pure (some claimed)
      else do
        -- the result of this removal is ignored
        catching (step (.remove (.pending, item.fileName))) fun _ => pure ()
        claimFirst now lease rest

/-- Move the first due item from `pending` to `inflight`. -/
def claim (now : Time) (lease : Duration) : QueueRoutine ℓ (Option Item) := do
  let items ← listUnlocked .pending
  claimFirst now lease items

/-- The checks on the item an operation is given. -/
def validateInflightItem : Option Item → Except String Item
  | none => .error "queue item is required"
  | some item =>
    if item.envelope.state ≠ .inflight then .error "queue item must be inflight"
    else .ok item

/-- The checks of `Ack` on the ledger of its item. -/
def ackable (envelope : Envelope) : Except String Unit :=
  match envelope.ledger with
  | none => .ok ()
  | some ledger =>
    match validateDeliveryEnvelope envelope with
    | .error message => .error ("invalid delivery ledger: " ++ message)
    | .ok () =>
      if deliveryLedgerTerminal ledger then .ok ()
      else .error "cannot acknowledge envelope before all targets are terminal"

/-- The envelope of an acknowledged item. -/
def ackedEnvelope (now : Time) (envelope : Envelope) : Envelope :=
  { envelope with
    state := .succeeded, updatedAt := now, leaseUntil := 0, nextAttemptAt := 0, lastError := "" }

/-- Move the held item on. -/
def advance (destination : Directory) (updated : Envelope) : QueueRoutine Item Unit := do
  let item ← locals
  transitionEnvelope .inflight destination item.fileName updated
  assign fun item => { item with envelope := updated }

/-- Move the held item to `history`. -/
def ack (now : Time) : QueueRoutine Item Unit := do
  let item ← check (validateInflightItem (some (← locals)))
  check (ackable item.envelope)
  advance .history (ackedEnvelope now item.envelope)

/-- The envelope of an item after one more failed attempt. -/
def nackedEnvelope (cause : Option String) (now : Time) (envelope : Envelope) : Envelope :=
  { envelope with
    attempts := envelope.attempts + 1, updatedAt := now, leaseUntil := 0,
    lastError := truncateError cause }

/-- Move the held item back to `pending`, or to `dead` when its attempts are used up. -/
def nack (cause : Option String) (now : Time) (backoff : List Duration) :
    QueueRoutine Item Unit := do
  let item ← check (validateInflightItem (some (← locals)))
  raiseIf (item.envelope.ledger ≠ none)
    (.other "envelope nack is not allowed after targets are resolved")
  let updated := nackedEnvelope cause now item.envelope
  if (backoff.length : Int) ≤ updated.attempts then
    advance .dead { updated with state := .dead, nextAttemptAt := 0 }
  else
    advance .pending
      { updated with
        state := .pending
        nextAttemptAt := now + backoff.getD (updated.attempts - 1).toNat 0 }

/-! ## The delivery ledger -/

/-- Overwrite the envelope of the held item. -/
def rewrite (updated : Envelope) : QueueRoutine Item Unit := do
  let item ← locals
  replace .inflight item.fileName updated
  assign fun item => { item with envelope := updated }

/-- The envelope with a ledger. -/
def ledgered (ledger : List DeliveryLedgerEntry) (now : Time) (envelope : Envelope) : Envelope :=
  { envelope with
    ledger := some ledger, disposition := some (dispositionFor ledger), updatedAt := now }

/-- Fix the targets of the held item, and list the ones that are ready. -/
def resolveTargets (targets : List DeliveryTarget) (now : Time) :
    QueueRoutine Item (List DeliveryTarget) := do
  let item ← check (validateInflightItem (some (← locals)))
  match item.envelope.ledger with
  | none => do
    let ledger ← check (newDeliveryLedger targets)
    check (validateDeliveryEnvelope (ledgered ledger now item.envelope))
    rewrite (ledgered ledger now item.envelope)
    pure (readyTargets ledger now)
  | some ledger => do
    check ((validateDeliveryEnvelope item.envelope).mapError ("invalid delivery ledger: " ++ ·))
    pure (readyTargets ledger now)

/-- The ledger in which the entry of one target is changed. -/
def updatedLedger (target : DeliveryTarget)
    (update : DeliveryLedgerEntry → Except String DeliveryLedgerEntry)
    (ledger : List DeliveryLedgerEntry) : Except String (List DeliveryLedgerEntry) :=
  match deliveryTargetIndex ledger target with
  | none =>
    .error ("delivery target " ++ quoted target.channelID ++ "/" ++ quoted target.templateID ++
      " not found")
  | some index =>
    match ledger[index]? with
    | none => .error "delivery target not found"
    | some entry => (update entry).map fun entry => ledger.set index entry

/-- Change the ledger entry of one target. -/
def updateTarget (target : DeliveryTarget)
    (update : DeliveryLedgerEntry → Except String DeliveryLedgerEntry) (now : Time) :
    QueueRoutine Item Unit := do
  let item ← check (validateInflightItem (some (← locals)))
  match item.envelope.ledger with
  | none => raise (.other "delivery targets are not resolved")
  | some ledger => do
    check ((validateDeliveryEnvelope item.envelope).mapError ("invalid delivery ledger: " ++ ·))
    let ledger ← check (updatedLedger target update ledger)
    check ((validateDeliveryEnvelope (ledgered ledger now item.envelope)).mapError
      ("invalid delivery ledger update: " ++ ·))
    rewrite (ledgered ledger now item.envelope)

/-- Record a delivered target. -/
def ackTarget (target : DeliveryTarget) (messageID : String) (now : Time) :
    QueueRoutine Item Unit :=
  updateTarget target (ackEntry messageID) now

/-- Record a failed attempt of a target. -/
def nackTarget (target : DeliveryTarget) (cause : Option String) (nextAttemptAt now : Time) :
    QueueRoutine Item Unit :=
  match cause with
  | none => raise (.other "target nack cause is required")
  | some cause => updateTarget target (nackEntry cause nextAttemptAt) now

/-- Record that a target is given up. -/
def deadTarget (target : DeliveryTarget) (cause : Option String) (now : Time) :
    QueueRoutine Item Unit :=
  match cause with
  | none => raise (.other "target dead-letter cause is required")
  | some cause => updateTarget target (deadEntry cause) now

/-- Move the held item back to `pending` until its next attempt. -/
def defer (now nextAttemptAt : Time) : QueueRoutine Item Unit := do
  let item ← check (validateInflightItem (some (← locals)))
  match item.envelope.ledger with
  | none => raise (.other "cannot defer item before targets are resolved")
  | some ledger => do
    raiseIf (nextAttemptAt.isZero ∨ ¬ now < nextAttemptAt) (.other "defer time must be after now")
    check ((validateDeliveryEnvelope item.envelope).mapError ("invalid delivery ledger: " ++ ·))
    raiseIf (deliveryLedgerTerminal ledger = true)
      (.other "cannot defer a terminal delivery ledger")
    advance .pending
      { item.envelope with
        state := .pending, updatedAt := now, leaseUntil := 0, nextAttemptAt := nextAttemptAt }

/-! ## Recovery, retry and cleanup -/

/-- Whether a file is there; a look that fails counts as no. -/
def looksPresent (path : ItemPath) : QueueRoutine ℓ Bool :=
  catching (step (.stat path)) fun _ => pure false

/-- Whether a move of this file out of `inflight` had already written its destination. -/
def completedTransition (fileName : FileName) : QueueRoutine ℓ Bool := do
  if ← looksPresent (.pending, fileName) then pure true
  else if ← looksPresent (.history, fileName) then pure true
  else looksPresent (.dead, fileName)

/-- The envelope of an item whose lease has run out. -/
def recoveredEnvelope (now : Time) (envelope : Envelope) : Envelope :=
  { envelope with state := .pending, updatedAt := now, leaseUntil := 0 }

/-- The loop of `RecoverExpired`, with the number of items recovered so far. -/
def recoverItems (now : Time) (recovered : Nat) : List Item → QueueRoutine ℓ Nat
  | [] => pure recovered
  | item :: rest => do
    if ← completedTransition item.fileName then do
      -- the result of this removal is ignored
      catching (step (.remove (.inflight, item.fileName))) fun _ => pure ()
      recoverItems now recovered rest
    else if ¬ item.envelope.leaseUntil.isZero ∧ now < item.envelope.leaseUntil then
      recoverItems now recovered rest
    else do
      transitionEnvelope .inflight .pending item.fileName (recoveredEnvelope now item.envelope)
      recoverItems now (recovered + 1) rest

/-- Finish the moves that were cut short and bring back the items whose lease has run out. -/
def recoverExpired (now : Time) : QueueRoutine ℓ Nat := do
  let items ← listUnlocked .inflight
  recoverItems now 0 items

/-- The envelope of a dead item that is retried by hand. -/
def retriedEnvelope (now : Time) (envelope : Envelope) : Envelope :=
  { envelope with
    state := .pending, attempts := 0, lastError := "", nextAttemptAt := 0,
    manualRetries := envelope.manualRetries + 1, lastRetriedAt := now, updatedAt := now }

/-- Move a dead item back to `pending`. -/
def retry (id : String) (now : Time) : QueueRoutine ℓ Unit := do
  let items ← listUnlocked .dead
  match items.find? fun item => item.envelope.id = id with
  | none => raise (.other ("dead event " ++ quoted id ++ " not found"))
  | some item =>
    transitionEnvelope .dead .pending item.fileName (retriedEnvelope now item.envelope)

/-- Remove the given files of a directory and their idempotency markers. -/
def discardItems (sha256 : String → String) (directory : Directory) (removed : Nat) :
    List Item → QueueRoutine ℓ Nat
  | [] => pure removed
  | item :: rest => do
    let present ← step (.discard (directory, item.fileName))
    raiseIf (present = false) .notExist
    -- the result of this removal is ignored
    catching
      (step (.removeKey (sha256 item.envelope.event.idempotencyKey ++ ".key")))
      fun _ => pure ()
    discardItems sha256 directory (removed + 1) rest

/-- Remove the delivered items that were last changed before an instant. -/
def cleanupHistory (sha256 : String → String) (before : Time) : QueueRoutine ℓ Nat := do
  let items ← listUnlocked .history
  discardItems sha256 .history 0 (items.filter fun item => item.envelope.updatedAt < before)

/-- The dead items a cleanup removes: the oldest beyond the maximum, and those last changed
before an instant. -/
def excessItems (before : Time) (maximum : Int) (items : List Item) : List Item :=
  let excess : Nat :=
    if 0 ≤ maximum ∧ maximum < items.length then items.length - maximum.toNat else 0
  (items.zipIdx.filter fun entry =>
    entry.2 < excess || entry.1.envelope.updatedAt < before).map Prod.fst

/-- Remove dead items that are too many or too old. -/
def cleanupDead (sha256 : String → String) (before : Time) (maximum : Int) :
    QueueRoutine ℓ Nat := do
  let items ← listUnlocked .dead
  discardItems sha256 .dead 0 (excessItems before maximum items)

/-! ## The calls of a process -/

/-- A call of a queue operation.  An item is named by its place among the items the process
got from `Claim`. -/
inductive Call where
  | enqueue (fuel : Nat) (notification : Notification) (now : Time)
  | claim (now : Time) (lease : Duration)
  | ack (held : Nat) (now : Time)
  | nack (held : Nat) (cause : Option String) (now : Time) (backoff : List Duration)
  | resolveTargets (held : Nat) (targets : List DeliveryTarget) (now : Time)
  | ackTarget (held : Nat) (target : DeliveryTarget) (messageID : String) (now : Time)
  | nackTarget (held : Nat) (target : DeliveryTarget) (cause : Option String)
      (nextAttemptAt now : Time)
  | deadTarget (held : Nat) (target : DeliveryTarget) (cause : Option String) (now : Time)
  | defer (held : Nat) (now nextAttemptAt : Time)
  | retry (id : String) (now : Time)
  | recoverExpired (now : Time)
  | cleanupHistory (before : Time)
  | cleanupDead (before : Time) (maximum : Int)

/-- What a process remembers between calls: the items `Claim` gave it, as the operations
left them. -/
structure Memory where
  held : List Item := []

/-- Run an operation on an item of the process; a process that has no such item is told so. -/
def Memory.act {α : Type} (m : Memory) (held : Nat) (p : QueueRoutine Item α) : QueueProg Memory :=
  match m.held[held]? with
  | none => return m
  | some item => do
    let (_, item) ← p.working item
    return ⟨m.held.set held item⟩

/-- Run an operation on no item of the process. -/
def Memory.keep {α : Type} (m : Memory) (p : QueueRoutine Unit α) : QueueProg Memory := do
  let _ ← p.working ()
  return m

/-- The program of a call, started with the memory of its process. -/
def body (sha256 : String → String) : Call → Memory → QueueProg Memory
  | .enqueue fuel notification now, m => do
    match ← enqueue sha256 fuel notification now with
    | none => return m
    | some result =>
      perform (.answer result)
      return m
  | .claim now lease, m => do
    match ← (claim now lease).working () with
    | (.ok (some item), _) => return ⟨m.held ++ [item]⟩
    | _ => return m
  | .ack held now, m => m.act held (ack now)
  | .nack held cause now backoff, m => m.act held (nack cause now backoff)
  | .resolveTargets held targets now, m => m.act held (resolveTargets targets now)
  | .ackTarget held target messageID now, m => m.act held (ackTarget target messageID now)
  | .nackTarget held target cause nextAttemptAt now, m =>
    m.act held (nackTarget target cause nextAttemptAt now)
  | .deadTarget held target cause now, m => m.act held (deadTarget target cause now)
  | .defer held now nextAttemptAt, m => m.act held (defer now nextAttemptAt)
  | .retry id now, m => m.keep (retry id now)
  | .recoverExpired now, m => m.keep (recoverExpired now)
  | .cleanupHistory before, m => m.keep (cleanupHistory sha256 before)
  | .cleanupDead before maximum, m => m.keep (cleanupDead sha256 before maximum)

end AgentBell.Queue
