import Mathlib.Data.List.AList
import AgentBell.Queue.Ledger
import AgentBell.Interleaving.System

/-!
# The queue directory and its file-system commands

The queue root holds four item directories, the idempotency markers in `keys` and a `tmp`
directory.  A command is one file-system step of the Go code.  Writing an item is one step:
the content is written and synced under `tmp` and then renamed over its destination, and only
the rename is seen by others.  A marker is created empty, with `O_EXCL`, and written through
its open handle, so a handle remembers the inode it was opened on.

What the code does not decide is a choice: the value of the random source, whether a deadline
has passed or a marker is older than a second, the order of a directory listing.
-/

namespace AgentBell.Queue

open Interleaving

/-- The item directories of the queue. -/
inductive Directory where
  | pending
  | inflight
  | history
  | dead
  deriving DecidableEq, Repr

/-- The path of an item file. -/
abbrev ItemPath := Directory × FileName

/-- An idempotency marker: the inode behind its path and the id written to it, if any. -/
structure KeyFile where
  inode : Nat
  content : Option String
  deriving DecidableEq, Repr

/-- What `Enqueue` returns: an id and whether it was already there, or an error. -/
abbrev Answer := Except String (String × Bool)

/-- The queue directory, together with a record of the ids the random source gave, of the ids
whose files were ever written, of the answers `Enqueue` returned and of the ids whose files a
cleanup call removed. -/
structure Store where
  files : AList (fun _ : ItemPath => Envelope) := ∅
  corrupt : List ItemPath := []
  keys : AList (fun _ : String => KeyFile) := ∅
  nextInode : Nat := 0
  issued : List String := []
  written : List String := []
  answers : List Answer := []
  cleaned : List String := []

/-- One file-system step, one look at the outside world, or the return of `Enqueue`. -/
inductive Cmd where
  | randomID
  | createKey (key : String)
  | writeKey (key : String) (inode : Nat) (id : String)
  | readKey (key : String)
  | keyStale (key : String)
  | removeKey (key : String)
  | deadlinePassed
  | globItem (directory : Directory) (id : String)
  | stat (path : ItemPath)
  | write (path : ItemPath) (envelope : Envelope)
  | remove (path : ItemPath)
  | discard (path : ItemPath)
  | readDir (directory : Directory)
  | readFile (path : ItemPath)
  | quarantine (path : ItemPath)
  | answer (result : Answer)

/-- The replies of the commands. -/
@[reducible] def Reply : Cmd → Type
  | .randomID => String
  | .createKey _ => Option Nat
  | .writeKey _ _ _ => Unit
  | .readKey _ => Option (Option String)
  | .keyStale _ => Option Bool
  | .removeKey _ => Unit
  | .deadlinePassed => Bool
  | .globItem _ _ => Bool
  | .stat _ => Bool
  | .write _ _ => Unit
  | .remove _ => Unit
  | .discard _ => Bool
  | .readDir _ => List FileName
  | .readFile _ => Option Envelope
  | .quarantine _ => Bool
  | .answer _ => Unit

/-- What the code leaves open at a command. -/
inductive Choice where
  | nothing
  | id (value : String)
  | flag (value : Bool)
  | order (names : List FileName)

/-- Whether a text is 16 bytes in lowercase hexadecimal, the form of a random id. -/
def isRandomID (value : String) : Bool :=
  value.length = 32 && value.toList.all fun c => "0123456789abcdef".toList.contains c

/-- The names of the files in a directory. -/
def Store.names (s : Store) (directory : Directory) : List FileName :=
  s.files.keys.filterMap fun path => if path.1 = directory then some path.2 else none

/-- The store after an envelope was written to a path. -/
def Store.put (s : Store) (path : ItemPath) (envelope : Envelope) : Store :=
  { s with files := s.files.insert path envelope.encoded, written := path.2.id :: s.written }

/-- The store after the file at a path was removed, if there was one. -/
def Store.drop (s : Store) (path : ItemPath) : Store :=
  { s with files := s.files.erase path }

/-- What a command does.  The random source never repeats an id, and a directory may be
listed in any order. -/
def exec (x : Choice) : (c : Cmd) → Store → Option (Reply c × Store)
  | .randomID, s =>
    match x with
    | .id value =>
      if isRandomID value ∧ value ∉ s.issued then
        some (value, { s with issued := value :: s.issued })
      else none
    | _ => none
  | .createKey key, s =>
    if key ∈ s.keys then some (none, s)
    else some (some s.nextInode,
      { s with keys := s.keys.insert key ⟨s.nextInode, none⟩, nextInode := s.nextInode + 1 })
  | .writeKey key inode id, s =>
    match s.keys.lookup key with
    | some file =>
      if file.inode = inode then
        some ((), { s with keys := s.keys.insert key ⟨inode, some id⟩ })
      else some ((), s)
    | none => some ((), s)
  | .readKey key, s => some ((s.keys.lookup key).map KeyFile.content, s)
  | .keyStale key, s =>
    match x with
    | .flag stale => some (if key ∈ s.keys then some stale else none, s)
    | _ => none
  | .removeKey key, s => some ((), { s with keys := s.keys.erase key })
  | .deadlinePassed, s =>
    match x with
    | .flag passed => some (passed, s)
    | _ => none
  | .globItem directory id, s =>
    some ((s.names directory).any fun name => name.id = id, s)
  | .stat path, s => some (decide (path ∈ s.files), s)
  | .write path envelope, s => some ((), s.put path envelope)
  | .remove path, s => some ((), s.drop path)
  | .discard path, s =>
    if path ∈ s.files then
      some (true, { s.drop path with cleaned := path.2.id :: s.cleaned })
    else some (false, s)
  | .readDir directory, s =>
    match x with
    | .order names => if names.Perm (s.names directory) then some (names, s) else none
    | _ => none
  | .readFile path, s => some (s.files.lookup path, s)
  | .quarantine path, s =>
    if path ∈ s.files then
      some (true, { s.drop path with corrupt := path :: s.corrupt })
    else some (false, s)
  | .answer result, s => some ((), { s with answers := result :: s.answers })

/-- The machine of the queue directory. -/
def machine : Machine Cmd Reply Store Choice := ⟨exec⟩

/-- A program over the commands of the queue directory. -/
abbrev QueueProg := Prog Cmd Reply

/-- The program that issues one command of the queue directory. -/
abbrev perform (c : Cmd) : QueueProg (Reply c) := Prog.issue c

@[simp] theorem machine_exec (x : Choice) (c : Cmd) (s : Store) :
    machine.exec x c s = exec x c s := rfl

@[simp] theorem Store.mem_put {s : Store} {path other : ItemPath} {envelope : Envelope} :
    other ∈ (s.put path envelope).files ↔ other = path ∨ other ∈ s.files :=
  AList.mem_insert _

@[simp] theorem Store.mem_drop {s : Store} {path other : ItemPath} :
    other ∈ (s.drop path).files ↔ other ≠ path ∧ other ∈ s.files :=
  AList.mem_erase

/-- The listing of a directory holds exactly the names of its files. -/
theorem Store.mem_names {s : Store} {directory : Directory} {name : FileName} :
    name ∈ s.names directory ↔ (directory, name) ∈ s.files := by
  simp only [Store.names, List.mem_filterMap, AList.mem_keys]
  constructor
  · rintro ⟨path, hpath, hname⟩
    split at hname
    · rename_i hdir
      obtain rfl := Option.some.inj hname
      rwa [← hdir]
    · cases hname
  · intro h
    exact ⟨(directory, name), h, by simp⟩

/-- What a command may do to the item files and the answers: nothing, store a file, erase a
file, or record an answer. -/
inductive StoreEffect (s : Store) : Cmd → Store → Prop where
  | same {c : Cmd} {t : Store} (files : t.files = s.files) (written : t.written = s.written)
      (cleaned : t.cleaned = s.cleaned) (answers : t.answers = s.answers) : StoreEffect s c t
  | stored (path : ItemPath) (envelope : Envelope) :
      StoreEffect s (.write path envelope) (s.put path envelope)
  | removed (path : ItemPath) : StoreEffect s (.remove path) (s.drop path)
  | discarded (path : ItemPath) : StoreEffect s (.discard path)
      { s.drop path with cleaned := path.2.id :: s.cleaned }
  | quarantined (path : ItemPath) : StoreEffect s (.quarantine path)
      { s.drop path with corrupt := path :: s.corrupt }
  | answered (result : Answer) : StoreEffect s (.answer result)
      { s with answers := result :: s.answers }

/-- Every command has one of the listed effects. -/
theorem storeEffect_of_exec {x : Choice} {c : Cmd} {s t : Store} {r : Reply c}
    (h : exec x c s = some (r, t)) : StoreEffect s c t := by
  cases c with
  | write path envelope =>
    cases h
    exact .stored path envelope
  | remove path =>
    cases h
    exact .removed path
  | discard path =>
    simp only [exec] at h
    split at h
    · cases h
      exact .discarded path
    · cases h
      exact .same rfl rfl rfl rfl
  | quarantine path =>
    simp only [exec] at h
    split at h
    · cases h
      exact .quarantined path
    · cases h
      exact .same rfl rfl rfl rfl
  | answer result =>
    cases h
    exact .answered result
  | randomID | createKey | writeKey | readKey | keyStale | removeKey | deadlinePassed
  | globItem | stat | readDir | readFile =>
    simp only [exec] at h
    repeat' split at h
    all_goals
      cases h
      try exact .same rfl rfl rfl rfl

/-- Two stores with the same items and the same records. -/
structure Store.SameItems (s t : Store) : Prop where
  files : t.files = s.files
  issued : t.issued = s.issued
  written : t.written = s.written
  answers : t.answers = s.answers
  cleaned : t.cleaned = s.cleaned

/-- Every store has the same items and records as itself. -/
theorem Store.SameItems.refl (s : Store) : s.SameItems s := ⟨rfl, rfl, rfl, rfl, rfl⟩

/-- Having the same items and records is transitive. -/
theorem Store.SameItems.trans {s t u : Store} (hst : s.SameItems t) (htu : t.SameItems u) :
    s.SameItems u where
  files := htu.files.trans hst.files
  issued := htu.issued.trans hst.issued
  written := htu.written.trans hst.written
  answers := htu.answers.trans hst.answers
  cleaned := htu.cleaned.trans hst.cleaned

/-- Whether a command leaves the items and the records alone. -/
def Cmd.quiet : Cmd → Bool
  | .randomID | .write _ _ | .remove _ | .discard _ | .quarantine _ | .answer _ => false
  | _ => true

/-- A quiet command leaves the items and the records alone. -/
theorem sameItems_of_quiet {x : Choice} {c : Cmd} {s t : Store} {r : Reply c}
    (hquiet : c.quiet = true) (h : exec x c s = some (r, t)) : s.SameItems t := by
  cases c with
  | randomID | write | remove | discard | quarantine | answer => cases hquiet
  | createKey | writeKey | readKey | keyStale | removeKey | deadlinePassed | globItem | stat
  | readDir | readFile =>
    simp only [exec] at h
    repeat' split at h
    all_goals
      cases h
      try exact ⟨rfl, rfl, rfl, rfl, rfl⟩

end AgentBell.Queue
