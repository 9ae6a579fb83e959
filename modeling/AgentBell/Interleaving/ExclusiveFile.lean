import AgentBell.Interleaving.System

/-!
# Locks that are a file at a path

A process takes the lock when it creates the file at a path that must not exist yet, and gives it
back when it removes the file.  A process that finds the file there may judge it left behind, by its
age or by asking after its owner, and remove it too.  A removal names a path and not a file, so it
takes away whatever file is there by then.

One condition makes every such lock exclusive: a process that removes a file it judged left behind
finds at the path the file of a process that is gone, or none.  It is not enough that every
judgement is right when it is made.
-/

namespace Interleaving.ExclusiveFile

/-- A file at the path: its identity, the process that created it and what it wrote to it. -/
structure Entry (κ : Type) where
  inode : Nat
  owner : Nat
  content : Option κ
  deriving DecidableEq

/-- The path, with the number of files created so far. -/
structure Slot (κ : Type) where
  entry : Option (Entry κ) := none
  next : Nat := 0

/-- Why a process removes the file: it is its own, or it was judged left behind. -/
inductive Removal where
  | own
  | condemned
  deriving DecidableEq

/-- A step on the path, a random value, or a question to the outside. -/
inductive Cmd (κ : Type) where
  | draw
  | create (owner : Nat)
  | fill (inode : Nat) (content : κ)
  | look
  | read
  | probe (inode : Nat)
  | remove (reason : Removal)
  | ask

/-- How an attempt to create the file ends. -/
inductive Created where
  | made (inode : Nat)
  | taken
  | failed
  deriving DecidableEq

/-- What a look at the file shows. -/
inductive Sight where
  | missing
  | contended
  | failed
  | present (stale : Bool)
  deriving DecidableEq

/-- How a removal ends. -/
inductive Removed where
  | removed
  | missing
  | contended
  | failed
  deriving DecidableEq

/-- The replies of the commands. -/
@[reducible] def Reply (κ : Type) : Cmd κ → Type
  | .draw => κ
  | .create _ => Created
  | .fill _ _ => Bool
  | .look => Sight
  | .read => Option (Nat × Option κ)
  | .probe _ => Option Bool
  | .remove _ => Removed
  | .ask => Bool

/-- What the environment decides at a command. -/
inductive Choice (κ : Type) where
  | works
  | contended
  | fails
  | answers (answer : Bool)
  | value (drawn : κ)

section Semantics

variable {κ : Type}

/-- The file with a new content, when it is still the one that was opened. -/
def Entry.filled (inode : Nat) (content : κ) (entry : Entry κ) : Entry κ :=
  if entry.inode = inode then { entry with content := some content } else entry

@[simp] theorem Entry.filled_owner (inode : Nat) (content : κ) (entry : Entry κ) :
    (entry.filled inode content).owner = entry.owner := by
  unfold Entry.filled
  split <;> rfl

/-- A new file at the path. -/
def Slot.make (owner : Nat) (s : Slot κ) : Slot κ := ⟨some ⟨s.next, owner, none⟩, s.next + 1⟩

/-- The file at the path with a new content. -/
def Slot.fill (inode : Nat) (content : κ) (s : Slot κ) : Slot κ :=
  { s with entry := s.entry.map (Entry.filled inode content) }

/-- No file at the path. -/
def Slot.vacate (s : Slot κ) : Slot κ := { s with entry := none }

/-- What a command does. -/
def exec (x : Choice κ) : (c : Cmd κ) → Slot κ → Option (Reply κ c × Slot κ)
  | .draw, s =>
    match x with
    | .value drawn => some (drawn, s)
    | _ => none
  | .create owner, s =>
    match x with
    | .works =>
      match s.entry with
      | none => some (.made s.next, s.make owner)
      | some _ => some (.taken, s)
    | .contended => some (.taken, s)
    | .fails => some (.failed, s)
    | _ => none
  | .fill inode content, s =>
    match x with
    | .works => some (true, s.fill inode content)
    | .fails => some (false, s)
    | _ => none
  | .look, s =>
    match x with
    | .answers stale => some (if s.entry.isSome then .present stale else .missing, s)
    | .contended => some (.contended, s)
    | .fails => some (.failed, s)
    | _ => none
  | .read, s =>
    match x with
    | .works => some (s.entry.map fun entry => (entry.inode, entry.content), s)
    | .fails => some (none, s)
    | _ => none
  | .probe _, s =>
    match x with
    | .answers alive => some (some alive, s)
    | .fails => some (none, s)
    | _ => none
  | .remove _, s =>
    match x with
    | .works => some (if s.entry.isSome then .removed else .missing, s.vacate)
    | .contended => some (.contended, s)
    | .fails => some (.failed, s)
    | _ => none
  | .ask, s =>
    match x with
    | .answers answer => some (answer, s)
    | _ => none

/-- The machine of the path. -/
def machine (κ : Type) : Machine (Cmd κ) (Reply κ) (Slot κ) (Choice κ) := ⟨exec⟩

/-- Everything a command can do to the path. -/
inductive Effect (s : Slot κ) : Cmd κ → Slot κ → Prop where
  | same (c : Cmd κ) : Effect s c s
  | made (owner : Nat) (absent : s.entry = none) : Effect s (.create owner) (s.make owner)
  | filled (inode : Nat) (content : κ) : Effect s (.fill inode content) (s.fill inode content)
  | removed (reason : Removal) : Effect s (.remove reason) s.vacate

/-- A command has one of the listed effects. -/
theorem effect_of_exec {x : Choice κ} {c : Cmd κ} {s t : Slot κ} {r : Reply κ c}
    (h : exec x c s = some (r, t)) : Effect s c t := by
  cases c with
  | draw | look | read | probe | ask => cases x <;> cases h <;> exact .same _
  | fill inode content =>
    cases x <;> cases h
    · exact .filled inode content
    · exact .same _
  | remove reason =>
    cases x <;> cases h
    · exact .removed reason
    · exact .same _
    · exact .same _
  | create owner =>
    cases x <;> try cases h
    · simp only [exec] at h
      split at h
      · cases h
        exact .made owner ‹_›
      · cases h
        exact .same _
    · exact .same _
    · exact .same _

end Semantics

/-! ## What a process relies on -/

section Contract

variable {κ K μ : Type} {i j : Nat} {s t u : Slot κ}

/-- The file at the path is the one process `i` created. -/
def Possesses (i : Nat) (s : Slot κ) : Prop := ∃ entry, s.entry = some entry ∧ entry.owner = i

/-- Others keep the file of process `i`. -/
def Spares (i : Nat) (s t : Slot κ) : Prop := Possesses i s → Possesses i t

theorem Spares.refl (i : Nat) (s : Slot κ) : Spares i s s := id

/-- When process `i` may issue a command: it creates files in its own name, and removes a file as
its own only if it is. -/
def Permits (i : Nat) (c : Cmd κ) (s : Slot κ) : Prop :=
  match c with
  | .create owner => owner = i
  | .remove .own => Possesses i s
  | _ => True

/-- The contract of process `i`: it has the file whenever its memory says that it holds the lock. -/
def contract (holds fine : μ → Prop) (i : Nat) : Contract (Cmd κ) (Slot κ) K μ where
  rest := Spares i
  rely := fun _ _ => Spares i
  pre := fun _ => Permits i
  idle := fun m s => fine m ∧ (holds m → Possesses i s)
  done := fun _ m s => fine m ∧ (holds m → Possesses i s)

theorem contract_lawful (holds fine : μ → Prop) (i : Nat) :
    (contract holds fine i : Contract (Cmd κ) (Slot κ) K μ).Lawful where
  rely_refl := fun _ _ => Spares.refl i
  rely_trans := fun _ _ _ _ _ hst htu h => htu (hst h)
  rest_refl := Spares.refl i
  idle_stable := fun _ _ _ h hrest => ⟨h.1, fun hholds => hrest (h.2 hholds)⟩
  idle_of_done := fun _ _ _ h => h

/-- At most one process has the file. -/
theorem Possesses.unique (hi : Possesses i s) (hj : Possesses j s) : i = j := by
  obtain ⟨entry, hentry, howner⟩ := hi
  obtain ⟨other, hother, howner'⟩ := hj
  obtain rfl := Option.mem_unique hentry hother
  exact howner.symm.trans howner'

/-- A step that removes nothing keeps the file of every process. -/
theorem Possesses.kept {c : Cmd κ} (h : Possesses i s) (heffect : Effect s c t)
    (hkeeps : ∀ reason, c ≠ .remove reason) : Possesses i t := by
  cases heffect with
  | same => exact h
  | made owner absent =>
    obtain ⟨entry, hentry, -⟩ := h
    rw [absent] at hentry
    cases hentry
  | filled inode content =>
    obtain ⟨entry, hentry, howner⟩ := h
    refine ⟨entry.filled inode content, by simp [Slot.fill, hentry], ?_⟩
    rw [Entry.filled_owner, howner]
  | removed reason => exact absurd rfl (hkeeps reason)

end Contract

/-! ## Programs that keep the contract -/

section Rules

variable {κ α : Type} {M : Machine (Cmd κ) (Reply κ) (Slot κ) (Choice κ)} {i : Nat}
  {post : α → Slot κ → Prop} {s : Slot κ} {c : Cmd κ} {holds : α → Prop}

/-- The machine makes no other steps than the path allows. -/
def Follows (M : Machine (Cmd κ) (Reply κ) (Slot κ) (Choice κ)) : Prop :=
  ∀ x o s r v, M.exec x o s = some (r, v) → exec x o s = some (r, v)

theorem follows_machine : Follows (machine κ) := fun _ _ _ _ _ h => h

/-- A program that process `i` may run. -/
abbrev Behaves (M : Machine (Cmd κ) (Reply κ) (Slot κ) (Choice κ)) (i : Nat)
    (post : α → Slot κ → Prop) (p : Prog (Cmd κ) (Reply κ) α) (s : Slot κ) : Prop :=
  Safe M (fun _ => Spares i) (Permits i) post p s

/-- Whatever such a program returns, its process has the file when the result says so. -/
abbrev Keeps (i : Nat) (holds : α → Prop) (p : Prog (Cmd κ) (Reply κ) α) (s : Slot κ) : Prop :=
  Behaves (machine κ) i (fun a t => holds a → Possesses i t) p s

theorem keeps_return {a : α} (h : holds a → Possesses i s) : Keeps i holds (.ret a) s :=
  safe_ret fun _ ht hholds => ht (h hholds)

/-- One program after the other. -/
theorem Behaves.bind {β : Type} {mid : β → Slot κ → Prop} {p : Prog (Cmd κ) (Reply κ) β}
    {f : β → Prog (Cmd κ) (Reply κ) α} (hp : Behaves M i mid p s)
    (hf : ∀ a t, mid a t → Behaves M i post (f a) t) : Behaves M i post (p.bind f) s :=
  Safe.bind (fun _ => Spares.refl i) hp hf

/-- A command that is permitted at any time. -/
theorem safe_step {next : Reply κ c → Prog (Cmd κ) (Reply κ) α} (hc : ∀ t : Slot κ, Permits i c t)
    (hnext : ∀ x r t v, M.exec x c t = some (r, v) → Behaves M i post (next r) v) :
    Behaves M i post (.cmd c next) s :=
  safe_cmd fun t _ => ⟨hc t, fun x r v hexec => hnext x r t v hexec⟩

/-- A command of a process that has the file and keeps it. -/
theorem safe_keeping (hM : Follows M) {next : Reply κ c → Prog (Cmd κ) (Reply κ) α}
    (hs : Possesses i s) (hc : ∀ t : Slot κ, Permits i c t) (hkeeps : ∀ reason, c ≠ .remove reason)
    (hnext : ∀ r v, Possesses i v → Behaves M i post (next r) v) :
    Behaves M i post (.cmd c next) s :=
  safe_cmd fun t ht => ⟨hc t, fun x r v hexec => hnext r v
    ((ht hs).kept (effect_of_exec (hM x c t r v hexec)) hkeeps)⟩

/-- A process tries to create the file. -/
theorem safe_create (hM : Follows M) {next : Created → Prog (Cmd κ) (Reply κ) α}
    (hmade : ∀ inode v, Possesses i v → Behaves M i post (next (.made inode)) v)
    (htaken : ∀ v, Behaves M i post (next .taken) v)
    (hfailed : ∀ x t v, M.exec x (.create i) t = some (.failed, v) →
      Behaves M i post (next .failed) v) :
    Behaves M i post (.cmd (.create i) next) s := by
  refine safe_step (fun _ => rfl) fun x r t v hexec => ?_
  cases r with
  | taken => exact htaken v
  | failed => exact hfailed x t v hexec
  | made inode =>
    refine hmade inode v ?_
    have hmade := hM x _ t _ v hexec
    cases x with
    | works =>
      simp only [exec] at hmade
      split at hmade
      · cases hmade
        exact ⟨_, rfl, rfl⟩
      · cases hmade
    | contended | fails | answers | value => cases hmade

/-- A process removes its own file. -/
theorem safe_removeOwn {next : Removed → Prog (Cmd κ) (Reply κ) α} (hs : Possesses i s)
    (hnext : ∀ r v, Behaves M i post (next r) v) :
    Behaves M i post (.cmd (.remove .own) next) s :=
  safe_cmd fun _ ht => ⟨ht hs, fun _ r v _ => hnext r v⟩

end Rules

/-! ## Exclusion -/

section Exclusion

variable {κ K μ : Type}

/-- A configuration of processes that share the path. -/
abbrev World (κ K μ : Type) := Config (Cmd κ) (Reply κ) (Slot κ) K μ Nat

/-- A process that removes a file it judged left behind finds the file of a process that is gone, or
none, at the path. -/
def RemovesAbandoned (e : Event K (Choice κ) Nat) (c : World κ K μ) : Prop :=
  ∀ i x k next entry, e = .step i x →
    c.procs i = some (.busy k (.cmd (.remove .condemned) next)) →
    c.store.entry = some entry → c.procs entry.owner = none

variable {P : Protocol (Cmd κ) (Reply κ) (Slot κ) (Choice κ) K μ Nat} {holds fine : μ → Prop}
  {c c' : World κ K μ} {e : Event K (Choice κ) Nat} {i j : Nat} {x : Choice κ} {k : K} {o : Cmd κ}
  {v : Slot κ} {entry : Entry κ}

/-- The step of one process spares every other live process. -/
theorem RemovesAbandoned.spares {next : Reply κ o → Prog (Cmd κ) (Reply κ) μ}
    (hremoves : RemovesAbandoned (.step i x) c) (heffect : Effect c.store o v)
    (hi : c.procs i = some (.busy k (.cmd o next))) (hpermits : Permits i o c.store) (hne : j ≠ i)
    (hj : c.procs j ≠ none) : Spares j c.store v := by
  intro hpossesses
  by_cases hkeeps : ∀ reason, o ≠ .remove reason
  · exact hpossesses.kept heffect hkeeps
  obtain ⟨reason, rfl⟩ := not_forall_not.mp hkeeps
  cases reason with
  | own => exact absurd (hpossesses.unique hpermits) hne
  | condemned =>
    obtain ⟨entry, hentry, rfl⟩ := hpossesses
    exact absurd (hremoves i x k next entry rfl hi hentry) hj

/-- Any number of processes, none of which has done anything yet. -/
def crowd (P : Protocol (Cmd κ) (Reply κ) (Slot κ) (Choice κ) K μ Nat) : World κ K μ where
  store := {}
  procs := fun _ => some (.idle P.fresh)

/-- Every process keeps its contract in every run in which files are removed so. -/
theorem sound_of_reachable (hmachine : Follows P.machine)
    (hbody : ∀ i k m s, fine m ∧ (holds m → Possesses i s) → P.may i k m s = true →
      Behaves P.machine i (fun m t => fine m ∧ (holds m → Possesses i t)) (P.body i k m) s)
    (hfine : fine P.fresh) (hfresh : ¬ holds P.fresh)
    (h : Reachable P RemovesAbandoned (crowd P) c) :
    c.Sound P.machine (contract holds fine) := by
  have hnew : ∀ i s, (contract (K := K) (κ := κ) holds fine i).idle P.fresh s :=
    fun _ _ => ⟨hfine, fun hholds => absurd hholds hfresh⟩
  refine h.invariant (fun c => c.Sound P.machine (contract holds fine)) ?_ ?_
  · rintro i a ⟨⟩
    exact hnew i _
  · intro c c' e hc hok hnext
    refine hc.next (contract_lawful holds fine) hnext (fun i _ _ => hnew i _)
      (fun i k m _ hidle hmay => hbody i k m c.store hidle hmay) ?_
    rintro i x k o next r v rfl hi hpermits hexec j a hne hj
    have hspares := hok.spares (effect_of_exec (hmachine x o _ r v hexec)) hi hpermits hne
      (by rw [hj]; exact Option.some_ne_none a)
    cases a with
    | idle m => exact hspares
    | busy k p => exact hspares

/-- The file of a live process is taken away by that process only. -/
theorem taken_by_owner (hmachine : Follows P.machine)
    (h : c.Sound P.machine (contract holds fine)) (hremoves : RemovesAbandoned e c)
    (hnext : P.next e c = some c') (hentry : c.store.entry = some entry)
    (hlive : c.procs entry.owner ≠ none) (hgone : ¬ Possesses entry.owner c'.store) :
    ∃ x, e = .step entry.owner x := by
  have hpossesses : Possesses entry.owner c.store := ⟨entry, hentry, rfl⟩
  cases Protocol.effect_of_next hnext with
  | spawned | called | returned | killed => exact absurd hpossesses hgone
  | issued i x k o next r v runs result =>
    by_cases hown : entry.owner = i
    · exact ⟨x, by rw [hown]⟩
    · have hpermits : Permits i o c.store :=
        h.pre (fun i => contract_lawful holds fine i) runs
      exact absurd (hremoves.spares (effect_of_exec (hmachine x o _ r v result)) runs hpermits
        hown hlive hpossesses) hgone

/-! ## Judgements -/

/-- Whether a step judges the file at the path left behind. -/
def condemns (x : Choice κ) (c : Cmd κ) (entry : Entry κ) : Bool :=
  match c, x with
  | .look, .answers true => true
  | .probe inode, .answers false => inode = entry.inode
  | _, _ => false

/-- No process is started anew, and a file is judged left behind only when its owner is gone. -/
def JudgesRightly (e : Event K (Choice κ) Nat) (c : World κ K μ) : Prop :=
  match e with
  | .spawn _ => False
  | .step i x => ∀ k o next entry, c.procs i = some (.busy k (.cmd o next)) →
      c.store.entry = some entry → condemns x o entry = true → c.procs entry.owner = none
  | _ => True

/-- Whether an event judges files rightly. -/
def judgesCheck (e : Event K (Choice κ) Nat) (c : World κ K μ) : Bool :=
  match e with
  | .spawn _ => false
  | .step i x =>
    match c.procs i, c.store.entry with
    | some (.busy _ p), some entry =>
      !(p.head.any fun o => condemns x o entry) || (c.procs entry.owner).isNone
    | _, _ => true
  | _ => true

theorem judgesRightly_of_check (h : judgesCheck e c = true) : JudgesRightly e c := by
  cases e with
  | spawn i => cases h
  | call i k => trivial
  | kill i => trivial
  | step i x =>
    intro k o next entry hi hentry hjudged
    simpa [judgesCheck, hi, hentry, hjudged] using h

/-- Whether a removal finds the file of a process that is gone. -/
def removesCheck (e : Event K (Choice κ) Nat) (c : World κ K μ) : Bool :=
  match e with
  | .step i _ =>
    match c.procs i, c.store.entry with
    | some (.busy _ p), some entry =>
      match p.head with
      | some (.remove .condemned) => (c.procs entry.owner).isNone
      | _ => true
    | _, _ => true
  | _ => true

theorem removesAbandoned_of_check (h : removesCheck e c = true) : RemovesAbandoned e c := by
  rintro i x k next entry rfl hi hentry
  simpa [removesCheck, hi, hentry] using h

end Exclusion

end Interleaving.ExclusiveFile
