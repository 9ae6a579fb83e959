import AgentBell.Upgrade.Files

/-!
# What an atomic write can leave behind

An atomic write puts the new content in place or throws.  When it throws, the file holds what it
held before, or the new content, or nothing, depending on the step that failed.  The environment is
limited to the steps that a condition allows, and each bad ending is traced back to a step that the
condition has to allow for it.
-/

namespace AgentBell.Upgrade

open Interleaving

open Routine (raise catching lastly steady_perform steady_raise)

variable {x : Choice} {r : Except Failure Unit} {path : Path} {content : Option Content}

/-! ## What a step changes -/

/-- The files a step may change. -/
def Cmd.touched : Cmd → List Path
  | .create _ => [.temporary, .backup]
  | .fill _ => [.temporary]
  | .replace write => [.temporary, write.path]
  | .setAside write => [write.path, .backup]
  | .putBack write => [.backup, write.path]
  | .removeBackup _ => [.backup]
  | .removeTemporary _ => [.temporary]
  | .remove path => [path]
  | .removeVersion version => [.core version, .metadata version]
  | .removeStaging id => [.stagedCore id, .stagedMetadata id]
  | .moveStaging id version =>
    [.stagedCore id, .stagedMetadata id, .core version, .metadata version]
  | _ => []

/-- The write a step belongs to. -/
def Cmd.write? : Cmd → Option Write
  | .temporary write _ => some write
  | .create write => some write
  | .fill write => some write
  | .replace write => some write
  | .setAside write => some write
  | .putBack write => some write
  | .removeBackup write => some write
  | .sync write => some write
  | .removeTemporary write => some write
  | _ => none

variable {done w t : World}

lemma attempt_cases (h : attempt x done w = some (r, t)) : (x = .works ∧ r = .ok () ∧ t = done) ∨
      (∃ fault, x = .failsBefore fault ∧ r = .error fault.failure ∧ t = w) ∨
      ∃ fault, x = .failsAfter fault ∧ r = .error fault.failure ∧ t = done := by
  unfold attempt at h
  split at h
  · obtain ⟨rfl, rfl⟩ := Prod.mk.inj (Option.some.inj h)
    exact .inl ⟨rfl, rfl, rfl⟩
  · obtain ⟨rfl, rfl⟩ := Prod.mk.inj (Option.some.inj h)
    exact .inr (.inl ⟨_, rfl, rfl, rfl⟩)
  · obtain ⟨rfl, rfl⟩ := Prod.mk.inj (Option.some.inj h)
    exact .inr (.inr ⟨_, rfl, rfl, rfl⟩)
  · cases h

lemma attemptOn_cases {source : Path} (h : attemptOn x source done w = some (r, t)) :
    (w.files source = none ∧ x = .works ∧ r = .error .missing ∧ t = w) ∨
      (∃ fault, x = .failsBefore fault ∧ r = .error fault.failure ∧ t = w) ∨
      ((w.files source).isSome ∧ x = .works ∧ r = .ok () ∧ t = done) ∨
      ((w.files source).isSome ∧ ∃ fault, x = .failsAfter fault ∧ r = .error fault.failure ∧
        t = done) := by
  unfold attemptOn at h
  split at h
  · rename_i hsome
    rcases attempt_cases h with ⟨hx, hr, ht⟩ | ⟨fault, hx, hr, ht⟩ | ⟨fault, hx, hr, ht⟩
    · exact .inr (.inr (.inl ⟨hsome, hx, hr, ht⟩))
    · exact .inr (.inl ⟨fault, hx, hr, ht⟩)
    · exact .inr (.inr (.inr ⟨hsome, fault, hx, hr, ht⟩))
  · rename_i hsome
    split at h
    · obtain ⟨rfl, rfl⟩ := Prod.mk.inj (Option.some.inj h)
      exact .inl ⟨by simpa using hsome, rfl, rfl, rfl⟩
    · obtain ⟨rfl, rfl⟩ := Prod.mk.inj (Option.some.inj h)
      exact .inr (.inl ⟨_, rfl, rfl, rfl⟩)
    · cases h

lemma answer_cases {α : Type} {reply r : Except Failure α} (h : answer x reply w = some (r, t)) :
    t = w ∧ ((x = .works ∧ r = reply) ∨
      ∃ fault, x = .failsBefore fault ∧ r = .error fault.failure) := by
  unfold answer at h
  split at h
  · cases h
    exact ⟨rfl, .inl ⟨rfl, rfl⟩⟩
  · cases h
    exact ⟨rfl, .inr ⟨_, rfl, rfl⟩⟩
  · cases h

lemma files_put {other : Path} (h : other ≠ path) :
    (w.put path content).files other = w.files other := Function.update_of_ne h _ _

lemma files_put_self : (w.put path content).files path = content := Function.update_self _ _ _

lemma files_activated {write : Write} : (w.activated write).files = w.files := by
  cases write <;> rfl

/-- Two data roots agree outside some files. -/
structure World.Agree (touched : List Path) (w t : World) : Prop where
  files : ∀ path, path ∉ touched → t.files path = w.files path
  activations : .active ∉ touched → t.activations = w.activations

section Agree

variable {touched : List Path} {w t : World} {source : Path} {x : Choice} {done : World}
  {r : Except Failure Unit}

lemma World.Agree.refl (touched : List Path) (w : World) : World.Agree touched w w :=
  ⟨fun _ _ => rfl, fun _ => rfl⟩

lemma World.Agree.put (hagree : World.Agree touched w t)
    (h : path ∈ touched) : World.Agree touched w (t.put path content) where
  files other hother := by
    have hne : other ≠ path := fun heq => hother (heq ▸ h)
    rw [files_put hne]
    exact hagree.files other hother
  activations hactive := hagree.activations hactive

lemma World.Agree.move {destination : Path} (hagree : World.Agree touched w t)
    (hsource : source ∈ touched) (hdestination : destination ∈ touched) :
    World.Agree touched w (t.move source destination) :=
  (hagree.put hdestination).put hsource

lemma agree_of_attempt (h : attempt x done w = some (r, t)) (hdone : World.Agree touched w done) :
    World.Agree touched w t := by
  rcases attempt_cases h with ⟨-, -, rfl⟩ | ⟨fault, -, -, rfl⟩ | ⟨fault, -, -, rfl⟩
  · exact hdone
  · exact .refl touched _
  · exact hdone

lemma agree_of_attemptOn (h : attemptOn x source done w = some (r, t))
    (hdone : World.Agree touched w done) : World.Agree touched w t := by
  rcases attemptOn_cases h with ⟨-, -, -, rfl⟩ | ⟨fault, -, -, rfl⟩ | ⟨-, -, -, rfl⟩ |
    ⟨-, fault, -, -, rfl⟩
  · exact .refl touched _
  · exact .refl touched _
  · exact hdone
  · exact hdone

end Agree

lemma agree_replace (write : Write) (w : World) :
    World.Agree [.temporary, write.path] w ((w.move .temporary write.path).activated write) := by
  have hmove : World.Agree [.temporary, write.path] w (w.move .temporary write.path) :=
    (World.Agree.refl _ w).move (by simp) (by simp)
  refine ⟨fun path hpath => ?_, fun hactive => ?_⟩
  · rw [files_activated]
    exact hmove.files path hpath
  · cases write with
    | activation state => simp [Write.path] at hactive
    | restoration state => simp [Write.path] at hactive
    | _ => rfl

lemma agree_removeParts (version : String) (core metadata : Bool) (w : World) :
    World.Agree [.core version, .metadata version] w (w.removeParts version core metadata) := by
  have hcore : World.Agree [.core version, .metadata version] w
      (if core then w.put (.core version) none else w) := by
    split
    · exact (World.Agree.refl _ w).put (by simp)
    · exact .refl _ w
  unfold World.removeParts
  simp only
  split
  · exact hcore.put (by simp)
  · exact hcore

lemma agree_moveStaging (id version : String) (w : World) :
    World.Agree [.stagedCore id, .stagedMetadata id, .core version, .metadata version] w
      (w.moveStaging id version) := by
  have hmove : World.Agree [.stagedCore id, .stagedMetadata id, .core version, .metadata version] w
      ((w.move (.stagedCore id) (.core version)).move (.stagedMetadata id) (.metadata version)) :=
    ((World.Agree.refl _ w).move (by simp) (by simp)).move (by simp) (by simp)
  exact ⟨hmove.files, hmove.activations⟩

/-- A step changes only what it touches. -/
theorem agree_of_exec {c : Cmd} {r : Except Failure (Reply c)} (h : exec x c w = some (r, t)) :
    World.Agree c.touched w t := by
  have hrefl := World.Agree.refl c.touched w
  cases c with
  | read path =>
    obtain ⟨rfl, -⟩ := answer_cases h
    exact hrefl
  | list =>
    obtain ⟨rfl, -⟩ := answer_cases h
    exact hrefl
  | newID =>
    have hdraw : drawID x w = some (r, t) := h
    unfold drawID at hdraw
    split at hdraw
    · split at hdraw <;> cases hdraw
      exact ⟨fun _ _ => rfl, fun _ => rfl⟩
    · cases hdraw
  | preflight version =>
    have hpreflight : runRollbackPreflight x w = some (r, t) := h
    unfold runRollbackPreflight at hpreflight
    split at hpreflight
    · cases hpreflight
      exact hrefl
    · obtain ⟨rfl, -⟩ := answer_cases hpreflight
      exact hrefl
  | download version =>
    have hdownload : downloadBundle x w = some (r, t) := h
    unfold downloadBundle at hdownload
    split at hdownload <;> cases hdownload <;> exact hrefl
  | create write =>
    exact agree_of_attempt h ((hrefl.put (by simp [Cmd.touched])).put (by simp [Cmd.touched]))
  | fill write => exact agree_of_attempt h (hrefl.put (by simp [Cmd.touched]))
  | replace write => exact agree_of_attemptOn h (agree_replace write w)
  | setAside write =>
    exact agree_of_attemptOn h (hrefl.move (by simp [Cmd.touched]) (by simp [Cmd.touched]))
  | putBack write =>
    exact agree_of_attemptOn h (hrefl.move (by simp [Cmd.touched]) (by simp [Cmd.touched]))
  | removeBackup write => exact agree_of_attempt h (hrefl.put (by simp [Cmd.touched]))
  | removeTemporary write => exact agree_of_attempt h (hrefl.put (by simp [Cmd.touched]))
  | remove path => exact agree_of_attempt h (hrefl.put (by simp [Cmd.touched]))
  | removeVersion version =>
    have hparts := agree_removeParts version true true w
    have hremove : removeVersion x version w = some (r, t) := h
    unfold removeVersion at hremove
    split at hremove
    · cases hremove
      exact agree_removeParts version _ _ w
    · exact agree_of_attempt hremove ⟨hparts.files, hparts.activations⟩
  | removeStaging id =>
    exact agree_of_attempt h ((hrefl.put (by simp [Cmd.touched])).put (by simp [Cmd.touched]))
  | moveStaging id version =>
    have hmove : moveStaging x id version w = some (r, t) := h
    unfold moveStaging at hmove
    split at hmove
    · obtain ⟨rfl, -⟩ := answer_cases hmove
      exact hrefl
    · exact agree_of_attempt hmove (agree_moveStaging id version w)
  | check | acquire | release | smoke | quiesce | restart | cleanupResidues | temporary | sync
  | makeStaging | syncVersions => exact agree_of_attempt h hrefl

/-! ## Where a write is -/

/-- Where a write that started from `w` is: what the file, the temporary file and the backup hold,
and whether the new content was in place at some time. -/
structure Write.At (write : Write) (w t : World) (file temporary backup : Option Content)
    (recorded : Bool) : Prop where
  others : ∀ path, path ≠ write.path → path ≠ .temporary → path ≠ .backup →
    t.files path = w.files path
  file : t.files write.path = file
  temporary : t.files .temporary = temporary
  backup : t.files .backup = backup
  activations : t.activations =
    if recorded then (w.activated write).activations else w.activations

section At

variable {write : Write} {w t : World} {file temporary backup : Option Content} {recorded : Bool}

lemma path_ne_temporary (write : Write) : write.path ≠ .temporary := by
  cases write <;> simp [Write.path]

lemma path_ne_backup (write : Write) : write.path ≠ .backup := by
  cases write <;> simp [Write.path]

lemma activations_activated (write : Write) (h : t.activations = w.activations) :
    (t.activated write).activations = (w.activated write).activations := by
  cases write <;> simp [World.activated, h]

/-- A write starts with the file as it is. -/
lemma Write.At.start (write : Write) (w : World) :
    write.At w w (w.files write.path) (w.files .temporary) (w.files .backup) false where
  others _ _ _ _ := rfl
  file := rfl
  temporary := rfl
  backup := rfl
  activations := rfl

lemma Write.At.putTemporary (h : write.At w t file temporary backup recorded)
    (content : Option Content) :
    write.At w (t.put .temporary content) file content backup recorded where
  others path hpath htemporary hbackup := by
    rw [files_put htemporary]
    exact h.others path hpath htemporary hbackup
  file := by
    rw [files_put (path_ne_temporary write)]
    exact h.file
  temporary := files_put_self
  backup := by
    rw [files_put (by decide)]
    exact h.backup
  activations := h.activations

lemma Write.At.putBackup (h : write.At w t file temporary backup recorded)
    (content : Option Content) :
    write.At w (t.put .backup content) file temporary content recorded where
  others path hpath htemporary hbackup := by
    rw [files_put hbackup]
    exact h.others path hpath htemporary hbackup
  file := by
    rw [files_put (path_ne_backup write)]
    exact h.file
  temporary := by
    rw [files_put (by decide)]
    exact h.temporary
  backup := files_put_self
  activations := h.activations

lemma Write.At.putFile (h : write.At w t file temporary backup recorded)
    (content : Option Content) :
    write.At w (t.put write.path content) content temporary backup recorded where
  others path hpath htemporary hbackup := by
    rw [files_put hpath]
    exact h.others path hpath htemporary hbackup
  file := files_put_self
  temporary := by
    rw [files_put (path_ne_temporary write).symm]
    exact h.temporary
  backup := by
    rw [files_put (path_ne_backup write).symm]
    exact h.backup
  activations := h.activations

/-- The rename puts the temporary file in place. -/
lemma Write.At.replace (h : write.At w t file temporary backup false) :
    write.At w ((t.move .temporary write.path).activated write) temporary none backup true := by
  have hmove : write.At w (t.move .temporary write.path) temporary none backup false := by
    have hput := (h.putFile (t.files .temporary)).putTemporary none
    rw [h.temporary] at hput
    unfold World.move
    rw [h.temporary]
    exact hput
  refine ⟨fun path h1 h2 h3 => ?_, ?_, ?_, ?_, ?_⟩
  · rw [files_activated]
    exact hmove.others path h1 h2 h3
  · rw [files_activated]
    exact hmove.file
  · rw [files_activated]
    exact hmove.temporary
  · rw [files_activated]
    exact hmove.backup
  · exact activations_activated write hmove.activations

/-- The file is set aside. -/
lemma Write.At.setAside (h : write.At w t file temporary backup recorded) :
    write.At w (t.move write.path .backup) none temporary file recorded := by
  have hput := (h.putBackup (t.files write.path)).putFile none
  unfold World.move
  rw [h.file] at hput ⊢
  exact hput

/-- The file is put back. -/
lemma Write.At.putBack (h : write.At w t file temporary backup recorded) :
    write.At w (t.move .backup write.path) backup temporary none recorded := by
  have hput := (h.putFile (t.files .backup)).putBackup none
  unfold World.move
  rw [h.backup] at hput ⊢
  exact hput

end At

/-- How a write ended, without its leftovers. -/
def Write.Ended (write : Write) (w t : World) (file : Option Content) (recorded : Bool) : Prop :=
  ∃ temporary backup, write.At w t file temporary backup recorded

/-! ## Why a write throws -/

/-- A data root agrees with the one a write started from, but for the files of the write. -/
def Write.Frame (write : Write) (w s : World) : Prop :=
  ∀ path, path ≠ write.path → path ≠ .temporary → path ≠ .backup → s.files path = w.files path

section Causes

variable (g : Guard) (write : Write) (w : World)

/-- Some step of the write may fail. -/
def Write.Fails : Prop :=
  ∃ x c s e t, c.write? = some write ∧ write.Frame w s ∧ g x c s ∧ exec x c s = some (.error e, t)

/-- Some step of the write may fail while the new content is in place. -/
def Write.Torn : Prop :=
  ∃ x c s e t, c.write? = some write ∧ write.Frame w s ∧ g x c s ∧
    exec x c s = some (.error e, t) ∧ t.files write.path = some write.content

/-- The file may be set aside and not come back. -/
def Write.Lost : Prop :=
  (∃ fault s, write.Frame w s ∧ g (.failsAfter fault) (.setAside write) s) ∨
    ∃ fault s, write.Frame w s ∧ s.files write.path = none ∧
      g (.failsBefore fault) (.putBack write) s

/-- The second rename may throw after it took effect. -/
def Write.Reverted : Prop :=
  ∃ fault s, write.Frame w s ∧ (s.files .backup).isSome ∧ g (.failsAfter fault) (.replace write) s

/-- The rename may be refused. -/
def Write.Refused : Prop :=
  ∃ x text s t, write.Frame w s ∧ g x (.replace write) s ∧
    exec x (.replace write) s = some (.error (.refused text), t)

/-- What a write that started from `w` can end with, and why. -/
def Write.Ending : Except Failure Unit → World → Prop
  | .ok (), t => write.Ended w t (some write.content) true
  | .error e, t =>
    write.Fails g w ∧ (e = .missing → write.Refused g w) ∧
      (write.Ended w t (w.files write.path) false ∨
        (write.Lost g w ∧ write.Ended w t none false) ∨
        (write.Torn g w ∧
          (write.Ended w t (some write.content) true ∨
            (write.Lost g w ∧ write.Ended w t none true))) ∨
        (write.Torn g w ∧ write.Reverted g w ∧ write.Ended w t (w.files write.path) true))

end Causes

section Steps

variable {g : Guard} {ℓ : Type} {l : ℓ} {write : Write} {w s t : World}
  {c : Cmd} {x : Choice} {e : Failure} {file temporary backup : Option Content} {recorded : Bool}

/-- One step in an environment that a condition limits. -/
lemma meets_step {post : Except Failure (Reply c) → ℓ → World → Prop}
    (h : ∀ x r t, g x c s → exec x c s = some (r, t) → post r l t) :
    Ends g post (perform c) l s := by
  refine meets_perform fun x r t hx => ?_
  obtain ⟨hg, hexec⟩ := Machine.guard_exec.mp hx
  exact h x r t hg hexec

lemma failure_ne_missing (fault : Fault) : fault.failure ≠ .missing := by
  unfold Fault.failure
  split <;> simp

/-- A failed step of the write. -/
lemma fails_of_exec (hwrite : c.write? = some write) (hframe : write.Frame w s) (hg : g x c s)
    (hexec : exec x c s = some (.error e, t)) : write.Fails g w :=
  ⟨x, c, s, e, t, hwrite, hframe, hg, hexec⟩

/-- A step that fails while the new content is in place. -/
lemma torn_of_ended (hwrite : c.write? = some write) (hframe : write.Frame w s) (hg : g x c s)
    (hexec : exec x c s = some (.error e, t))
    (hended : write.Ended w t (some write.content) recorded) : write.Torn g w := by
  obtain ⟨temporary, backup, hat⟩ := hended
  exact ⟨x, c, s, e, t, hwrite, hframe, hg, hexec, hat.file⟩

/-- What the rename can do. -/
lemma meets_replace (hat : write.At w s file (some write.content) backup false) :
    Ends g (fun r _ t => match r with
      | .ok _ => write.At w t (some write.content) none backup true
      | .error e => write.Fails g w ∧ e ≠ .missing ∧
        (write.At w t file (some write.content) backup false ∨
          (write.Torn g w ∧ (∃ fault, g (.failsAfter fault) (.replace write) s) ∧
            write.At w t (some write.content) none backup true)) ∧
        ∀ text, e = .refused text → write.Refused g w)
      (perform (.replace write)) l s := by
  refine meets_step fun x r t hg hexec => ?_
  have hsource : s.files .temporary = some write.content := hat.temporary
  rcases attemptOn_cases hexec with ⟨hnone, -⟩ | ⟨fault, -, rfl, rfl⟩ | ⟨-, -, rfl, rfl⟩ |
    ⟨-, fault, rfl, rfl, rfl⟩
  · rw [hsource] at hnone
    cases hnone
  · refine ⟨fails_of_exec rfl hat.others hg hexec, failure_ne_missing fault, .inl hat, ?_⟩
    intro text htext
    exact ⟨x, text, _, _, hat.others, hg, by rw [← htext]; exact hexec⟩
  · exact hat.replace
  · have htorn := torn_of_ended rfl hat.others hg hexec ⟨_, _, hat.replace⟩
    refine ⟨fails_of_exec rfl hat.others hg hexec, failure_ne_missing fault,
      .inr ⟨htorn, ⟨fault, hg⟩, hat.replace⟩, ?_⟩
    intro text htext
    exact ⟨_, text, _, _, hat.others, hg, by rw [← htext]; exact hexec⟩

/-- What setting the file aside can do. -/
lemma meets_setAside (hat : write.At w s file temporary backup recorded) :
    Ends g (fun r _ t => match r with
      | .ok _ => file.isSome ∧ write.At w t none temporary file recorded
      | .error _ => write.Fails g w ∧ (write.At w t file temporary backup recorded ∨
          (write.Lost g w ∧ write.At w t none temporary file recorded)))
      (perform (.setAside write)) l s := by
  refine meets_step fun x r t hg hexec => ?_
  rcases attemptOn_cases hexec with ⟨-, -, rfl, rfl⟩ | ⟨fault, -, rfl, rfl⟩ | ⟨hsome, -, rfl, rfl⟩ |
    ⟨-, fault, rfl, rfl, rfl⟩
  · exact ⟨fails_of_exec rfl hat.others hg hexec, .inl hat⟩
  · exact ⟨fails_of_exec rfl hat.others hg hexec, .inl hat⟩
  · rw [hat.file] at hsome
    exact ⟨hsome, hat.setAside⟩
  · exact ⟨fails_of_exec rfl hat.others hg hexec,
      .inr ⟨.inl ⟨fault, s, hat.others, hg⟩, hat.setAside⟩⟩

/-- What putting the file back can do. -/
lemma meets_putBack (hat : write.At w s file temporary backup recorded)
    (hbackup : backup.isSome) :
    Ends g (fun r _ t => match r with
      | .ok _ => write.At w t backup temporary none recorded
      | .error e => write.Fails g w ∧ e ≠ .missing ∧ (write.At w t backup temporary none recorded ∨
          ((file = none → write.Lost g w) ∧ write.At w t file temporary backup recorded)))
      (perform (.putBack write)) l s := by
  refine meets_step fun x r t hg hexec => ?_
  rcases attemptOn_cases hexec with ⟨hnone, -⟩ | ⟨fault, rfl, rfl, rfl⟩ | ⟨-, -, rfl, rfl⟩ |
    ⟨-, fault, -, rfl, rfl⟩
  · rw [hat.backup] at hnone
    rw [hnone] at hbackup
    cases hbackup
  · exact ⟨fails_of_exec rfl hat.others hg hexec, failure_ne_missing fault,
      .inr ⟨fun hfile => .inr ⟨fault, _, hat.others, hat.file.trans hfile, hg⟩, hat⟩⟩
  · exact hat.putBack
  · exact ⟨fails_of_exec rfl hat.others hg hexec, failure_ne_missing fault, .inl hat.putBack⟩

/-- A step that leaves the file alone. -/
lemma ended_of_attempt (h : attempt x done s = some (r, t)) (hs : write.Ended w s file recorded)
    (hdone : write.Ended w done file recorded) :
    write.Ended w t file recorded ∧ ∀ e, r = .error e → e ≠ .missing := by
  rcases attempt_cases h with ⟨-, rfl, rfl⟩ | ⟨fault, -, rfl, rfl⟩ | ⟨fault, -, rfl, rfl⟩
  · exact ⟨hdone, nofun⟩
  · refine ⟨hs, fun e he => ?_⟩
    cases he
    exact failure_ne_missing fault
  · refine ⟨hdone, fun e he => ?_⟩
    cases he
    exact failure_ne_missing fault

/-- The removal of the backup once the new content is in place. -/
lemma meets_removeBackup (hat : write.At w s (some write.content) none backup true) :
    Ends g (fun r _ t => match r with
      | .ok _ => write.Ended w t (some write.content) true
      | .error e => write.Fails g w ∧ e ≠ .missing ∧ write.Torn g w ∧
          write.Ended w t (some write.content) true)
      (perform (.removeBackup write)) l s := by
  refine meets_step fun x r t hg hexec => ?_
  obtain ⟨hended, hmissing⟩ := ended_of_attempt hexec ⟨_, _, hat⟩ ⟨_, _, hat.putBackup none⟩
  cases r with
  | ok u => exact hended
  | error e =>
    exact ⟨fails_of_exec rfl hat.others hg hexec, hmissing e rfl,
      torn_of_ended rfl hat.others hg hexec hended, hended⟩

end Steps

/-! ## The refused rename -/

section Aside

variable {g : Guard} {ℓ : Type} {l : ℓ} {write : Write} {w s : World}
  {text : String}

/-- The second rename after the old file was set aside, and putting the old file back. -/
lemma meets_replaceAgain (hold : (w.files write.path).isSome)
    (hat : write.At w s none (some write.content) (w.files write.path) false) :
    Ends g (fun r _ t => match r with
      | .ok _ => write.At w t (some write.content) none (w.files write.path) true
      | .error e => write.Ending g w (.error e) t)
      (catching (perform (.replace write)) fun err => do
        perform (.putBack write)
        raise err) l s := by
  have hframe : write.Frame w s := hat.others
  have hbackup : (s.files .backup).isSome := by
    rw [hat.backup]
    exact hold
  refine meets_catching (meets_replace hat) (fun a l' t ht => ht) ?_
  rintro e l' t ⟨hfails, hmissing, hcases, -⟩
  rcases hcases with hat | ⟨htorn, ⟨fault, hg⟩, hat⟩
  · refine meets_bind (meets_putBack hat hold) ?_ ?_
    · intro a l'' t hback
      have hended : write.Ended w t (w.files write.path) false := ⟨_, _, hback⟩
      exact meets_raise ⟨hfails, Not.elim hmissing, .inl hended⟩
    · rintro e' l'' t ⟨hfails, hmissing, hback | ⟨hlost, hback⟩⟩
      · exact ⟨hfails, Not.elim hmissing, .inl ⟨_, _, hback⟩⟩
      · exact ⟨hfails, Not.elim hmissing, .inr (.inl ⟨hlost rfl, _, _, hback⟩)⟩
  · have hreverted : write.Reverted g w := ⟨fault, s, hframe, hbackup, hg⟩
    refine meets_bind (meets_putBack hat hold) ?_ ?_
    · intro a l'' t hback
      have hended : write.Ended w t (w.files write.path) true := ⟨_, _, hback⟩
      exact meets_raise ⟨hfails, Not.elim hmissing,
        .inr (.inr (.inr ⟨htorn, hreverted, hended⟩))⟩
    · rintro e' l'' t ⟨hfails, hmissing, hback | ⟨-, hback⟩⟩
      · exact ⟨hfails, Not.elim hmissing,
          .inr (.inr (.inr ⟨htorn, hreverted, _, _, hback⟩))⟩
      · exact ⟨hfails, Not.elim hmissing, .inr (.inr (.inl ⟨htorn, .inl ⟨_, _, hback⟩⟩))⟩

/-- The second rename when the first one took effect: there is no temporary file any more, and the
new content is put back. -/
lemma meets_replaceMissing (hrefused : write.Refused g w) (htorn : write.Torn g w)
    (hat : write.At w s none none (some write.content) true) :
    Ends g (fun r _ t => match r with
      | .ok _ => False
      | .error e => write.Ending g w (.error e) t)
      (catching (perform (.replace write)) fun err => do
        perform (.putBack write)
        raise err) l s := by
  have hreplace : Ends g (fun r _ t =>
      write.At w t none none (some write.content) true ∧ ∃ e, r = .error e ∧ write.Fails g w)
      (perform (.replace write)) l s := by
    refine meets_step fun x r t hg hexec => ?_
    rcases attemptOn_cases hexec with ⟨-, -, rfl, rfl⟩ | ⟨fault, -, rfl, rfl⟩ | ⟨hsome, -⟩ |
      ⟨hsome, -⟩
    · exact ⟨hat, _, rfl, fails_of_exec rfl hat.others hg hexec⟩
    · exact ⟨hat, _, rfl, fails_of_exec rfl hat.others hg hexec⟩
    · rw [hat.temporary] at hsome
      cases hsome
    · rw [hat.temporary] at hsome
      cases hsome
  refine meets_catching hreplace ?_ ?_
  · rintro a l' t ⟨-, e, he, -⟩
    cases he
  rintro e l' t ⟨hat, -, -, hfails⟩
  refine meets_bind (meets_putBack hat rfl) ?_ ?_
  · intro a l'' t hback
    have hended : write.Ended w t (some write.content) true := ⟨_, _, hback⟩
    exact meets_raise ⟨hfails, fun _ => hrefused, .inr (.inr (.inl ⟨htorn, .inl hended⟩))⟩
  · rintro e' l'' t ⟨hfails, -, hback | ⟨hlost, hback⟩⟩
    · exact ⟨hfails, fun _ => hrefused, .inr (.inr (.inl ⟨htorn, .inl ⟨_, _, hback⟩⟩))⟩
    · exact ⟨hfails, fun _ => hrefused, .inr (.inr (.inl ⟨htorn, .inr ⟨hlost rfl, _, _, hback⟩⟩))⟩

/-- What is done when the rename was refused and did not take effect. -/
lemma meets_replaceAside (hrefused : write.Refused g w)
    (hat : write.At w s (w.files write.path) (some write.content) none false) :
    Ends g (fun r _ t => write.Ending g w r t)
      (atomicWrite.replaceAside write (.refused text)) l s := by
  refine meets_bind (meets_setAside hat) ?_ ?_
  · rintro a l' t ⟨hold, haside⟩
    refine meets_bind (meets_replaceAgain hold haside) ?_ ?_
    · intro a l2 t hplaced
      refine (meets_removeBackup hplaced).weaken ?_
      rintro (e | a) l3 t hremoved
      · obtain ⟨hfails, hmissing, htorn, hended⟩ := hremoved
        exact ⟨hfails, Not.elim hmissing, .inr (.inr (.inl ⟨htorn, .inl hended⟩))⟩
      · exact hremoved
    · exact fun e l'' t hending => hending
  · rintro e l' t ⟨hfails, haside | ⟨hlost, haside⟩⟩
    · exact ⟨hfails, fun _ => hrefused, .inl ⟨_, _, haside⟩⟩
    · exact ⟨hfails, fun _ => hrefused, .inr (.inl ⟨hlost, _, _, haside⟩)⟩

/-- What is done when the rename was refused although it took effect. -/
lemma meets_replaceAside_torn (hrefused : write.Refused g w) (htorn : write.Torn g w)
    (hat : write.At w s (some write.content) none none true) :
    Ends g (fun r _ t => write.Ending g w r t)
      (atomicWrite.replaceAside write (.refused text)) l s := by
  refine meets_bind (meets_setAside hat) ?_ ?_
  · rintro a l' t ⟨-, haside⟩
    exact meets_bind (meets_replaceMissing hrefused htorn haside) (fun a l'' t h => h.elim)
      fun e l'' t hending => hending
  · rintro e l' t ⟨hfails, haside | ⟨hlost, haside⟩⟩
    · exact ⟨hfails, fun _ => hrefused, .inr (.inr (.inl ⟨htorn, .inl ⟨_, _, haside⟩⟩))⟩
    · exact ⟨hfails, fun _ => hrefused, .inr (.inr (.inl ⟨htorn, .inr ⟨hlost, _, _, haside⟩⟩))⟩

/-- What is done when the rename threw. -/
lemma meets_replaceAside_of_failed {e : Failure} (hfails : write.Fails g w)
    (hmissing : e ≠ .missing) (hrefused : ∀ text, e = .refused text → write.Refused g w)
    (hat : write.At w s (w.files write.path) (some write.content) none false ∨
      (write.Torn g w ∧ write.At w s (some write.content) none none true)) :
    Ends g (fun r _ t => write.Ending g w r t)
      (atomicWrite.replaceAside write e) l s := by
  have hraise : write.Ending g w (.error e) s := by
    rcases hat with hat | ⟨htorn, hat⟩
    · exact ⟨hfails, Not.elim hmissing, .inl ⟨_, _, hat⟩⟩
    · exact ⟨hfails, Not.elim hmissing, .inr (.inr (.inl ⟨htorn, .inl ⟨_, _, hat⟩⟩))⟩
  cases e with
  | refused text =>
    rcases hat with hat | ⟨htorn, hat⟩
    · exact meets_replaceAside (hrefused text rfl) hat
    · exact meets_replaceAside_torn (hrefused text rfl) htorn hat
  | missing => exact absurd rfl hmissing
  | other text => exact meets_raise hraise
  | rejected text => exact meets_raise hraise
  | aggregate text => exact meets_raise hraise

/-- The rename, with the second attempt. -/
lemma meets_rename (hat : write.At w s (w.files write.path) (some write.content) none false) :
    Ends g (fun r _ t => write.Ending g w r t)
      (catching (perform (.replace write)) fun err => atomicWrite.replaceAside write err) l s := by
  refine meets_catching (meets_replace hat) ?_ ?_
  · exact fun a l' t hplaced => ⟨_, _, hplaced⟩
  · rintro e l' t ⟨hfails, hmissing, hcases, hrefused⟩
    refine meets_replaceAside_of_failed hfails hmissing hrefused ?_
    rcases hcases with hat | ⟨htorn, -, hat⟩
    · exact .inl hat
    · exact .inr ⟨htorn, hat⟩

end Aside

/-! ## The whole write -/

section Whole

variable {g : Guard} {ℓ : Type} {l : ℓ} {write : Write} {w s t : World}
  {r : Except Failure Unit} {x : Choice} {c : Cmd} {e : Failure} {done : World} {recorded : Bool}

/-- A step that leaves the file alone keeps how the write ended. -/
lemma Write.Ending.keep (h : write.Ending g w r s)
    (hkeep : ∀ file recorded, write.Ended w s file recorded → write.Ended w t file recorded) :
    write.Ending g w r t := by
  cases r with
  | ok u => exact hkeep _ _ h
  | error e =>
    obtain ⟨hfails, hmissing, hcases⟩ := h
    refine ⟨hfails, hmissing, ?_⟩
    rcases hcases with h | ⟨hlost, h⟩ | ⟨htorn, h | ⟨hlost, h⟩⟩ | ⟨htorn, hreverted, h⟩
    · exact .inl (hkeep _ _ h)
    · exact .inr (.inl ⟨hlost, hkeep _ _ h⟩)
    · exact .inr (.inr (.inl ⟨htorn, .inl (hkeep _ _ h)⟩))
    · exact .inr (.inr (.inl ⟨htorn, .inr ⟨hlost, hkeep _ _ h⟩⟩))
    · exact .inr (.inr (.inr ⟨htorn, hreverted, hkeep _ _ h⟩))

/-- A write leaves the old content, nothing, or the new content. -/
lemma Write.Ending.ended (h : write.Ending g w r s) :
    ∃ file recorded, write.Ended w s file recorded ∧
      (file = w.files write.path ∨ file = none ∨ file = some write.content) := by
  cases r with
  | ok u => exact ⟨_, _, h, .inr (.inr rfl)⟩
  | error e =>
    rcases h.2.2 with h | ⟨-, h⟩ | ⟨-, h | ⟨-, h⟩⟩ | ⟨-, -, h⟩
    · exact ⟨_, _, h, .inl rfl⟩
    · exact ⟨_, _, h, .inr (.inl rfl)⟩
    · exact ⟨_, _, h, .inr (.inr rfl)⟩
    · exact ⟨_, _, h, .inr (.inl rfl)⟩
    · exact ⟨_, _, h, .inl rfl⟩

/-- A write touches no other files. -/
lemma Write.Ending.frame (h : write.Ending g w r s) : write.Frame w s := by
  obtain ⟨file, recorded, ⟨temporary, backup, hat⟩, -⟩ := h.ended
  exact hat.others

/-- What a write leaves in its file. -/
lemma Write.Ending.file (h : write.Ending g w r s) :
    s.files write.path = w.files write.path ∨ s.files write.path = none ∨
      s.files write.path = some write.content := by
  obtain ⟨file, recorded, ⟨temporary, backup, hat⟩, hfile⟩ := h.ended
  rw [hat.file]
  exact hfile

/-- A write to the journal activates nothing. -/
lemma Write.Ending.activations {record : Transaction} (h : (Write.journal record).Ending g w r s) :
    s.activations = w.activations := by
  obtain ⟨file, recorded, ⟨temporary, backup, hat⟩, -⟩ := h.ended
  rw [hat.activations]
  split <;> rfl

/-- A later step that fails replaces the outcome. -/
lemma Write.Ending.fail (h : write.Ending g w r t) (hwrite : c.write? = some write)
    (hframe : write.Frame w s) (hg : g x c s) (hexec : exec x c s = some (.error e, t))
    (hmissing : e ≠ .missing) : write.Ending g w (.error e) t := by
  have hfails := fails_of_exec hwrite hframe hg hexec
  cases r with
  | ok u =>
    exact ⟨hfails, Not.elim hmissing,
      .inr (.inr (.inl ⟨torn_of_ended hwrite hframe hg hexec h, .inl h⟩))⟩
  | error e' => exact ⟨hfails, Not.elim hmissing, h.2.2⟩

/-- A step of the write that leaves the file alone. -/
lemma Write.Ending.step {r' : Except Failure Unit} (h : write.Ending g w r s)
    (hdone : ∀ file recorded, write.Ended w s file recorded → write.Ended w done file recorded)
    (hwrite : c.write? = some write) (hg : g x c s) (hattempt : attempt x done s = some (r', t))
    (hexec : ∀ e, r' = .error e → exec x c s = some (.error e, t)) :
    write.Ending g w (Routine.settle r (r', l)).1 t := by
  have hkeep : ∀ file recorded, write.Ended w s file recorded → write.Ended w t file recorded :=
    fun file recorded hs => (ended_of_attempt hattempt hs (hdone file recorded hs)).1
  have hmissing : ∀ e, r' = .error e → e ≠ .missing := by
    intro e he
    rcases attempt_cases hattempt with ⟨-, rfl, -⟩ | ⟨fault, -, rfl, -⟩ | ⟨fault, -, rfl, -⟩
    · cases he
    · cases he
      exact failure_ne_missing fault
    · cases he
      exact failure_ne_missing fault
  cases r' with
  | ok u => exact h.keep hkeep
  | error e => exact (h.keep hkeep).fail hwrite h.frame hg (hexec e rfl) (hmissing e rfl)

lemma Write.Ended.putTemporary {file : Option Content} (h : write.Ended w s file recorded)
    (content : Option Content) : write.Ended w (s.put .temporary content) file recorded := by
  obtain ⟨temporary, backup, hat⟩ := h
  exact ⟨_, _, hat.putTemporary content⟩

lemma Write.Ended.putBackup {file : Option Content} (h : write.Ended w s file recorded)
    (content : Option Content) : write.Ended w (s.put .backup content) file recorded := by
  obtain ⟨temporary, backup, hat⟩ := h
  exact ⟨_, _, hat.putBackup content⟩

/-- The leftovers are removed whatever happened. -/
lemma meets_cleanup (h : write.Ending g w r s) :
    Ends g (fun r' l' t => write.Ending g w (Routine.settle r (r', l')).1 t)
      (do
        perform (.removeTemporary write)
        perform (.removeBackup write)) l s := by
  have htemporary : Ends g (fun r' l' t => write.Ending g w (Routine.settle r (r', l')).1 t)
      (perform (.removeTemporary write)) l s := by
    refine meets_step (c := .removeTemporary write) fun x r' t hg hexec => ?_
    exact h.step (fun file recorded hs => hs.putTemporary none) rfl hg hexec fun _ he => he ▸ hexec
  refine meets_bind htemporary ?_ ?_
  · intro a l' t hending
    refine meets_step (c := .removeBackup write) fun x r' t' hg hexec => ?_
    exact hending.step (fun file recorded hs => hs.putBackup none) rfl hg hexec
      fun _ he => he ▸ hexec
  · exact fun e l' t hending => hending

/-- A step before the rename that fails leaves the file as it was. -/
lemma ending_of_early (hwrite : c.write? = some write) (hframe : write.Frame w s) (hg : g x c s)
    (hexec : exec x c s = some (.error e, t)) (hmissing : e ≠ .missing)
    (hended : write.Ended w t (w.files write.path) false) : write.Ending g w (.error e) t :=
  ⟨fails_of_exec hwrite hframe hg hexec, Not.elim hmissing, .inl hended⟩

/-- What the steps before the rename can lead to: the temporary file is ready, or the write is
over. -/
def Write.Filling (g : Choice → Cmd → World → Prop) (write : Write) (w : World) :
    Except Failure Unit → World → Prop
  | .ok (), t => write.At w t (w.files write.path) (some write.content) none false
  | .error e, t => write.Ending g w (.error e) t

/-- A step before the rename that may change the temporary file. -/
lemma filling_of_attempt {temporary backup : Option Content}
    (hat : write.At w s (w.files write.path) temporary backup false)
    (hdone : write.At w done (w.files write.path) (some write.content) none false)
    (hwrite : c.write? = some write) (hg : g x c s) (hattempt : attempt x done s = some (r, t))
    (hexec : ∀ e, r = .error e → exec x c s = some (.error e, t)) : write.Filling g w r t := by
  rcases attempt_cases hattempt with ⟨-, rfl, rfl⟩ | ⟨fault, -, rfl, rfl⟩ | ⟨fault, -, rfl, rfl⟩
  · exact hdone
  · exact ending_of_early hwrite hat.others hg (hexec _ rfl) (failure_ne_missing fault) ⟨_, _, hat⟩
  · exact ending_of_early hwrite hat.others hg (hexec _ rfl) (failure_ne_missing fault)
      ⟨_, _, hdone⟩

/-- The temporary file is filled and closed. -/
lemma meets_fillTemporary (hat : write.At w s (w.files write.path) (some .other) none false) :
    Ends g (fun r _ t => write.Filling g w r t)
      (lastly (do
          perform (.fill write)
          perform (.temporary write .sync))
        (perform (.temporary write .close))) l s := by
  have hfill : Ends g (fun r _ t => write.Filling g w r t) (perform (.fill write)) l s := by
    refine meets_step (c := .fill write) fun x r t hg hexec => ?_
    exact filling_of_attempt hat (hat.putTemporary _) rfl hg hexec fun _ he => he ▸ hexec
  have hsync : Ends g (fun r _ t => write.Filling g w r t) (do
        perform (.fill write)
        perform (.temporary write .sync)) l s := by
    refine meets_bind hfill ?_ ?_
    · intro a l' t hfilled
      refine meets_step (c := .temporary write .sync) fun x r t' hg hexec => ?_
      exact filling_of_attempt hfilled hfilled rfl hg hexec fun _ he => he ▸ hexec
    · exact fun e l' t hending => hending
  refine meets_lastly hsync ?_
  intro r l' t hfilled
  refine meets_step (c := .temporary write .close) fun x r' t' hg hexec => ?_
  cases r with
  | ok a =>
    have hclose : write.Filling g w r' t' := by
      exact filling_of_attempt hfilled hfilled rfl hg hexec fun _ he => he ▸ hexec
    cases r' with
    | ok u => exact hclose
    | error e => exact hclose
  | error e =>
    have hending : write.Ending g w (.error e) t := hfilled
    have hclose : write.Ending g w (Routine.settle (.error e) (r', l')).1 t' := by
      exact hending.step (fun file recorded hs => hs) rfl hg hexec fun _ he => he ▸ hexec
    cases r' with
    | ok u => exact hclose
    | error e' => exact hclose

/-- An atomic write has no variables. -/
lemma steady_atomicWrite {γ : Type} {aspect : ℓ → γ} (write : Write) :
    Routine.Steady aspect (atomicWrite write) := by
  have haside : ∀ e, Routine.Steady aspect (atomicWrite.replaceAside write e) := by
    intro e
    cases e with
    | refused text =>
      exact (steady_perform _).bind fun _ => ((steady_perform _).catching fun _ =>
        (steady_perform _).bind fun _ => steady_raise _).bind fun _ => steady_perform _
    | _ => exact steady_raise _
  refine (steady_perform _).bind fun _ => (steady_perform _).bind fun _ => Routine.Steady.bind ?_
    fun _ => (steady_perform _).bind fun _ => ?_
  · exact ((steady_perform _).bind fun _ => steady_perform _).lastly (steady_perform _)
  · exact (((steady_perform _).catching haside).bind fun _ => steady_perform _).lastly
      ((steady_perform _).bind fun _ => steady_perform _)

/-- Everything an atomic write can do. -/
theorem meets_atomicWrite (write : Write) (w : World) :
    Ends g (fun r l' t => l' = l ∧ write.Ending g w r t)
      (atomicWrite write) l w := by
  refine (steady_atomicWrite write).meets.both ?_
  have hstart := Write.At.start write w
  have hmkdir : Ends g (fun r _ t => t = w ∧ ∀ e, r = .error e → write.Ending g w (.error e) t)
      (perform (.temporary write .mkdir)) l w := by
    refine meets_step fun x r t hg hexec => ?_
    rcases attempt_cases hexec with ⟨-, rfl, rfl⟩ | ⟨fault, -, rfl, rfl⟩ | ⟨fault, -, rfl, rfl⟩
    · exact ⟨rfl, nofun⟩
    all_goals
      refine ⟨rfl, fun e he => ?_⟩
      cases he
      exact ending_of_early rfl hstart.others hg hexec (failure_ne_missing fault) ⟨_, _, hstart⟩
  refine meets_bind hmkdir ?_ fun e l' t h => h.2 e rfl
  rintro a l' t ⟨rfl, -⟩
  have hcreated := (hstart.putTemporary (some .other)).putBackup none
  have hcreate : Ends g (fun r _ s => match r with
      | .ok _ => write.At t s (t.files write.path) (some .other) none false
      | .error e => write.Ending g t (.error e) s)
      (perform (.create write)) l' t := by
    refine meets_step fun x r s hg hexec => ?_
    rcases attempt_cases hexec with ⟨-, rfl, rfl⟩ | ⟨fault, -, rfl, rfl⟩ | ⟨fault, -, rfl, rfl⟩
    · exact hcreated
    · exact ending_of_early rfl hstart.others hg hexec (failure_ne_missing fault) ⟨_, _, hstart⟩
    · exact ending_of_early rfl hstart.others hg hexec (failure_ne_missing fault) ⟨_, _, hcreated⟩
  refine meets_bind hcreate ?_ ?_
  swap
  · exact fun e l1 s hending => hending
  intro a l1 s hcreated
  refine meets_bind (meets_fillTemporary hcreated) ?_ ?_
  swap
  · exact fun e l2 s hending => hending
  intro a l2 s hfilled
  have hchmod : Ends g (fun r _ s => write.Filling g t r s)
      (perform (.temporary write .chmod)) l2 s := by
    refine meets_step (c := .temporary write .chmod) fun x r s' hg hexec => ?_
    exact filling_of_attempt hfilled hfilled rfl hg hexec fun _ he => he ▸ hexec
  refine meets_bind hchmod ?_ ?_
  swap
  · exact fun e l3 s hending => hending
  intro a l3 s hready
  have hrename : Ends g (fun r _ s => write.Ending g t r s) (do
        catching (perform (.replace write)) fun err => atomicWrite.replaceAside write err
        perform (.sync write)) l3 s := by
    refine meets_bind (meets_rename hready) ?_ ?_
    · intro a l4 s hending
      refine meets_step (c := .sync write) fun x r s' hg hexec => ?_
      have hsync : write.Ending g t (Routine.settle (.ok a) (r, l4)).1 s' := by
        exact hending.step (fun file recorded hs => hs) rfl hg hexec fun _ he => he ▸ hexec
      cases r with
      | ok u => exact hsync
      | error e => exact hsync
    · exact fun e l4 s hending => hending
  refine meets_lastly hrename ?_
  intro r l4 s hending
  exact meets_cleanup hending

end Whole

end AgentBell.Upgrade
