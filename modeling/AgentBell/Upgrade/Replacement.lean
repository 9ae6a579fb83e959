import AgentBell.Upgrade.Writes

/-!
# When a write loses its file

An atomic write leaves the old or the new content in its file, unless the old file is set aside by a
step that throws nevertheless, or cannot be put back while nothing is in its place: the backup is
removed at the end whatever happened.  If the file was there before, these are the only runs that
lose it.
-/

namespace AgentBell.Upgrade

open Interleaving

/-- A step after which a write can still leave the old or the new content. -/
def recovers : Choice → Cmd → World → Bool
  | .failsAfter _, .setAside _, _ => false
  | .failsBefore _, .putBack write, w => (w.files write.path).isSome
  | _, _, _ => true

/-- The file holds the old or the new content, and the new one if the write returned. -/
def Write.Intact (write : Write) (w : World) (r : Except Failure Unit) (t : World) : Prop :=
  (t.files write.path = w.files write.path ∨ t.files write.path = some write.content) ∧
    (r = .ok () → t.files write.path = some write.content)

/-- A write whose steps all recover loses nothing. -/
lemma not_lost_of_recovers (write : Write) (w : World) :
    ¬ write.Lost (fun x c s => recovers x c s = true) w := by
  rintro (⟨fault, s, -, h⟩ | ⟨fault, s, -, hnone, h⟩)
  · cases h
  · simp [recovers, hnone] at h

/-- An atomic write whose steps all recover leaves the old or the new content, and the new one if it
returns. -/
lemma intact_of_recovers {ℓ : Type} {write : Write} {w t : World} {l l' : ℓ} {xs : List Choice}
    {r : Except Failure Unit}
    (hrun : (atomicWrite write l).run (dataRoot.checked recovers) xs w = some ((r, l'), t)) :
    write.Intact w r t := by
  have hguard := Prog.run_guard (fun _ _ _ h => h) hrun
  obtain ⟨-, hending⟩ := (meets_atomicWrite write w).of_run hguard
  have hlost := not_lost_of_recovers write w
  cases r with
  | ok u =>
    obtain ⟨_, _, hat⟩ := hending
    exact ⟨.inr hat.file, fun _ => hat.file⟩
  | error e =>
    refine ⟨?_, nofun⟩
    obtain ⟨-, -, ⟨_, _, hat⟩ | ⟨h, -⟩ | ⟨-, ⟨_, _, hat⟩ | ⟨h, -⟩⟩ | ⟨-, -, _, _, hat⟩⟩ := hending
    · exact .inl hat.file
    · exact absurd h hlost
    · exact .inr hat.file
    · exact absurd h hlost
    · exact .inl hat.file

/-! ## After a step that does not recover -/

/-- Every step recovered, or the file is gone. -/
def Write.Told (write : Write) (s : World × Bool) : Prop :=
  s.2 = true ∨ s.1.files write.path = none

/-- A routine ends so, and if it returns, every step recovered. -/
def Write.Tells {α : Type} (write : Write) (r : Except Failure α) (s : World × Bool) : Prop :=
  write.Told s ∧ ∀ a, r = .ok a → s.2 = true

/-- A command whose steps all recover. -/
def Cmd.Harmless (c : Cmd) : Prop := ∀ x w, recovers x c w = true

section Told

variable {ℓ α : Type} {l : ℓ} {write : Write} {s : World × Bool}

lemma tells_of_noted {r : Except Failure α} (h : s.2 = true) : write.Tells r s :=
  ⟨.inl h, fun _ _ => h⟩

lemma tells_error {e : Failure} (h : write.Told s) : write.Tells (.error e : Except Failure α) s :=
  ⟨h, fun _ h => by cases h⟩

lemma noted_perform (c : Cmd) (hc : c.Harmless) (hs : s.2 = true) :
    Meets (dataRoot.noting recovers) (fun _ _ t => t.2 = true) (perform c) l s := by
  refine meets_perform fun x r t hexec => ?_
  obtain ⟨-, hnote⟩ := Machine.noting_exec.mp hexec
  rw [hnote, hs, hc x s.1]
  rfl

lemma tells_setAside (hs : s.2 = true) :
    Meets (dataRoot.noting recovers) (fun r _ t => write.Tells r t)
      (perform (.setAside write)) l s := by
  refine meets_perform fun x r t hexec => ?_
  obtain ⟨hstep, hnote⟩ := Machine.noting_exec.mp hexec
  rw [hs] at hnote
  cases x with
  | failsAfter fault =>
    have hattempt : attemptOn (.failsAfter fault) write.path (s.1.move write.path .backup) s.1 =
        some (r, t.1) := hstep
    rcases attemptOn_cases hattempt with ⟨-, h, -⟩ | ⟨_, h, -⟩ | ⟨-, h, -⟩ | ⟨-, _, -, hr, ht⟩
    · cases h
    · cases h
    · cases h
    · rw [hr]
      refine tells_error (.inr ?_)
      rw [ht, World.move, files_put_self]
  | _ => exact tells_of_noted hnote

lemma told_putBack (hs : s.2 = true) :
    Meets (dataRoot.noting recovers) (fun _ _ t => write.Told t) (perform (.putBack write)) l
      s := by
  refine meets_perform fun x r t hexec => ?_
  obtain ⟨hstep, hnote⟩ := Machine.noting_exec.mp hexec
  rw [hs] at hnote
  cases x with
  | failsBefore fault =>
    cases hfile : s.1.files write.path with
    | some content => exact .inl (by simpa [recovers, hfile] using hnote)
    | none =>
      have hattempt : attemptOn (.failsBefore fault) .backup (s.1.move .backup write.path) s.1 =
          some (r, t.1) := hstep
      rcases attemptOn_cases hattempt with ⟨-, h, -⟩ | ⟨_, -, -, ht⟩ | ⟨-, h, -⟩ | ⟨-, _, h, -⟩
      · cases h
      · exact .inr (by rw [ht, hfile])
      · cases h
      · cases h
  | _ => exact .inl hnote

/-- If the rename throws, every step of the fallback recovers or the file is gone. -/
lemma tells_replaceAside (e : Failure) (hs : s.2 = true) :
    Meets (dataRoot.noting recovers) (fun r _ t => write.Tells r t)
      (atomicWrite.replaceAside write e) l s := by
  cases e with
  | refused text =>
    refine meets_bind (tells_setAside hs) (fun _ l1 s1 h1 => ?_) fun _ _ _ h => tells_error h.1
    have hagain : Meets (dataRoot.noting recovers) (fun r _ t => write.Tells r t)
        (Routine.catching (perform (.replace write)) fun err => do
          perform (.putBack write)
          Routine.raise err) l1 s1 := by
      refine meets_catching (noted_perform (.replace write) (fun x _ => by cases x <;> rfl)
        (h1.2 _ rfl)) (fun _ _ _ h2 => tells_of_noted h2) fun err l2 s2 h2 => ?_
      exact meets_bind (told_putBack h2) (fun _ _ _ h3 => meets_raise (tells_error h3))
        fun _ _ _ h3 => tells_error h3
    refine meets_bind hagain (fun _ l2 s2 h2 => ?_) fun _ _ _ h => tells_error h.1
    exact (noted_perform (.removeBackup write) (fun x _ => by cases x <;> rfl)
      (h2.2 _ rfl)).weaken fun _ _ _ h => tells_of_noted h
  | _ => exact meets_raise (tells_error (.inl hs))

lemma told_perform (c : Cmd) (hc : c.Harmless) (hpath : write.path ∉ c.touched)
    (hs : write.Told s) :
    Meets (dataRoot.noting recovers) (fun _ _ t => write.Told t) (perform c) l s := by
  refine meets_perform fun x r t hexec => ?_
  obtain ⟨hstep, hnote⟩ := Machine.noting_exec.mp hexec
  rcases hs with htrue | hnone
  · exact .inl (by rw [hnote, htrue, hc x s.1]; rfl)
  · exact .inr (((agree_of_exec hstep).files _ hpath).trans hnone)

/-- After an atomic write every step recovered or the file is gone. -/
lemma told_atomicWrite (hs : s.2 = true) :
    Meets (dataRoot.noting recovers) (fun _ _ t => write.Told t) (atomicWrite write) l s := by
  refine meets_bind (noted_perform (.temporary write .mkdir) (fun x _ => by cases x <;> rfl) hs)
    (fun _ l1 s1 h1 => ?_) fun _ _ _ h => .inl h
  refine meets_bind (noted_perform (.create write) (fun x _ => by cases x <;> rfl) h1)
    (fun _ l2 s2 h2 => ?_) fun _ _ _ h => .inl h
  have hfill : Meets (dataRoot.noting recovers) (fun _ _ t => t.2 = true) (Routine.lastly (do
      perform (.fill write)
      perform (.temporary write .sync)) (perform (.temporary write .close))) l2 s2 := by
    refine meets_lastly (meets_bind (noted_perform (.fill write) (fun x _ => by cases x <;> rfl) h2)
      (fun _ _ _ h => noted_perform (.temporary write .sync) (fun x _ => by cases x <;> rfl) h)
      fun _ _ _ h => h) fun _ _ _ h => ?_
    exact noted_perform (.temporary write .close) (fun x _ => by cases x <;> rfl) h
  refine meets_bind hfill (fun _ l3 s3 h3 => ?_) fun _ _ _ h => .inl h
  refine meets_bind (noted_perform (.temporary write .chmod) (fun x _ => by cases x <;> rfl) h3)
    (fun _ l4 s4 h4 => ?_) fun _ _ _ h => .inl h
  have hrename : Meets (dataRoot.noting recovers) (fun _ _ t => write.Told t) (do
      Routine.catching (perform (.replace write)) fun err => atomicWrite.replaceAside write err
      perform (.sync write)) l4 s4 := by
    refine meets_bind (meets_catching (noted_perform (.replace write)
      (fun x _ => by cases x <;> rfl) h4) (fun _ _ _ h => tells_of_noted h)
      fun e _ _ h => tells_replaceAside e h) (fun _ l5 s5 h5 => ?_) fun _ _ _ h => h.1
    exact told_perform (.sync write) (fun x _ => by cases x <;> rfl) (by simp [Cmd.touched]) h5.1
  refine meets_lastly hrename fun _ l5 s5 h5 => meets_bind (told_perform (.removeTemporary write)
    (fun x _ => by cases x <;> rfl) (by simp [Cmd.touched, path_ne_temporary]) h5)
    (fun _ l6 s6 h6 => ?_) fun _ _ _ h => h
  exact told_perform (.removeBackup write) (fun x _ => by cases x <;> rfl)
    (by simp [Cmd.touched, path_ne_backup]) h6

end Told

/-- An atomic write whose steps all recover leaves the old or the new content, whatever else fails,
and the new one if it returns; and if there was a file, no other run does. -/
theorem atomicWrite_intact {ℓ : Type} (write : Write) (w : World) (l l' : ℓ) (xs : List Choice)
    (r : Except Failure Unit) (t : World)
    (hrun : (atomicWrite write l).run dataRoot xs w = some ((r, l'), t)) :
    ((atomicWrite write l).run (dataRoot.checked recovers) xs w = some ((r, l'), t) →
      write.Intact w r t) ∧
    ((w.files write.path).isSome → write.Intact w r t →
      (atomicWrite write l).run (dataRoot.checked recovers) xs w = some ((r, l'), t)) := by
  refine ⟨intact_of_recovers, fun hsome hintact => ?_⟩
  obtain ⟨note, hnoting, hpassed⟩ := Prog.exists_run_noting recovers true hrun
  have htold : write.Told (t, note) := (told_atomicWrite rfl).of_run hnoting
  rcases htold with hnote | hnone
  · exact (hpassed hnote).2
  · rcases hintact.1 with hold | hnew
    · rw [← hold, hnone] at hsome
      cases hsome
    · cases hnone.symm.trans hnew

/-! ## Sample runs -/

/-- A bridge is replaced. -/
def bridgeWrite : Write := .bridge (.bytes [1])

/-- The old bridge. -/
def bridgeRoot : World where
  files := fun path => if path = .bridge then some (.bytes [0]) else none

/-- The rename is refused, the old bridge is set aside, and the second rename fails. -/
def asideRun (back : Choice) : List Choice :=
  List.replicate 6 .works ++ [.failsBefore ⟨true, "EPERM"⟩, .works, .failsBefore ⟨true, "EPERM"⟩,
    back, .works, .works]

lemma asideRun_loses : ((atomicWrite bridgeWrite ()).run dataRoot
    (asideRun (.failsBefore ⟨true, "EPERM"⟩)) bridgeRoot).any
      (fun o => (o.2.files .bridge).isNone) = true := by
  decide +kernel

/-- A bridge that was there is missing after a write that could not put it back. -/
theorem bridge_lost : ∃ r l t, (atomicWrite bridgeWrite ()).run dataRoot
    (asideRun (.failsBefore ⟨true, "EPERM"⟩)) bridgeRoot = some ((r, l), t) ∧
      bridgeRoot.files .bridge = some (.bytes [0]) ∧ ¬ bridgeWrite.Intact bridgeRoot r t := by
  obtain ⟨⟨⟨r, l⟩, t⟩, hrun, hnone⟩ := (Option.any_eq_true _ _).mp asideRun_loses
  refine ⟨r, l, t, hrun, rfl, fun h => ?_⟩
  have hmissing : t.files .bridge = none := Option.isNone_iff_eq_none.mp hnone
  rcases h.1 with hold | hnew
  · cases hmissing.symm.trans hold
  · cases hmissing.symm.trans hnew

lemma asideRun_keeps : ((atomicWrite bridgeWrite ()).run dataRoot (asideRun .works)
    bridgeRoot).any (fun o => o.2.files .bridge = some (.bytes [0]) ∧ ¬ o.1.1.isOk) = true := by
  decide +kernel

/-- A bridge that is put back is there after a write that failed. -/
theorem bridge_kept : ∃ r l t, (atomicWrite bridgeWrite ()).run dataRoot (asideRun .works)
      bridgeRoot = some ((r, l), t) ∧ bridgeWrite.Intact bridgeRoot r t ∧
        (atomicWrite bridgeWrite ()).run (dataRoot.checked recovers) (asideRun .works)
          bridgeRoot = some ((r, l), t) := by
  obtain ⟨⟨⟨r, l⟩, t⟩, hrun, hkept⟩ := (Option.any_eq_true _ _).mp asideRun_keeps
  obtain ⟨hfile, hfailed⟩ := of_decide_eq_true hkept
  have hintact : bridgeWrite.Intact bridgeRoot r t := by
    refine ⟨.inl hfile, ?_⟩
    rintro rfl
    exact absurd rfl hfailed
  exact ⟨r, l, t, hrun, hintact,
    (atomicWrite_intact bridgeWrite bridgeRoot () l _ r t hrun).2 rfl hintact⟩

end AgentBell.Upgrade
