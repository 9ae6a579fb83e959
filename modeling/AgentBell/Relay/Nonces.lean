import AgentBell.Relay.Replay

/-!
# Processes that share a nonce store

Any number of processes offer one nonce of one peer to `NonceStore.Accept` and run
`NonceStore.Cleanup` on the same directory.  The store counts the `Accept` calls that returned
`true`.

An expired record is read, removed by its path and published anew, so a process that judged a
record expired may remove the record another process has published since.  As long as no removal
hits a record that has not expired, at most one offer within a retention succeeds
(`nonce_accepted_once`).
-/

namespace AgentBell.Relay

open Interleaving

/-! ## Calls on the nonce store -/

/-- A nonce of a peer, and the store it is offered to. -/
structure Offer where
  primitives : Primitives
  fuel : Nat
  retention : Duration
  peerID : String
  nonce : String

/-- The path of the record of the nonce. -/
def Offer.path (U : Offer) : String := noncePath U.primitives U.peerID U.nonce

/-- A call on the nonce store: the nonce is offered, or expired records are removed. -/
inductive NonceCall where
  | accept (now : Time)
  | cleanup (now : Time)

/-- The time a call is made with. -/
def NonceCall.now : NonceCall → Time
  | .accept now => now
  | .cleanup now => now

/-- One step of a call: a command on the state directory, or the answer that the nonce is
accepted. -/
inductive NonceCmd where
  | directory (c : Cmd)
  | accepted

/-- The replies of the steps. -/
@[reducible] def NonceReply : NonceCmd → Type
  | .directory c => Reply c
  | .accepted => Unit

/-- The state directory, and how many calls of `Accept` returned `true`. -/
structure NonceWorld where
  store : Store := {}
  accepted : Nat := 0

/-- The machine of the steps. -/
def nonceMachine : Machine NonceCmd NonceReply NonceWorld Choice where
  exec x c w :=
    match c with
    | .directory c => (exec x c w.store).map fun o => (o.1, { w with store := o.2 })
    | .accepted => some ((), { w with accepted := w.accepted + 1 })

/-- A program over the steps. -/
abbrev NonceProg := Prog NonceCmd NonceReply

/-- The return of `true`. -/
def report : NonceProg Unit := .cmd .accepted .ret

/-- The return of a call of `Accept`. -/
def answerOffer : Except IngressError Bool → NonceProg Unit
  | .ok true => report
  | _ => .ret ()

/-- A program of the state directory as part of a call. -/
def onDirectory {α : Type} (p : IngressProg α) : NonceProg α :=
  p.embed .directory fun _ r => r

/-- The program of a call. -/
def Offer.body (U : Offer) : NonceCall → NonceProg Unit
  | .accept now =>
    (onDirectory (acceptNonce U.primitives U.fuel U.retention U.peerID U.nonce now)).bind
      answerOffer
  | .cleanup now => (onDirectory (cleanup U.retention now)).bind fun _ => .ret ()

/-- Any number of processes on one nonce store. -/
def nonceUsers (U : Offer) : Protocol NonceCmd NonceReply NonceWorld Choice NonceCall Unit Nat where
  machine := nonceMachine
  may := fun _ _ _ _ => true
  body := fun _ k _ => U.body k
  fresh := ()

/-- A configuration of the processes on a nonce store. -/
abbrev NonceConfig := Config NonceCmd NonceReply NonceWorld NonceCall Unit Nat

/-- A state directory before any process starts. -/
def nonceStart (s : Store) : NonceConfig := { store := { store := s }, procs := fun _ => none }

/-! ## At most one offer succeeds -/

/-- Every call is made within one retention from a first moment on. -/
def CallsWithin (U : Offer) (first : Time) (e : Event NonceCall Choice Nat) (_ : NonceConfig) :
    Prop :=
  ∀ i k, e = .call i k → first ≤ k.now ∧ k.now < first + U.retention

/-- A removal of the record of the nonce finds no record, or one that has expired for the call
that removes it. -/
def RemovesExpired (U : Offer) (e : Event NonceCall Choice Nat) (c : NonceConfig) : Prop :=
  ∀ i x k next, e = .step i x →
    c.procs i = some (.busy k (.cmd (.directory (.removeNonce U.path)) next)) →
    ∀ file, c.store.store.nonces.lookup U.path = some file →
      file.expired U.retention k.now = true

/-- A program that reports success only right after it published its record. -/
inductive Honest (U : Offer) (now : Time) : NonceProg Unit → Prop where
  | returns : Honest U now (.ret ())
  | links (next : LinkResult → NonceProg Unit) (success : next .linked = report)
      (otherwise : ∀ r, r ≠ .linked → Honest U now (next r)) :
      Honest U now (.cmd (.directory
        (.linkNonce U.path ⟨nonceRecordVersion, now, now + U.retention⟩)) next)
  | reads (path : String) (next : Option NonceFile → NonceProg Unit)
      (rest : ∀ r, Honest U now (next r)) : Honest U now (.cmd (.directory (.readNonce path)) next)
  | removes (path : String) (next : Unit → NonceProg Unit) (rest : ∀ r, Honest U now (next r)) :
      Honest U now (.cmd (.directory (.removeNonce path)) next)
  | lists (next : List String → NonceProg Unit) (rest : ∀ r, Honest U now (next r)) :
      Honest U now (.cmd (.directory .listNonces) next)

section Honest

variable {U : Offer} {now : Time}

/-- A reservation reports success only after its record was published. -/
lemma honest_reserveNonce (fuel : Nat) :
    Honest U now ((onDirectory (reserveNonce U.path U.retention now fuel)).bind answerOffer) := by
  induction fuel with
  | zero => exact .returns
  | succ fuel ih =>
    have hagain : ∀ r, Honest U now ((onDirectory ((perform (.removeNonce U.path)).bind fun _ =>
          reserveNonce U.path U.retention now fuel)).bind answerOffer) :=
      fun _ : Unit => .removes U.path _ fun _ => ih
    refine .links _ rfl fun r hr => ?_
    cases r with
    | linked => exact absurd rfl hr
    | failed => exact .returns
    | «exists» =>
      refine .reads U.path _ fun found => ?_
      cases found with
      | none => exact hagain ()
      | some file =>
        by_cases hexpired : file.expired U.retention now = true
        · simp only [Prog.ret_bind, hexpired, if_true]
          exact hagain ()
        · simp only [Prog.ret_bind, hexpired]
          exact .returns

/-- The removal of expired records reports nothing. -/
lemma honest_cleanupNonces (removed : Nat) (paths : List String) :
    Honest U now ((onDirectory (cleanupNonces U.retention now removed paths)).bind
      fun _ => .ret ()) := by
  induction paths generalizing removed with
  | nil => exact .returns
  | cons path paths ih =>
    refine .reads path _ fun found => ?_
    simp only [Prog.ret_bind]
    split_ifs
    · exact .removes path _ fun _ => ih (removed + 1)
    · exact ih removed

/-- Every call reports success only after its record was published. -/
lemma honest_body (k : NonceCall) : Honest U k.now (U.body k) := by
  cases k with
  | accept now =>
    simp only [Offer.body, acceptNonce]
    split
    · exact .returns
    · exact honest_reserveNonce U.fuel
  | cleanup now =>
    simp only [Offer.body, cleanup]
    split
    · exact .returns
    · exact .lists _ fun paths => honest_cleanupNonces 0 paths

end Honest

/-- The record of the nonce is there, and lasts for a retention from a first moment on. -/
def Fresh (U : Offer) (first : Time) (s : Store) : Prop :=
  ∃ file, s.nonces.lookup U.path = some file ∧
    ∀ now, first ≤ now → now < first + U.retention → file.expired U.retention now = false

/-- A process is about to return `true`. -/
def Reports (c : NonceConfig) (i : Nat) : Prop := ∃ k, c.procs i = some (.busy k report)

/-- How far the offers have come: none has succeeded, one is about to return `true`, or one has
returned it.  Once one has succeeded, the record is fresh. -/
inductive Phase (fresh : Prop) (accepted : Nat) (reports : Nat → Prop) : Prop where
  | vacant (none : accepted = 0) (quiet : ∀ i, ¬ reports i)
  | claimed (i : Nat) (lasts : fresh) (none : accepted = 0) (ours : reports i)
      (only : ∀ j, reports j → j = i)
  | settled (lasts : fresh) (one : accepted = 1) (quiet : ∀ i, ¬ reports i)

section Phase

variable {fresh fresh' : Prop} {accepted : Nat} {reports reports' : Nat → Prop} {i : Nat}

lemma Phase.accepted_le (h : Phase fresh accepted reports) : accepted ≤ 1 := by
  cases h with
  | vacant none quiet => omega
  | claimed i lasts none ours only => omega
  | settled lasts one quiet => omega

/-- A process does something else than reporting, and a fresh record stays fresh. -/
lemma Phase.silence (h : Phase fresh accepted reports) (hfresh : fresh → fresh')
    (hreports : ∀ j, reports' j ↔ j ≠ i ∧ reports j) : Phase fresh' accepted reports' := by
  cases h with
  | vacant none quiet => exact .vacant none fun j hj => quiet j ((hreports j).mp hj).2
  | settled lasts one quiet =>
    exact .settled (hfresh lasts) one fun j hj => quiet j ((hreports j).mp hj).2
  | claimed j lasts none ours only =>
    by_cases hji : j = i
    · refine .vacant none fun j' hj' => ?_
      obtain ⟨hne, hreport⟩ := (hreports j').mp hj'
      exact hne ((only j' hreport).trans hji)
    · exact .claimed j (hfresh lasts) none ((hreports j).mpr ⟨hji, ours⟩)
        fun j' hj' => only j' ((hreports j').mp hj').2

/-- A process publishes its record where there was no fresh one. -/
lemma Phase.claim (h : Phase fresh accepted reports) (hstale : ¬ fresh) (hfresh : fresh')
    (hreports : ∀ j, reports' j ↔ j = i ∨ reports j) : Phase fresh' accepted reports' := by
  cases h with
  | vacant none quiet =>
    refine .claimed i hfresh none ((hreports i).mpr (.inl rfl)) fun j hj => ?_
    exact ((hreports j).mp hj).resolve_right (quiet j)
  | claimed j lasts none ours only => exact absurd lasts hstale
  | settled lasts one quiet => exact absurd lasts hstale

/-- A process returns `true`. -/
lemma Phase.settle (h : Phase fresh accepted reports) (hi : reports i)
    (hreports : ∀ j, reports' j ↔ j ≠ i ∧ reports j) : Phase fresh (accepted + 1) reports' := by
  cases h with
  | vacant none quiet => exact absurd hi (quiet i)
  | settled lasts one quiet => exact absurd hi (quiet i)
  | claimed j lasts none ours only =>
    refine .settled lasts (by rw [none]) fun j' hj' => ?_
    obtain ⟨hne, hreport⟩ := (hreports j').mp hj'
    exact hne ((only j' hreport).trans (only i hi).symm)

end Phase

/-- What holds in every run: each busy process is honest or about to return `true`, and the offers
are in one of their phases. -/
structure Once (U : Offer) (first : Time) (c : NonceConfig) : Prop where
  timely : ∀ i k p, c.procs i = some (.busy k p) → first ≤ k.now ∧ k.now < first + U.retention
  honest : ∀ i k p, c.procs i = some (.busy k p) → p = report ∨ Honest U k.now p
  phase : Phase (Fresh U first c.store.store) c.store.accepted (Reports c)

section Once

variable {U : Offer} {first : Time} {c : NonceConfig} {w : NonceWorld} {s t : Store} {i : Nat}
  {x : Choice} {a : Option (Activity NonceCmd NonceReply NonceCall Unit)} {k : NonceCall}
  {p : NonceProg Unit}

/-- A record stays fresh where it is not touched. -/
lemma Fresh.congr (h : Fresh U first s)
    (hsame : t.nonces.lookup U.path = s.nonces.lookup U.path) : Fresh U first t := by
  obtain ⟨file, hfile, hlasts⟩ := h
  exact ⟨file, hsame.trans hfile, hlasts⟩

/-- A record that is published at or after the first moment is fresh. -/
lemma fresh_of_reservation {now : Time} (hnow : first ≤ now)
    (hfile : t.nonces.lookup U.path = some (reservation U.retention now)) : Fresh U first t := by
  refine ⟨_, hfile, fun later _ hlater => ?_⟩
  rw [expired_reservation, decide_eq_false_iff_not]
  have hnow' : (first : Int) ≤ now := hnow
  have hlater' : (later : Int) < first + U.retention := hlater
  exact not_le.mpr (hlater'.trans_le (Int.add_le_add_right hnow' _))

/-- What the publication of a record does. -/
lemma linkNonce_cases {path : String} {record : NonceRecord} {r : LinkResult}
    (h : exec x (.linkNonce path record) s = some (r, t)) : (r ≠ .linked ∧ t = s) ∨
      (r ≠ .exists ∧ path ∉ s.nonces ∧ t = { s with
        nonces := s.nonces.insert path ⟨some record, record.seenAt⟩ }) := by
  obtain ⟨⟨result, files⟩, hlink, heq⟩ := Option.map_eq_some_iff.mp h
  obtain ⟨rfl, rfl⟩ := Prod.mk.inj heq
  unfold link at hlink
  split at hlink
  · split at hlink
    · cases hlink
      exact .inl ⟨nofun, rfl⟩
    · rename_i habsent
      cases hlink
      exact .inr ⟨nofun, habsent, rfl⟩
  · cases hlink
    exact .inl ⟨nofun, rfl⟩
  · split at hlink
    · cases hlink
      exact .inl ⟨nofun, rfl⟩
    · rename_i habsent
      cases hlink
      exact .inr ⟨nofun, habsent, rfl⟩
  · cases hlink

/-- A process that does not report leaves the reports of the others. -/
lemma reports_put_silent (ha : ∀ k, a ≠ some (.busy k report)) (j : Nat) :
    Reports ({ c with store := w }.put i a) j ↔ j ≠ i ∧ Reports c j := by
  unfold Reports
  by_cases hji : j = i
  · rw [hji, Config.put_procs_self]
    exact ⟨fun ⟨k, hk⟩ => absurd hk (ha k), fun h => absurd rfl h.1⟩
  · rw [Config.put_procs_ne _ _ hji]
    exact ⟨fun h => ⟨hji, h⟩, fun h => h.2⟩

/-- A process that is about to return `true` joins the others that are. -/
lemma reports_put_report (j : Nat) :
    Reports ({ c with store := w }.put i (some (.busy k report))) j ↔ j = i ∨ Reports c j := by
  unfold Reports
  by_cases hji : j = i
  · rw [hji, Config.put_procs_self]
    exact ⟨fun _ => .inl rfl, fun _ => ⟨k, rfl⟩⟩
  · rw [Config.put_procs_ne _ _ hji]
    exact ⟨.inr, fun h => h.resolve_left hji⟩

/-- An honest program is not about to return `true`. -/
lemma Honest.ne_report {now : Time} (h : Honest U now p) : p ≠ report := by
  cases h <;> exact nofun

/-- The invariant survives when one process goes on honestly, or reports, and the phases go on. -/
lemma Once.put (h : Once U first c)
    (htimely : ∀ k p, a = some (.busy k p) → first ≤ k.now ∧ k.now < first + U.retention)
    (hhonest : ∀ k p, a = some (.busy k p) → p = report ∨ Honest U k.now p)
    (hphase : Phase (Fresh U first w.store) w.accepted (Reports ({ c with store := w }.put i a))) :
    Once U first ({ c with store := w }.put i a) := by
  refine ⟨fun j k p hj => ?_, fun j k p hj => ?_, hphase⟩
  all_goals
    by_cases hji : j = i
    · rw [hji, Config.put_procs_self] at hj
      first
        | exact htimely k p hj
        | exact hhonest k p hj
    · rw [Config.put_procs_ne _ _ hji] at hj
      first
        | exact h.timely j k p hj
        | exact h.honest j k p hj

/-- A process that rests or is gone does not disturb the invariant. -/
lemma Once.rests (h : Once U first c) (ha : ∀ k p, a ≠ some (.busy k p)) :
    Once U first (c.put i a) :=
  h.put (fun k p hk => absurd hk (ha k p)) (fun k p hk => absurd hk (ha k p))
    (h.phase.silence id (reports_put_silent fun k => ha k report))

/-- A process goes on honestly while a fresh record stays fresh. -/
lemma Once.goesOn (h : Once U first c) (htimely : first ≤ k.now ∧ k.now < first + U.retention)
    (hp : Honest U k.now p) (hfresh : Fresh U first c.store.store → Fresh U first t) :
    Once U first ({ c with store := { c.store with store := t } }.put i (some (.busy k p))) := by
  refine h.put ?_ ?_ (h.phase.silence hfresh (reports_put_silent fun k' => ?_))
  · rintro _ _ ⟨⟩
    exact htimely
  · rintro _ _ ⟨⟩
    exact .inr hp
  · rintro ⟨⟩
    exact hp.ne_report rfl

/-- The invariant survives a command on the state directory. -/
lemma Once.issues (h : Once U first c) {o : Cmd} {next : Reply o → NonceProg Unit} {r : Reply o}
    (hruns : c.procs i = some (.busy k (.cmd (.directory o) next)))
    (hexec : exec x o c.store.store = some (r, t)) (hremoves : RemovesExpired U (.step i x) c) :
    Once U first
      ({ c with store := { c.store with store := t } }.put i (some (.busy k (next r)))) := by
  have htimely := h.timely i k _ hruns
  have hhonest : Honest U k.now (.cmd (.directory o) next) :=
    (h.honest i k _ hruns).resolve_left nofun
  cases hhonest with
  | reads path next rest =>
    obtain ⟨rfl, rfl⟩ := Prod.mk.inj (Option.some.inj hexec)
    exact h.goesOn htimely (rest _) id
  | lists next rest =>
    simp only [exec] at hexec
    split at hexec
    · split at hexec
      · obtain ⟨rfl, rfl⟩ := Prod.mk.inj (Option.some.inj hexec)
        exact h.goesOn htimely (rest _) id
      · cases hexec
    · cases hexec
  | removes path next rest =>
    obtain ⟨-, rfl⟩ := Prod.mk.inj (Option.some.inj hexec)
    refine h.goesOn htimely (rest _) fun hfresh => ?_
    by_cases hpath : path = U.path
    · subst hpath
      obtain ⟨file, hfile, hlasts⟩ := hfresh
      have hexpired := hremoves i x k next rfl hruns file hfile
      rw [hlasts k.now htimely.1 htimely.2] at hexpired
      cases hexpired
    · exact hfresh.congr (AList.lookup_erase_ne (Ne.symm hpath))
  | links next success otherwise =>
    rcases linkNonce_cases hexec with ⟨hr, rfl⟩ | ⟨-, habsent, rfl⟩
    · exact h.goesOn htimely (otherwise r hr) id
    · have hstale : ¬ Fresh U first c.store.store := by
        rintro ⟨file, hfile, -⟩
        exact habsent (AList.lookup_isSome.mp (by rw [hfile]; rfl))
      by_cases hr : r = .linked
      · subst hr
        rw [success]
        refine h.put ?_ ?_ (h.phase.claim hstale
          (fresh_of_reservation htimely.1 (AList.lookup_insert _)) reports_put_report)
        · rintro _ _ ⟨⟩
          exact htimely
        · rintro _ _ ⟨⟩
          exact .inl rfl
      · exact h.goesOn htimely (otherwise r hr) fun hfresh => absurd hfresh hstale

/-- The invariant survives every event of a run in which removals hit expired records only. -/
lemma Once.next {c' : NonceConfig} {e : Event NonceCall Choice Nat} (h : Once U first c)
    (hwithin : CallsWithin U first e c) (hremoves : RemovesExpired U e c)
    (hnext : (nonceUsers U).next e c = some c') : Once U first c' := by
  cases Protocol.effect_of_next hnext with
  | spawned i absent => exact h.rests nofun
  | killed i => exact h.rests nofun
  | returned i x k m done => exact h.rests nofun
  | called i k m rests permitted =>
    exact h.goesOn (hwithin i k rfl) (honest_body k) id
  | issued i x k o next r v runs result =>
    cases o with
    | directory o =>
      obtain ⟨⟨reply, t⟩, hexec, heq⟩ := Option.map_eq_some_iff.mp result
      obtain ⟨rfl, rfl⟩ := Prod.mk.inj heq
      exact h.issues runs hexec hremoves
    | accepted =>
      obtain ⟨rfl, rfl⟩ := Prod.mk.inj (Option.some.inj result)
      have hreport : Prog.cmd .accepted next = report :=
        (h.honest i k _ runs).resolve_right nofun
      have hdone : next () = .ret () := by
        cases hreport
        rfl
      have hours : Reports c i := ⟨k, by rw [runs, hreport]⟩
      have hquiet : ∀ k', some (Activity.busy k (next ())) ≠
          some (.busy k' report : Activity NonceCmd NonceReply NonceCall Unit) := by
        intro k' hk'
        rw [hdone] at hk'
        cases hk'
      refine h.put ?_ ?_ (h.phase.settle hours (reports_put_silent hquiet))
      · rintro _ _ ⟨⟩
        exact h.timely i k _ runs
      · rintro _ _ ⟨⟩
        rw [hdone]
        exact .inr .returns

end Once

/-- Whatever is on disk at the start, in every run of any number of processes that offer the nonce
and clean up within one retention, and whose removals of the record hit expired records only, at
most one offer is accepted. -/
theorem nonce_accepted_once (U : Offer) (first : Time) (s : Store) (c : NonceConfig)
    (h : Reachable (nonceUsers U) (fun e c => CallsWithin U first e c ∧ RemovesExpired U e c)
      (nonceStart s) c) : c.store.accepted ≤ 1 := by
  have hnobody : ∀ i a, (nonceStart s).procs i ≠ some a := by
    intro i a ha
    cases ha
  have hstart : Once U first (nonceStart s) :=
    ⟨fun i k p hi => absurd hi (hnobody i _), fun i k p hi => absurd hi (hnobody i _),
      .vacant rfl fun i ⟨k, hk⟩ => hnobody i _ hk⟩
  have honce : Once U first c :=
    h.invariant (Once U first) hstart fun _ _ _ hc hok hnext => hc.next hok.1 hok.2 hnext
  exact honce.phase.accepted_le

/-! ## Two processes that take over an expired record -/

/-- The nonce of the sample request, offered by its peer. -/
def sampleOffer : Offer where
  primitives := samplePrimitives
  fuel := 2
  retention := minimumNonceRetention
  peerID := samplePeer.id
  nonce := sampleRequest.nonce

/-- A state directory with a record of the sample nonce from the first moment. -/
def recordedStore : Store where
  nonces := AList.insert sampleOffer.path (reservation minimumNonceRetention 1) ∅

/-- The moment that record expires. -/
def expiry : Time := 1 + minimumNonceRetention

/-- The check that every call is made within one retention from that moment on. -/
def withinCheck (e : Event NonceCall Choice Nat) (_ : NonceConfig) : Bool :=
  match e with
  | .call _ k => decide (expiry ≤ k.now) && decide (k.now < expiry + minimumNonceRetention)
  | _ => true

variable {e : Event NonceCall Choice Nat} {c : NonceConfig}

lemma callsWithin_of_check (h : withinCheck e c = true) : CallsWithin sampleOffer expiry e c := by
  rintro i k rfl
  simp only [withinCheck, Bool.and_eq_true, decide_eq_true_eq] at h
  exact h

/-- The check that a removal of the record hits an expired one. -/
def removesCheck (U : Offer) (e : Event NonceCall Choice Nat) (c : NonceConfig) : Bool :=
  match e with
  | .step i _ =>
    match c.procs i with
    | some (.busy k (.cmd (.directory (.removeNonce _)) _)) =>
      (c.store.store.nonces.lookup U.path).all fun file => file.expired U.retention k.now
    | _ => true
  | _ => true

lemma removesExpired_of_check {U : Offer} (h : removesCheck U e c = true) :
    RemovesExpired U e c := by
  rintro i x k next rfl hruns file hfile
  simp only [removesCheck, hruns, hfile, Option.all_some] at h
  exact h

/-- A process offers the nonce and finds the old record expired. -/
def judgesRecord (i : Nat) : List (Event NonceCall Choice Nat) :=
  [.spawn i, .call i (.accept expiry), .step i .works, .step i .works]

/-- A process removes the record of the nonce, publishes its own and returns `true`. -/
def takesOver (i : Nat) : List (Event NonceCall Choice Nat) :=
  [.step i .works, .step i .works, .step i .works]

/-- Two processes find the record expired; the first takes over, and the second removes the record
of the first. -/
def bothRun : List (Event NonceCall Choice Nat) :=
  judgesRecord 0 ++ judgesRecord 1 ++ takesOver 0 ++ takesOver 1

/-- The configuration after that run. -/
def bothEnd : NonceConfig :=
  (nonceUsers sampleOffer).endOf withinCheck bothRun (nonceStart recordedStore)

/-- Two offers of one nonce at one moment are both accepted. -/
theorem nonce_accepted_twice : Reachable (nonceUsers sampleOffer) (CallsWithin sampleOffer expiry)
        (nonceStart recordedStore) bothEnd ∧ bothEnd.store.accepted = 2 := by
  have hrun : ((nonceUsers sampleOffer).runIf withinCheck bothRun
      (nonceStart recordedStore)).any (fun c => c.store.accepted = 2) = true := by
    decide +kernel
  obtain ⟨hreach, hgood⟩ := reachable_endOf (fun _ _ => callsWithin_of_check) .start hrun
    (rfl : bothEnd = _)
  exact ⟨hreach, of_decide_eq_true hgood⟩

/-- One process takes over before the other offers the nonce. -/
def inTurnRun : List (Event NonceCall Choice Nat) :=
  judgesRecord 0 ++ takesOver 0 ++ judgesRecord 1

/-- The check that an event is within the retention and removes only an expired record. -/
def inTurnCheck (e : Event NonceCall Choice Nat) (c : NonceConfig) : Bool :=
  withinCheck e c && removesCheck sampleOffer e c

/-- The configuration after that run. -/
def inTurnEnd : NonceConfig :=
  (nonceUsers sampleOffer).endOf inTurnCheck inTurnRun (nonceStart recordedStore)

/-- An expired record is taken over by one offer. -/
theorem nonce_accepted_in_turn : 1 ≤ inTurnEnd.store.accepted ∧ inTurnEnd.store.accepted ≤ 1 := by
  have hrun : ((nonceUsers sampleOffer).runIf inTurnCheck inTurnRun
      (nonceStart recordedStore)).any (fun c => 1 ≤ c.store.accepted) = true := by
    decide +kernel
  have hcheck : ∀ e c, inTurnCheck e c = true →
      CallsWithin sampleOffer expiry e c ∧ RemovesExpired sampleOffer e c := by
    intro e c hcheck
    obtain ⟨hwithin, hremoves⟩ := Bool.and_eq_true_iff.mp hcheck
    exact ⟨callsWithin_of_check hwithin, removesExpired_of_check hremoves⟩
  obtain ⟨hreach, hgood⟩ := reachable_endOf hcheck .start hrun (rfl : inTurnEnd = _)
  exact ⟨of_decide_eq_true hgood,
    nonce_accepted_once sampleOffer expiry recordedStore inTurnEnd hreach⟩

end AgentBell.Relay
