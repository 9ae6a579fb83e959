import AgentBell.Interleaving.Routine
import AgentBell.Relay.Nonces

/-!
# How long a nonce is remembered

A request is acceptable while its timestamp is within the skew of the clock, and the record of its
nonce lasts for the retention from the moment it was accepted.  With the shortest retention the two
windows have the same length, but the first includes its last moment and the second does not.
`nonce_refused_again_iff` says for every accepted request, whatever `Cleanup` calls follow, when its
nonce is refused to the end of the first window.
-/

namespace AgentBell.Relay

open Interleaving

/-! ## Cleanups and a record that lasts -/

section Cleanups

variable {U : Offer} {file : NonceFile} {now later : Time} {w v : NonceWorld}

/-- What has expired stays expired. -/
lemma NonceFile.expired_mono {retention : Duration} (hle : now ≤ later)
    (h : file.expired retention now = true) : file.expired retention later = true := by
  have hle' : (now : Int) ≤ later := hle
  have hstep : ∀ limit : Time, limit ≤ now → limit ≤ later := fun _ h => Int.le_trans h hle'
  unfold NonceFile.expired at h ⊢
  cases hrecord : file.record with
  | none =>
    simp only [hrecord, decide_eq_true_eq] at h ⊢
    exact hstep _ h
  | some record =>
    simp only [hrecord] at h ⊢
    split_ifs at h ⊢
    all_goals
      rw [decide_eq_true_eq] at h ⊢
      exact hstep _ h

/-- The record of the nonce is in a given file. -/
def HasRecord (U : Offer) (file : NonceFile) (w : NonceWorld) : Prop :=
  w.store.nonces.lookup U.path = some file

/-- A step of a cleanup that does not touch the record of the nonce. -/
def Spares (U : Offer) : NonceCmd → Prop
  | .directory (.readNonce _) => True
  | .directory .listNonces => True
  | .directory (.removeNonce path) => path ≠ U.path
  | _ => False

/-- A step that spares the record keeps it. -/
lemma HasRecord.spared {x : Choice} {c : NonceCmd} {r : NonceReply c} (h : HasRecord U file w)
    (hc : Spares U c) (hexec : nonceMachine.exec x c w = some (r, v)) : HasRecord U file v := by
  unfold Spares at hc
  split at hc
  · cases hexec
    exact h
  · simp only [nonceMachine, exec] at hexec
    split at hexec
    · split at hexec
      · cases hexec
        exact h
      · cases hexec
    · cases hexec
  · cases hexec
    exact (AList.lookup_erase_ne (Ne.symm hc)).trans h
  · exact hc.elim

/-- What a cleanup promises while the record of the nonce lasts. -/
def cleanupContract (U : Offer) (file : NonceFile) (_ : Nat) :
    Contract NonceCmd NonceWorld NonceCall Unit where
  rest := fun w v => HasRecord U file w → HasRecord U file v
  rely := fun _ _ w v => HasRecord U file w → HasRecord U file v
  pre := fun _ c _ => Spares U c
  idle := fun _ => HasRecord U file
  done := fun _ _ => HasRecord U file

lemma cleanupContract_lawful (i : Nat) : (cleanupContract U file i).Lawful where
  rely_refl := fun _ _ _ h => h
  rely_trans := fun _ _ _ _ _ hwv hvu h => hvu (hwv h)
  rest_refl := fun _ h => h
  idle_stable := fun _ _ _ h hkeeps => hkeeps h
  idle_of_done := fun _ _ _ h => h

/-- A program spares a record that lasts. -/
abbrev SparesRecord (U : Offer) (file : NonceFile) (p : NonceProg Unit) (w : NonceWorld) : Prop :=
  Safe nonceMachine (fun _ w v => HasRecord U file w → HasRecord U file v) (fun c _ => Spares U c)
    (fun _ => HasRecord U file) p w

/-- A step that spares the record, before a program that does. -/
lemma sparesRecord_cmd {c : NonceCmd} {next : NonceReply c → NonceProg Unit}
    (h : HasRecord U file w) (hc : Spares U c)
    (hnext : ∀ x r t v, HasRecord U file t → nonceMachine.exec x c t = some (r, v) →
      HasRecord U file v → SparesRecord U file (next r) v) :
    SparesRecord U file (.cmd c next) w :=
  safe_cmd_of_stable h (fun _ _ ht hkeeps => hkeeps ht) (fun _ _ => hc)
    fun x r t v ht hexec => hnext x r t v ht hexec (ht.spared hc hexec)

/-- A cleanup of some files spares a record that has not expired for it. -/
lemma sparesRecord_cleanupNonces (hlasts : file.expired U.retention now = false) (removed : Nat)
    (paths : List String) (h : HasRecord U file w) : SparesRecord U file
      ((onDirectory (cleanupNonces U.retention now removed paths)).bind fun _ => .ret ()) w := by
  induction paths generalizing removed w with
  | nil => exact safe_ret_of_stable h (fun _ _ ht hkeeps => hkeeps ht) fun _ ht => ht
  | cons path paths ih =>
    refine sparesRecord_cmd h trivial fun x found t v ht hexec hv => ?_
    simp only [Prog.ret_bind]
    split_ifs with hexpired
    · have hother : path ≠ U.path := by
        rintro rfl
        have hfound : found = some file := by
          cases hexec
          exact ht
        simp only [hfound, hlasts] at hexpired
        cases hexpired
      exact sparesRecord_cmd hv hother fun _ _ _ _ _ _ hu => ih (removed + 1) hu
    · exact ih removed hv

/-- A cleanup spares a record that has not expired for it. -/
lemma sparesRecord_cleanup (hlasts : file.expired U.retention now = false)
    (h : HasRecord U file w) : SparesRecord U file (U.body (.cleanup now)) w := by
  simp only [Offer.body, cleanup]
  split
  · exact safe_ret_of_stable h (fun _ _ ht hkeeps => hkeeps ht) fun _ ht => ht
  · exact sparesRecord_cmd h trivial fun _ paths _ _ _ _ hv =>
      sparesRecord_cleanupNonces hlasts 0 paths hv

/-- Only cleanups are called, at times between two moments. -/
def CleansBetween (first last : Time) (e : Event NonceCall Choice Nat) (_ : NonceConfig) : Prop :=
  ∀ i k, e = .call i k → ∃ now, k = .cleanup now ∧ first ≤ now ∧ now ≤ last

/-- A record that has not expired at the last moment survives every schedule of cleanups before. -/
lemma hasRecord_of_reachable {first last : Time} {s : Store} {c : NonceConfig}
    (hlasts : file.expired U.retention last = false) (hrecord : s.nonces.lookup U.path = some file)
    (h : Reachable (nonceUsers U) (CleansBetween first last) (nonceStart s) c) :
    HasRecord U file c.store := by
  have hinvariant : HasRecord U file c.store ∧
      c.Sound (nonceUsers U).machine (cleanupContract U file) := by
    refine h.invariant (fun c => HasRecord U file c.store ∧
      c.Sound (nonceUsers U).machine (cleanupContract U file)) ?_ ?_
    · refine ⟨hrecord, fun i a ha => ?_⟩
      cases ha
    · rintro c c' e ⟨hc, hsound⟩ hcleans hnext
      have hkept : ∀ i x k o next r v, e = .step i x → c.procs i = some (.busy k (.cmd o next)) →
          (nonceUsers U).machine.exec x o c.store = some (r, v) → HasRecord U file v :=
        fun i x k o next r v _ hruns hexec =>
          hc.spared (hsound.pre cleanupContract_lawful hruns) hexec
      refine ⟨?_, hsound.next cleanupContract_lawful hnext (fun _ _ _ => hc) ?_ ?_⟩
      · cases Protocol.effect_of_next hnext with
        | issued i x k o next r v runs result => exact hkept i x k o next r v rfl runs result
        | _ => exact hc
      · intro i k _ hcall _ _
        obtain ⟨now, rfl, -, hnow⟩ := hcleans i k hcall
        refine sparesRecord_cleanup (Bool.eq_false_iff.mpr fun hexpired => ?_) hc
        rw [NonceFile.expired_mono hnow hexpired] at hlasts
        cases hlasts
      · intro i x k o next r v hstep hruns _ hexec j a _ _
        have hv := hkept i x k o next r v hstep hruns hexec
        cases a with
        | idle m => exact fun _ => hv
        | busy k p => exact fun _ => hv
  exact hinvariant.1

end Cleanups

/-! ## The second offer -/

section Offers

variable {P : Primitives} {fuel : Nat} {retention : Duration} {peerID nonce : String}
  {now : Time} {s : Store} {file : NonceFile}

/-- A nonce whose record has not expired is refused, however the steps end. -/
lemma ensures_acceptNonce_refused (hfuel : 0 < fuel)
    (hrecord : s.nonces.lookup (noncePath P peerID nonce) = some file)
    (hlasts : file.expired retention now = false) :
    Ensures machine (fun result _ => result ≠ .ok true)
      (acceptNonce P fuel retention peerID nonce now) s := by
  obtain ⟨fuel, rfl⟩ : ∃ n, fuel = n + 1 := ⟨fuel - 1, by omega⟩
  have hmem : noncePath P peerID nonce ∈ s.nonces :=
    AList.lookup_isSome.mp (by rw [hrecord]; rfl)
  unfold acceptNonce
  split
  · exact ensures_ret (by rintro ⟨⟩)
  have hexists : exec .works (.linkNonce (noncePath P peerID nonce)
      ⟨nonceRecordVersion, now, now + retention⟩) s = some (.exists, s) := by
    simp [exec, link, hmem]
  refine ensures_cmd hexists fun x result t hexec => ?_
  rcases linkNonce_cases hexec with ⟨hresult, rfl⟩ | ⟨-, habsent, -⟩
  · cases result with
    | linked => exact absurd rfl hresult
    | failed => exact ensures_ret (by rintro ⟨⟩)
    | «exists» =>
      refine ensures_cmd (x := .works) rfl fun x found t hread => ?_
      have hfound : found = some file := by
        cases hread
        exact hrecord
      simp only [hfound, Prog.ret_bind, hlasts]
      exact ensures_ret (by rintro ⟨⟩)
  · exact absurd hmem habsent

/-- A nonce without a record, or with an expired one, is accepted when the steps work. -/
lemma run_acceptNonce_accepted (hcheck : checkNonce peerID nonce retention now = .ok ())
    (hfuel : 2 ≤ fuel) (hexpired : ∀ file, s.nonces.lookup (noncePath P peerID nonce) = some file →
      file.expired retention now = true) :
    ∃ xs t, (acceptNonce P fuel retention peerID nonce now).run machine xs s =
      some (.ok true, t) := by
  obtain ⟨fuel, rfl⟩ : ∃ n, fuel = n + 2 := ⟨fuel - 2, by omega⟩
  rw [acceptNonce, hcheck]
  cases hrecord : s.nonces.lookup (noncePath P peerID nonce) with
  | none =>
    have habsent : noncePath P peerID nonce ∉ s.nonces := AList.lookup_eq_none.mp hrecord
    refine ⟨[.works], { s with
      nonces := s.nonces.insert (noncePath P peerID nonce) (reservation retention now) }, ?_⟩
    simp only [reserveNonce, perform, Prog.bind_eq, Prog.issue_bind, Prog.run, machine, exec, link,
      if_neg habsent, Option.map_some]
    rfl
  | some file =>
    have hmem : noncePath P peerID nonce ∈ s.nonces :=
      AList.lookup_isSome.mp (by rw [hrecord]; rfl)
    have hgone : noncePath P peerID nonce ∉ s.nonces.erase (noncePath P peerID nonce) := by
      simp
    refine ⟨[.works, .works, .works, .works], { s with
      nonces := (s.nonces.erase (noncePath P peerID nonce)).insert (noncePath P peerID nonce)
        (reservation retention now) }, ?_⟩
    simp only [reserveNonce, perform, Prog.bind_eq, Prog.issue_bind, Prog.run, machine, exec, link,
      if_pos hmem, Option.map_some, hrecord, hexpired file hrecord, if_true, if_neg hgone]
    rfl

end Offers

/-- The check of the moment of an offer: its record can be written. -/
def Recordable (retention : Duration) (now : Time) : Prop :=
  now.isZero = false ∧ Queue.Time.encodable now = true ∧
    Queue.Time.encodable (now + retention) = true

instance (retention : Duration) (now : Time) : Decidable (Recordable retention now) :=
  inferInstanceAs (Decidable (_ ∧ _))

/-- The nonce is refused at the last moment, whatever cleanups there were since the first. -/
def RefusedAfter (U : Offer) (first last : Time) (s : Store) : Prop :=
  ∀ c, Reachable (nonceUsers U) (CleansBetween first last) (nonceStart s) c →
    Ensures machine (fun result _ => result ≠ .ok true)
      (acceptNonce U.primitives U.fuel U.retention U.peerID U.nonce last) c.store.store

/-- A nonce is refused after every schedule of cleanups exactly when its record is there and has not
expired, or no record could be written. -/
lemma refusedAfter_iff {U : Offer} {first last : Time} {s : Store} (hfuel : 2 ≤ U.fuel)
    (hpeer : validateIdentifier "peer id" U.peerID = .ok ())
    (hnonce : validateNonce U.nonce = .ok ()) :
    RefusedAfter U first last s ↔ (Recordable U.retention last →
      ∃ file, s.nonces.lookup U.path = some file ∧ file.expired U.retention last = false) := by
  constructor
  · intro hrefused hrecordable
    by_contra hnone
    have hcheck : checkNonce U.peerID U.nonce U.retention last = .ok () := by
      obtain ⟨hzero, hlast, hexpiry⟩ := hrecordable
      simp [checkNonce, hpeer, hnonce, hzero, hlast, hexpiry]
    obtain ⟨xs, t, hrun⟩ := run_acceptNonce_accepted hcheck hfuel fun file hfile => by
        by_contra hlasts
        exact hnone ⟨file, hfile, Bool.eq_false_iff.mpr hlasts⟩
    exact (hrefused _ .start).run hrun rfl
  · intro h c hc
    by_cases hrecordable : Recordable U.retention last
    · obtain ⟨file, hfile, hlasts⟩ := h hrecordable
      exact ensures_acceptNonce_refused (by omega) (hasRecord_of_reachable hlasts hfile hc) hlasts
    · have hcheck : ∃ err, checkNonce U.peerID U.nonce U.retention last = .error err := by
        simp only [checkNonce, hpeer, hnonce]
        split_ifs with hzero hencodable
        · exact ⟨_, rfl⟩
        · exact ⟨_, rfl⟩
        · simp only [not_or, not_not] at hencodable
          exact absurd ⟨Bool.eq_false_iff.mpr hzero, hencodable⟩ hrecordable
      obtain ⟨err, hcheck⟩ := hcheck
      rw [acceptNonce, hcheck]
      exact ensures_ret (by rintro ⟨⟩)

/-! ## The first acceptance -/

/-- A command that does not change the nonce records. -/
def LeavesNonces : Cmd → Prop
  | .linkNonce _ _ => False
  | .removeNonce _ => False
  | _ => True

/-- A command that leaves the nonce records leaves them. -/
lemma nonces_of_exec {x : Choice} {c : Cmd} {s t : Store} {r : Reply c} (hc : LeavesNonces c)
    (h : exec x c s = some (r, t)) : t.nonces = s.nonces := by
  cases c with
  | linkNonce path record => exact hc.elim
  | removeNonce path => exact hc.elim
  | queue c =>
    simp only [exec] at h
    split at h
    · obtain ⟨o, -, heq⟩ := Option.map_eq_some_iff.mp h
      cases heq
      rfl
    · cases h
  | linkCommitted id receipt | linkPending id receipt =>
    obtain ⟨o, -, heq⟩ := Option.map_eq_some_iff.mp h
    cases heq
    rfl
  | readNonce | unlock | readCommitted | readPending | answer =>
    cases h
    rfl
  | lock id | removePending id =>
    simp only [exec] at h
    split at h
    all_goals
      cases h
      try rfl
  | listNonces =>
    simp only [exec] at h
    split at h
    · split at h
      · cases h
        rfl
      · cases h
    · cases h

section Acceptance

variable {P : Primitives} {fuel : Nat} {now : Time} {s : Store}

/-- Reading a committed receipt leaves the nonce records. -/
lemma within_readCommitted (id : String) : (readCommitted id).Within LeavesNonces := by
  refine Prog.within_issue trivial fun found => ?_
  cases found with
  | none => trivial
  | some receipt =>
    dsimp only
    split <;> trivial

/-- Reading a pending receipt leaves the nonce records. -/
lemma within_readPending (id : String) : (readPending id).Within LeavesNonces := by
  refine Prog.within_issue trivial fun found => ?_
  cases found with
  | none => trivial
  | some receipt =>
    dsimp only
    split <;> trivial

/-- Preparing a receipt leaves the nonce records. -/
lemma within_preparePending (envelope : Envelope) (exactBody : Bytes) :
    (preparePending P envelope exactBody now).Within LeavesNonces := by
  refine (within_readPending _).bind ?_
  rintro (err | (_ | pending))
  · trivial
  · dsimp only
    split
    · refine Prog.within_issue trivial fun result => ?_
      cases result <;> trivial
    · trivial
  · dsimp only
    split <;> trivial

/-- Publishing a receipt leaves the nonce records. -/
lemma within_publishCommitted (id : String) (exactBody : Bytes) (committed : Receipt) :
    (publishCommitted P id exactBody committed).Within LeavesNonces := by
  unfold publishCommitted
  split
  · refine Prog.within_issue trivial fun result => ?_
    cases result with
    | linked => trivial
    | failed => trivial
    | «exists» =>
      refine (within_readCommitted id).bind ?_
      rintro (err | (_ | existing))
      · trivial
      · trivial
      · dsimp only
        split <;> trivial
  · trivial

/-- Committing a delivery under its lock leaves the nonce records. -/
lemma within_commitLocked (envelope : Envelope) (exactBody : Bytes) :
    (commitLocked P fuel envelope exactBody now).Within LeavesNonces := by
  refine (within_readCommitted _).bind ?_
  rintro (err | (_ | existing))
  · trivial
  · refine (within_preparePending envelope exactBody).bind ?_
    rintro (err | ⟨pending, duplicate⟩)
    · trivial
    · refine (Prog.within_embed fun _ => trivial).bind ?_
      rintro (_ | (message | ⟨localQueueID, again⟩))
      · trivial
      · trivial
      · dsimp only
        split
        · trivial
        · refine (within_publishCommitted _ exactBody _).bind ?_
          rintro (err | committed)
          · trivial
          · refine Prog.within_issue trivial fun removed => ?_
            cases removed <;> trivial
  · dsimp only
    split <;> trivial

/-- Committing a delivery leaves the nonce records. -/
lemma within_commitIngress (exactBody : Bytes) :
    (commitIngress P fuel exactBody now).Within LeavesNonces := by
  unfold commitIngress
  split
  · trivial
  · split_ifs
    · trivial
    · trivial
    · refine Prog.within_issue trivial fun taken => ?_
      cases taken with
      | false => trivial
      | true =>
        refine (within_commitLocked _ exactBody).bind fun result => ?_
        exact Prog.within_issue trivial fun _ => trivial

/-- A program that runs alone meets a postcondition, whatever commands it issues. -/
abbrev Leads {α : Type} (post : α → Store → Prop) (p : IngressProg α) (s : Store) : Prop :=
  Safe machine Alone (fun _ _ => True) post p s

/-- The look-up of a delivery finds what is committed for it, and changes nothing. -/
lemma leads_lookupCommitted {exactBody : Bytes} {envelope : Envelope}
    (hdecode : decode P exactBody = .ok envelope) :
    Leads (fun result t => t = s ∧ ∀ found, result = .ok found → found = s.committed.lookup
        (receiptID P envelope.teamID envelope.origin.id envelope.delivery.key))
      (lookupCommitted P exactBody) s := by
  unfold lookupCommitted readCommitted
  rw [hdecode]
  refine safe_alone_cmd trivial fun x found t hexec => ?_
  obtain ⟨rfl, rfl⟩ := Prod.mk.inj (Option.some.inj hexec)
  cases hfound : s.committed.lookup
      (receiptID P envelope.teamID envelope.origin.id envelope.delivery.key) with
  | none => exact safe_alone_ret ⟨rfl, fun _ h => (Except.ok.inj h).symm⟩
  | some receipt =>
    simp only [Prog.ret_bind]
    split
    · simp only [Prog.pure_eq, Prog.ret_bind]
      split
      · exact safe_alone_ret ⟨rfl, nofun⟩
      · exact safe_alone_ret ⟨rfl, fun _ h => (Except.ok.inj h).symm⟩
    · exact safe_alone_ret ⟨rfl, nofun⟩

/-- An accepted nonce is recorded, and no receipt is touched. -/
lemma leads_acceptNonce {retention : Duration} {peerID nonce : String} :
    Leads (fun result t => t.committed = s.committed ∧ (result = .ok true →
        t.nonces.lookup (noncePath P peerID nonce) = some (reservation retention now)))
      (acceptNonce P fuel retention peerID nonce now) s := by
  unfold acceptNonce
  split
  · exact safe_alone_ret ⟨rfl, nofun⟩
  induction fuel generalizing s with
  | zero => exact safe_alone_ret ⟨rfl, nofun⟩
  | succ fuel ih =>
    have hagain : Leads (fun result t => t.committed = s.committed ∧ (result = .ok true →
          t.nonces.lookup (noncePath P peerID nonce) = some (reservation retention now)))
        ((perform (.removeNonce (noncePath P peerID nonce))).bind fun _ =>
          reserveNonce (noncePath P peerID nonce) retention now fuel) s := by
      refine safe_alone_cmd trivial fun x _ t hexec => ?_
      cases hexec
      exact ih (s := { s with nonces := s.nonces.erase (noncePath P peerID nonce) })
    refine safe_alone_cmd trivial fun x result t hexec => ?_
    have hcases := linkNonce_cases hexec
    cases result with
    | linked =>
      rcases hcases with ⟨hne, -⟩ | ⟨-, -, rfl⟩
      · exact absurd rfl hne
      · exact safe_alone_ret ⟨rfl, fun _ => AList.lookup_insert _⟩
    | failed =>
      refine safe_alone_ret ⟨?_, nofun⟩
      rcases hcases with ⟨-, rfl⟩ | ⟨-, -, rfl⟩ <;> rfl
    | «exists» =>
      obtain ⟨-, rfl⟩ := hcases.resolve_right fun h => absurd rfl h.1
      refine safe_alone_cmd trivial fun x found u hread => ?_
      obtain ⟨-, rfl⟩ := Prod.mk.inj (Option.some.inj hread)
      cases found with
      | none => exact hagain
      | some file =>
        simp only [Prog.ret_bind]
        split
        · exact hagain
        · exact safe_alone_ret ⟨rfl, nofun⟩

/-- The record of the nonce of a request that is accepted: a delivery that is committed already is
acknowledged without a look at the nonces. -/
lemma leads_accept {settings : Settings} {peers : String → Option Peer} {request : IngressRequest}
    {peer : Peer} {envelope : Envelope}
    (hauth : authenticate P settings request (peers request.keyID) now = .ok (peer, envelope)) :
    Leads (fun result t => ∀ ack, result = .ok ack →
        t.nonces.lookup (noncePath P request.keyID request.nonce) =
          match s.committed.lookup
            (receiptID P envelope.teamID envelope.origin.id envelope.delivery.key) with
          | none => some (reservation settings.retention now)
          | some _ => s.nonces.lookup (noncePath P request.keyID request.nonce))
      (accept P settings fuel peers request now) s := by
  have hauthentic := authentic_of_authenticate hauth
  by_cases hcomplete : request.complete = true
  swap
  · rw [accept, if_neg hcomplete]
    exact safe_alone_ret (by rintro _ ⟨⟩)
  rw [accept, if_pos hcomplete]
  unfold acceptFrom
  simp only [hauth]
  refine (leads_lookupCommitted hauthentic.decoded).bind Alone.refl ?_
  rintro (err | found) t ⟨rfl, hfound⟩
  · exact safe_alone_ret (by rintro _ ⟨⟩)
  rw [← hfound found rfl]
  cases found with
  | some existing => exact safe_alone_ret fun _ _ => rfl
  | none =>
    refine leads_acceptNonce.bind Alone.refl ?_
    rintro (err | (_ | _)) u ⟨hcommitted, hreserved⟩
    · exact safe_alone_ret (by rintro _ ⟨⟩)
    · refine (leads_lookupCommitted hauthentic.decoded).bind Alone.refl ?_
      rintro (err | found) v ⟨rfl, hagain⟩
      · exact safe_alone_ret (by rintro _ ⟨⟩)
      · rw [hagain found rfl, hcommitted, ← hfound none rfl]
        exact safe_alone_ret (by rintro _ ⟨⟩)
    · have hkept : Leads (fun _ v => v.nonces = u.nonces)
          (commitIngress P fuel request.exactBody now) u := by
        refine (within_commitIngress request.exactBody).safe ?_ (fun _ _ _ _ => trivial) ?_ rfl
        · rintro o a b ha rfl
          exact ha
        · intro x c a r b hc ha hexec
          exact (nonces_of_exec hc hexec).trans ha
      refine hkept.bind Alone.refl ?_
      rintro (err | ⟨receipt, duplicate⟩) v hv
      · exact safe_alone_ret (by rintro _ ⟨⟩)
      · refine safe_alone_ret fun _ _ => ?_
        rw [hv, ← hauthentic.keyID]
        exact hreserved rfl

end Acceptance

/-! ## The retention and the skew -/

/-- The timestamp of a request is within the skew of a moment. -/
def Timely (sentAt now : Time) : Prop :=
  ¬ sentAt < now - defaultMaxSkew ∧ ¬ now + defaultMaxSkew < sentAt

instance (sentAt now : Time) : Decidable (Timely sentAt now) :=
  inferInstanceAs (Decidable (_ ∧ _))

/-- Two moments within the skew of one timestamp are at most twice the skew apart. -/
lemma le_add_of_skew {first last sentAt skew retention : Int} (hfirst : ¬ first + skew < sentAt)
    (hlast : ¬ sentAt < last - skew) (hretention : skew + skew ≤ retention) :
    last ≤ first + retention := by
  omega

/-- The record of the nonce lasts to the second moment: the delivery was not committed before, and
the second moment is not the one at which the record made at the first expires; or it was, and the
record that was there then lasts. -/
def Lasts (P : Primitives) (retention : Duration) (request : IngressRequest) (envelope : Envelope)
    (first last : Time) (s : Store) : Prop :=
  match s.committed.lookup
      (receiptID P envelope.teamID envelope.origin.id envelope.delivery.key) with
  | none => last ≠ first + retention
  | some _ => ∃ file, s.nonces.lookup (noncePath P request.keyID request.nonce) = some file ∧
      file.expired retention last = false

/-- A request that is accepted was authentic. -/
lemma authenticate_of_run {P : Primitives} {settings : Settings} {peers : String → Option Peer}
    {request : IngressRequest} {fuel : Nat} {now : Time} {s t : Store} {xs : List Choice}
    {ack : IngressACK}
    (h : (accept P settings fuel peers request now).run machine xs s = some (.ok ack, t)) :
    ∃ peer envelope,
      authenticate P settings request (peers request.keyID) now = .ok (peer, envelope) := by
  cases hauth : authenticate P settings request (peers request.keyID) now with
  | ok result => exact ⟨result.1, result.2, rfl⟩
  | error err =>
    have hrefused : Leads (fun result _ => ∃ err, result = .error err)
        (accept P settings fuel peers request now) s := by
      unfold accept acceptFrom
      simp only [hauth]
      split <;> exact safe_alone_ret ⟨_, rfl⟩
    obtain ⟨_, heq⟩ := hrefused.run h
    cases heq

/-- A request was accepted at one moment, with its timestamp within the skew, and its timestamp is
within the skew of a later moment too.  Its nonce is refused then, after every schedule of cleanups
in between, exactly when no record could be written then or the record lasts. -/
theorem nonce_refused_again_iff {P : Primitives} {settings : Settings}
    {peers : String → Option Peer} {request : IngressRequest} {envelope : Envelope}
    {fuel rounds : Nat} {first last : Time} {s t : Store} {xs : List Choice} {ack : IngressACK}
    (haccepted : (accept P settings fuel peers request first).run machine xs s = some (.ok ack, t))
    (hdecode : decode P request.exactBody = .ok envelope)
    (hretention : minimumNonceRetention ≤ settings.retention) (hrounds : 2 ≤ rounds)
    (hfirst : Timely request.sentAt first) (hlast : Timely request.sentAt last) :
    RefusedAfter ⟨P, rounds, settings.retention, request.keyID, request.nonce⟩ first last t ↔
      (Recordable settings.retention last →
        Lasts P settings.retention request envelope first last s) := by
  obtain ⟨peer, envelope', hauth⟩ := authenticate_of_run haccepted
  have hauthentic := authentic_of_authenticate hauth
  obtain rfl : envelope = envelope' := Except.ok.inj (hdecode.symm.trans hauthentic.decoded)
  have hrecord := (leads_accept hauth).run haccepted ack rfl
  have hpeer : validateIdentifier "peer id" request.keyID = .ok () :=
    hauthentic.keyID ▸ hauthentic.peerID
  have hrefused : RefusedAfter ⟨P, rounds, settings.retention, request.keyID, request.nonce⟩ first
      last t ↔ (Recordable settings.retention last →
        ∃ file, t.nonces.lookup (noncePath P request.keyID request.nonce) = some file ∧
          file.expired settings.retention last = false) :=
    refusedAfter_iff hrounds hpeer hauthentic.nonce
  refine hrefused.trans (forall_congr' fun _ => ?_)
  unfold Lasts
  rw [hrecord]
  split
  · have hskew : last ≤ first + settings.retention :=
      le_add_of_skew hfirst.2 hlast.1 hretention
    simp only [Option.some.injEq, exists_eq_left', expired_reservation, decide_eq_false_iff_not]
    exact ⟨fun h heq => h (le_of_eq heq.symm), fun hne hle => hne (le_antisymm hskew hle)⟩
  · rfl

/-! ## A request from a clock that is ahead by the whole skew -/

/-- The steps of the acceptance of the sample request. -/
def acceptSteps : List Choice :=
  List.replicate 6 .works ++ .queue (.id sampleQueueID) :: List.replicate 4 (.queue .nothing) ++
    List.replicate 3 .works

/-- The sample request is accepted at the first moment, and its nonce is recorded. -/
lemma sample_accepted :
    (((accept samplePrimitives {} 2 (fun _ => some samplePeer) sampleRequest 1).run machine
      acceptSteps {}).any fun o => decide (o.1 = .ok (sampleACK false)) &&
        decide (o.2.nonces.lookup sampleOffer.path =
          some (reservation minimumNonceRetention 1))) = true := by
  decide +kernel

/-- The state directory after the sample request was accepted. -/
def acceptedStore : Store :=
  (((accept samplePrimitives {} 2 (fun _ => some samplePeer) sampleRequest 1).run machine
    acceptSteps {}).map Prod.snd).getD {}

lemma run_sample_accept :
    (accept samplePrimitives {} 2 (fun _ => some samplePeer) sampleRequest 1).run machine
        acceptSteps {} = some (.ok (sampleACK false), acceptedStore) ∧
      acceptedStore.nonces.lookup sampleOffer.path =
        some (reservation minimumNonceRetention 1) := by
  obtain ⟨⟨result, t⟩, hrun, hfacts⟩ := Prog.exists_run acceptSteps _ sample_accepted
  obtain ⟨hresult, hrecord⟩ := Bool.and_eq_true_iff.mp hfacts
  obtain rfl : result = .ok (sampleACK false) := of_decide_eq_true hresult
  have hstore : acceptedStore = t := by
    unfold acceptedStore
    rw [hrun]
    rfl
  rw [hstore]
  exact ⟨hrun, of_decide_eq_true hrecord⟩

/-- The sample request is accepted at the first moment; at the last moment at which its timestamp is
within the skew, its nonce is accepted again. -/
theorem accepted_nonce_accepted_again :
    (accept samplePrimitives {} 2 (fun _ => some samplePeer) sampleRequest 1).run machine
        acceptSteps {} = some (.ok (sampleACK false), acceptedStore) ∧
      Timely sampleRequest.sentAt 1 ∧ Timely sampleRequest.sentAt expiry ∧
      ¬ RefusedAfter sampleOffer 1 expiry acceptedStore := by
  obtain ⟨hrun, hrecord⟩ := run_sample_accept
  refine ⟨hrun, by decide, by decide, fun hrefused => ?_⟩
  obtain ⟨file, hfile, hlasts⟩ :=
    (refusedAfter_iff (by decide) (by decide +kernel) (by decide +kernel)).mp hrefused
      (by decide)
  obtain rfl := Option.mem_unique hrecord hfile
  revert hlasts
  decide

/-- One moment earlier the nonce of the sample request is refused. -/
theorem accepted_nonce_refused_before_expiry :
    RefusedAfter ⟨samplePrimitives, 2, minimumNonceRetention, sampleRequest.keyID,
      sampleRequest.nonce⟩ 1 (expiry - 1) acceptedStore := by
  have hdecode : decode samplePrimitives sampleRequest.exactBody = .ok sampleEnvelope := by
    decide +kernel
  refine (nonce_refused_again_iff run_sample_accept.1 hdecode (le_refl _) (by decide) (by decide)
    (by decide)).mpr fun _ => ?_
  have huncommitted : ({} : Store).committed.lookup (receiptID samplePrimitives
      sampleEnvelope.teamID sampleEnvelope.origin.id sampleEnvelope.delivery.key) = none := rfl
  unfold Lasts
  rw [huncommitted]
  decide

end AgentBell.Relay
