import AgentBell.Queue.CrashRecovery

/-!
# The service and its clients

The mutex of a `Queue` orders the operations of one process only.  Here one service process
claims and finishes items while any number of client processes enqueue and retry, all on one
queue directory, and their commands interleave in any order.

The service removes a file from `pending` only when the item is in `inflight`, and from
`inflight` only when another directory has it; a client removes a file from `dead` only in
`Retry`, after it has written it to `pending`.  What each side relies on is what the other side
guarantees, with one exception: a `Claim` of the service may have moved the file on from
`pending` when the `Retry` removes it from `dead`, and a recovery that still sees the file in
`dead` then drops the claimed one.
-/

namespace AgentBell.Queue

open Interleaving Interleaving.Routine

variable {d : Directory} {fileName : FileName} {c : Cmd} {sha256 : String → String}

/-- An item that is stored under this name or was removed by a cleanup. -/
def Store.Kept (s : Store) (fileName : FileName) : Prop :=
  (∃ d, (d, fileName) ∈ s.files) ∨ fileName.id ∈ s.cleaned

/-- A directory other than `inflight` has the file. -/
def Store.Elsewhere (s : Store) (fileName : FileName) : Prop :=
  ∃ d, d ≠ .inflight ∧ (d, fileName) ∈ s.files

/-- A file that was written to a directory, or moved on from `dead` to `pending`. -/
def Store.Landed (s : Store) (d : Directory) (fileName : FileName) : Prop :=
  (d, fileName) ∈ s.files ∨ d = .dead ∧ (.pending, fileName) ∈ s.files

variable {s t u : Store}

lemma Store.Landed.elsewhere (h : s.Landed d fileName) (hd : d ≠ .inflight) :
    s.Elsewhere fileName := by
  rcases h with hmem | ⟨-, hmem⟩
  · exact ⟨d, hd, hmem⟩
  · exact ⟨.pending, by decide, hmem⟩

/-! ## What one command does to the items -/

/-- A command keeps the envelopes valid when the one it writes is. -/
lemma StoreEffect.valid (heffect : StoreEffect s c t) (hs : s.Valid)
    (hwrite : ∀ path envelope, c = .write path envelope →
      envelope.Fits path.2 ∧ envelope.encodable = true) : t.Valid := by
  cases heffect with
  | same files => exact fun path envelope hlookup => hs path envelope (files ▸ hlookup)
  | stored path envelope =>
    obtain ⟨hfits, henc⟩ := hwrite path envelope rfl
    exact hs.insert hfits henc rfl
  | removed | discarded | quarantined => exact hs.erase rfl
  | answered => exact hs

/-- A command keeps an item when it moves nothing aside and another directory has the file it
removes. -/
lemma StoreEffect.kept (heffect : StoreEffect s c t) (haside : ∀ path, c ≠ .quarantine path)
    (hcopy : ∀ d, c = .remove (d, fileName) → ∃ d', d' ≠ d ∧ (d', fileName) ∈ s.files)
    (hkept : s.Kept fileName) : t.Kept fileName := by
  cases heffect with
  | same files written cleaned => rwa [Store.Kept, files, cleaned]
  | stored path envelope =>
    refine hkept.imp_left ?_
    rintro ⟨d, hmem⟩
    exact ⟨d, Store.mem_put.mpr (Or.inr hmem)⟩
  | removed path =>
    refine hkept.imp_left ?_
    rintro ⟨d, hmem⟩
    by_cases hpath : (d, fileName) = path
    · subst hpath
      obtain ⟨d', hne, hmem'⟩ := hcopy d rfl
      exact ⟨d', Store.mem_drop.mpr ⟨fun h => hne (congrArg Prod.fst h), hmem'⟩⟩
    · exact ⟨d, Store.mem_drop.mpr ⟨hpath, hmem⟩⟩
  | discarded path =>
    rcases hkept with ⟨d, hmem⟩ | hclean
    · by_cases hpath : (d, fileName) = path
      · subst hpath
        exact Or.inr List.mem_cons_self
      · exact Or.inl ⟨d, Store.mem_drop.mpr ⟨hpath, hmem⟩⟩
    · exact Or.inr (List.mem_cons_of_mem _ hclean)
  | quarantined path => exact absurd rfl (haside path)
  | answered => exact hkept

/-! ## What the service relies on and promises -/

/-- What clients may do while the service works: write valid envelopes, and move files from
`dead` to `pending`. -/
structure ClientsAct (s t : Store) : Prop where
  valid : s.Valid → t.Valid
  stays : ∀ d fileName, d ≠ .dead → (d, fileName) ∈ s.files → (d, fileName) ∈ t.files
  moves : ∀ fileName, (.dead, fileName) ∈ s.files →
    (.dead, fileName) ∈ t.files ∨ (.pending, fileName) ∈ t.files

/-- The commands the service issues. -/
def ServiceMay : Cmd → Store → Prop
  | .write path envelope, _ => envelope.Fits path.2 ∧ envelope.encodable = true
  | .remove (.pending, fileName), s => (.inflight, fileName) ∈ s.files
  | .remove (.inflight, fileName), s => s.Elsewhere fileName
  | .remove _, _ => False
  | .discard path, _ => path.1 ≠ .pending
  | .quarantine _, _ => False
  | .answer _, _ => False
  | _, _ => True

lemma ClientsAct.refl (s : Store) : ClientsAct s s :=
  ⟨id, fun _ _ _ h => h, fun _ h => Or.inl h⟩

lemma ClientsAct.trans (hst : ClientsAct s t) (htu : ClientsAct t u) : ClientsAct s u where
  valid := htu.valid ∘ hst.valid
  stays := fun d fileName hd h => htu.stays d fileName hd (hst.stays d fileName hd h)
  moves := by
    intro fileName h
    rcases hst.moves fileName h with h | h
    · exact htu.moves fileName h
    · exact Or.inr (htu.stays _ _ (by decide) h)

/-- A file the service has written stays, or is moved on by a `Retry`. -/
lemma ClientsAct.landed (h : ClientsAct s t) (hs : s.Landed d fileName) : t.Landed d fileName := by
  rcases hs with hmem | ⟨rfl, hmem⟩
  · by_cases hd : d = .dead
    · subst hd
      exact (h.moves fileName hmem).imp id fun hpending => ⟨rfl, hpending⟩
    · exact Or.inl (h.stays d fileName hd hmem)
  · exact Or.inr ⟨rfl, h.stays _ _ (by decide) hmem⟩

/-- A file outside of `inflight` stays there. -/
lemma ClientsAct.elsewhere (h : ClientsAct s t) (hs : s.Elsewhere fileName) :
    t.Elsewhere fileName := by
  obtain ⟨d, hd, hmem⟩ := hs
  exact (h.landed (Or.inl hmem)).elsewhere hd

/-- A command of the service keeps every envelope valid. -/
lemma ServiceMay.valid (hmay : ServiceMay c s) (hs : s.Valid) (heffect : StoreEffect s c t) :
    t.Valid := by
  refine heffect.valid hs ?_
  rintro path envelope rfl
  exact hmay

/-- A command of the service keeps every item. -/
lemma ServiceMay.kept (hmay : ServiceMay c s) (heffect : StoreEffect s c t)
    (hkept : s.Kept fileName) : t.Kept fileName := by
  refine heffect.kept ?_ ?_ hkept
  · rintro path rfl
    exact hmay
  · rintro d rfl
    cases d with
    | pending => exact ⟨.inflight, by decide, hmay⟩
    | inflight => exact hmay
    | history | dead => exact hmay.elim

/-! ## The operations of the service -/

/-- A program of the service that, started in a valid store, keeps its promise and the store
valid while clients act. -/
def Serves {α : Type} (post : α → Store → Prop) (p : QueueProg α) (s : Store) : Prop :=
  s.Valid → Safe machine (fun _ => ClientsAct) ServiceMay (fun a t => t.Valid ∧ post a t) p s

section Service

variable {ℓ α β : Type} {post : α → Store → Prop} {s : Store} {fileName : FileName}
  {envelope updated : Envelope} {destination : Directory} {item : Item} {a : α} {l : ℓ}
  {next : Reply c → QueueProg α} {A : Store → Prop}

/-- Sequential composition of programs of the service. -/
lemma Serves.bind {p : QueueProg α} {f : α → QueueProg β} {post' : β → Store → Prop}
    (hp : Serves post p s) (hf : ∀ a t, post a t → Serves post' (f a) t) :
    Serves post' (p.bind f) s :=
  fun hs => Safe.bind (fun _ => ClientsAct.refl) (hp hs) fun a t ht => hf a t ht.2 ht.1

/-- A result returned under an assertion the clients keep. -/
lemma serves_ret_of (hA : A s) (hstable : ∀ s t, ClientsAct s t → A s → A t)
    (h : ∀ t, A t → post a t) : Serves post (.ret a) s :=
  fun hs => safe_ret_of_stable (A := fun t => t.Valid ∧ A t) ⟨hs, hA⟩
    (fun a b ha hact => ⟨hact.valid ha.1, hstable a b hact ha.2⟩) fun t ht => ⟨ht.1, h t ht.2⟩

/-- A result that needs nothing but a valid store. -/
lemma serves_ret (h : ∀ t, post a t) : Serves post (.ret a) s :=
  serves_ret_of (A := fun _ => True) trivial (fun _ _ _ h => h) fun t _ => h t

/-- A command issued under an assertion the clients keep. -/
lemma serves_cmd_of (hA : A s) (hstable : ∀ s t, ClientsAct s t → A s → A t)
    (hpre : ∀ t, A t → ServiceMay c t)
    (hnext : ∀ x r t v, A t → exec x c t = some (r, v) → Serves post (next r) v) :
    Serves post (.cmd c next) s := by
  intro hs
  refine safe_cmd_of_stable (A := fun t => t.Valid ∧ A t) ⟨hs, hA⟩ ?_ ?_ ?_
  · exact fun a b ha hact => ⟨hact.valid ha.1, hstable a b hact ha.2⟩
  · exact fun t ht => hpre t ht.2
  · intro x r t v ht hx
    exact hnext x r t v ht.2 hx ((hpre t ht.2).valid ht.1 (storeEffect_of_exec hx))

/-- A command the service may always issue. -/
lemma serves_cmd (hpre : ∀ t, ServiceMay c t)
    (hnext : ∀ x r t v, exec x c t = some (r, v) → Serves post (next r) v) :
    Serves post (.cmd c next) s :=
  serves_cmd_of (A := fun _ => True) trivial (fun _ _ _ h => h) (fun t _ => hpre t)
    fun x r t v _ hx => hnext x r t v hx

/-- Sequential composition of routines of the service: a failure of the first one is the result
of both. -/
lemma Serves.routine_bind {p : QueueRoutine ℓ α} {f : α → QueueRoutine ℓ β}
    {post : Except OsError α × ℓ → Store → Prop} {post' : Except OsError β × ℓ → Store → Prop}
    (hp : Serves post (p.working l) s)
    (herr : ∀ err l t u, post (.error err, l) t → post' (.error err, l) u)
    (hok : ∀ a l t, post (.ok a, l) t → Serves post' ((f a).working l) t) :
    Serves post' ((p >>= f).working l) s := by
  rw [working_bind]
  refine hp.bind ?_
  rintro ⟨err | a, l⟩ t ht
  · exact serves_ret fun u => herr err l t u ht
  · exact hok a l t ht

/-- Listing a directory gives items whose envelopes are fit. -/
lemma serves_listUnlocked (directory : Directory) :
    Serves (fun o _ => ∀ items, o.1 = .ok items → ∀ item ∈ items, item.Fits)
      ((listUnlocked directory).working ()) s := by
  intro hs
  have hlist : Safe machine (fun _ => ClientsAct) ServiceMay
      (fun o t => t.Valid ∧ ListResult Store.Valid directory o.1)
      ((listUnlocked directory).working ()) s :=
    safe_listUnlocked (fun _ => ClientsAct.refl) (fun _ _ _ ht hact => hact.valid ht)
      (fun _ ht => ht) (fun _ _ _ => trivial) (fun _ _ _ => trivial) directory hs
  refine hlist.weaken (fun _ _ h => h) ?_
  rintro ⟨_, ⟨⟩⟩ t ⟨ht, hresult⟩
  refine ⟨ht, ?_⟩
  rintro items rfl item hitem
  obtain ⟨u, hu, hlookup⟩ := hresult.1 item hitem
  exact (hu _ _ hlookup).1

/-- After a write that succeeded, or failed because the file existed, the file is there. -/
lemma serves_writeNew (hfits : envelope.Fits fileName) :
    Serves (fun o t => o.2 = l ∧
        (o.1 = .ok () ∨ o.1 = .error .exist → t.Landed d fileName))
      ((writeNew d fileName envelope).working l) s := by
  have hlanded : ∀ (result : Except OsError Unit) (t : Store), t.Landed d fileName →
      Serves (fun o t => o.2 = l ∧
          (o.1 = .ok () ∨ o.1 = .error .exist → t.Landed d fileName)) (.ret (result, l)) t :=
    fun result t ht => serves_ret_of ht (fun _ _ hact => hact.landed) fun u hu => ⟨rfl, fun _ => hu⟩
  simp only [writeNew, write, working_perform_bind, working_raiseIf_bind, working_perform]
  refine serves_cmd (fun _ => trivial) ?_
  intro x r t v hx
  cases hx
  by_cases hmem : (d, fileName) ∈ t.files
  · simp only [hmem, decide_true, if_true]
    exact hlanded _ t (Or.inl hmem)
  · simp only [hmem, decide_false, Bool.false_eq_true, if_false]
    cases henc : envelope.encodable with
    | false => exact serves_ret fun u => ⟨rfl, by rintro (h | h) <;> cases h⟩
    | true =>
      refine serves_cmd (fun _ => ⟨hfits, henc⟩) ?_
      intro x r u v hx
      cases hx
      exact hlanded _ _ (Or.inl (Store.mem_put.mpr (Or.inl rfl)))

/-- Removing a file from `inflight` that another directory has. -/
lemma serves_removeInflight {next : Unit → QueueProg α} (helse : s.Elsewhere fileName)
    (hnext : ∀ t, Serves post (next ()) t) :
    Serves post (.cmd (.remove (.inflight, fileName)) next) s :=
  serves_cmd_of helse (fun _ _ hact => hact.elsewhere) (fun _ ht => ht) fun _ _ _ v _ _ => hnext v

/-- Moving a file out of `inflight`. -/
lemma serves_transitionEnvelope (hdestination : destination ≠ .inflight)
    (hfits : envelope.Fits fileName) : Serves (fun o _ => o.2 = l)
      ((transitionEnvelope .inflight destination fileName envelope).working l) s := by
  refine (serves_writeNew hfits).routine_bind (fun _ _ _ _ h => h.1) ?_
  rintro ⟨⟩ l' t ⟨rfl, hlanded⟩
  exact serves_removeInflight ((hlanded (Or.inl rfl)).elsewhere hdestination)
    fun _ => serves_ret fun _ => rfl

/-- An item that is fit to be written again while it is in `inflight`. -/
abbrev Item.FitsInflight (item : Item) : Prop := item.envelope.state = .inflight → item.Fits

/-- The items a process holds are fit to be written again. -/
def HoldsFit (m : Memory) : Prop :=
  ∀ item ∈ m.held, item.FitsInflight

variable {m : Memory} {held : Nat}

lemma HoldsFit.set (h : HoldsFit m) (hitem : item.FitsInflight) (held : Nat) :
    HoldsFit ⟨m.held.set held item⟩ := by
  intro other hother
  rcases List.mem_or_eq_of_mem_set hother with hother | rfl
  · exact h other hother
  · exact hitem

lemma HoldsFit.append (h : HoldsFit m) (hitem : item.Fits) : HoldsFit ⟨m.held ++ [item]⟩ := by
  intro other hother hstate
  rcases List.mem_append.mp hother with hother | hother
  · exact h other hother hstate
  · rw [List.mem_singleton.mp hother]
    exact hitem

/-- Moving a held item out of `inflight`. -/
lemma serves_advance (hdestination : destination ≠ .inflight) (hitem : item.FitsInflight)
    (hfits : updated.Fits item.fileName) :
    Serves (fun o _ => o.2.FitsInflight) ((advance destination updated).working item) s := by
  refine (serves_transitionEnvelope hdestination hfits).routine_bind ?_ ?_
  · rintro _ _ _ _ rfl
    exact hitem
  · rintro ⟨⟩ _ t rfl
    exact serves_ret fun _ _ => hfits

/-- Overwriting the file of a held item. -/
lemma serves_rewrite (hitem : item.FitsInflight) (hfits : updated.Fits item.fileName) :
    Serves (fun o _ => o.2.FitsInflight) ((rewrite updated).working item) s := by
  rw [rewrite, working_locals_bind, working_bind, replace, write]
  refine serves_cmd (fun _ => trivial) fun x found t v _ => ?_
  cases found with
  | false => exact serves_ret fun _ => hitem
  | true =>
    cases henc : updated.encodable with
    | false => exact serves_ret fun _ => hitem
    | true =>
      refine serves_cmd (fun _ => ⟨hfits, henc⟩) fun x r u v _ => ?_
      exact serves_ret fun _ _ => hfits

/-- Every operation on a held item keeps the promise of the service. -/
lemma serves_held {p : QueueProg (Except OsError α × Item)} (hitem : item.FitsInflight)
    (hp : HeldOutcome item p) : Serves (fun o _ => o.2.FitsInflight) p s := by
  cases hp with
  | kept result => exact serves_ret fun _ => hitem
  | advance inflight out left fits => exact serves_advance out hitem (fits (hitem inflight))
  | rewrite inflight fits => exact serves_rewrite hitem (fits (hitem inflight))
  | resolve ready inflight fits =>
    exact (serves_rewrite hitem (fits (hitem inflight))).routine_bind (fun _ _ _ _ h => h)
      fun _ _ _ h => serves_ret fun _ => h

/-- Removing a file from `pending` that `inflight` has. -/
lemma serves_removePending {next : Unit → QueueProg α} (hlanded : s.Landed .inflight fileName)
    (hnext : ∀ t, Serves post (next ()) t) :
    Serves post (.cmd (.remove (.pending, fileName)) next) s := by
  refine serves_cmd_of hlanded (fun _ _ hact => hact.landed) ?_ fun _ _ _ v _ _ => hnext v
  rintro t (hmem | ⟨hdead, -⟩)
  · exact hmem
  · cases hdead

/-- The loop of `Claim` removes a file from `pending` only when `inflight` has it. -/
lemma serves_claimFirst (hm : HoldsFit m) (now : Time) (lease : Duration) (items : List Item)
    (hitems : ∀ item ∈ items, item.Fits) :
    Serves (fun o _ => HoldsFit (m.claim o)) ((claimFirst now lease items).working ()) s := by
  induction items generalizing s with
  | nil => exact serves_ret fun _ => hm
  | cons item rest ih =>
    rw [List.forall_mem_cons] at hitems
    have hclaimed : (claimedEnvelope now lease item.envelope).Fits item.fileName :=
      hitems.1.congr rfl rfl rfl rfl
    unfold claimFirst
    split
    · exact ih hitems.2
    · rw [working_bind, working_writeUnlessExists, Prog.bind_assoc]
      refine (serves_writeNew hclaimed).bind ?_
      rintro ⟨(_ | _ | text) | ⟨⟩, ⟨⟩⟩ t ⟨-, hlanded⟩
      · exact serves_removePending (hlanded (Or.inr rfl)) fun u => ih hitems.2
      · exact serves_ret fun _ => hm
      · exact serves_ret fun _ => hm
      · exact serves_removePending (hlanded (Or.inl rfl)) fun u =>
          serves_ret fun _ => hm.append hclaimed

/-- `Claim` keeps the promise of the service. -/
lemma serves_claim (hm : HoldsFit m) (now : Time) (lease : Duration) :
    Serves (fun o _ => HoldsFit (m.claim o)) ((claim now lease).working ()) s :=
  (serves_listUnlocked .pending).routine_bind (fun _ _ _ _ _ => hm)
    fun items _ _ hitems => serves_claimFirst hm now lease items (hitems items rfl)

/-- The test of `RecoverExpired` is right when it finds the file elsewhere. -/
lemma serves_completedTransition (fileName : FileName) :
    Serves (fun o t => o.1 = .ok true → t.Elsewhere fileName)
      ((completedTransition fileName).working ()) s := by
  have hstat : ∀ (d : Directory) (t : Store)
      (next : Bool → QueueProg (Except OsError Bool × Unit)), d ≠ .inflight →
      (∀ u found, (found = true → u.Elsewhere fileName) →
        Serves (fun o t => o.1 = .ok true → t.Elsewhere fileName) (next found) u) →
      Serves (fun o t => o.1 = .ok true → t.Elsewhere fileName)
        (.cmd (.stat (d, fileName)) next) t := by
    intro d t next hd hnext
    refine serves_cmd (fun _ => trivial) ?_
    intro x r u v hx
    cases hx
    exact hnext u _ fun hfound => ⟨d, hd, of_decide_eq_true hfound⟩
  have hret : ∀ (t : Store) (found : Bool), (found = true → t.Elsewhere fileName) →
      Serves (fun (o : Except OsError Bool × Unit) t => o.1 = .ok true → t.Elsewhere fileName)
        (.ret (.ok found, ())) t :=
    fun t found hfound =>
      serves_ret_of (A := fun t => found = true → t.Elsewhere fileName) hfound
        (fun _ _ hact h hyes => hact.elsewhere (h hyes)) fun _ h hok => h (Except.ok.inj hok)
  rw [completedTransition, working_looksPresent_bind]
  refine hstat .pending s _ (by decide) fun t found hfound => ?_
  split
  · rename_i hyes
    exact hret t true fun _ => hfound hyes
  · rw [working_looksPresent_bind]
    refine hstat .history t _ (by decide) fun u found hfound => ?_
    split
    · rename_i hyes
      exact hret u true fun _ => hfound hyes
    · exact hstat .dead u _ (by decide) hret

/-- The loop of `RecoverExpired` removes a file from `inflight` only when another directory
has it. -/
lemma serves_recoverItems (now : Time) (items : List Item) (recovered : Nat)
    (hitems : ∀ item ∈ items, item.Fits) :
    Serves (fun _ _ => True) ((recoverItems now recovered items).working ()) s := by
  induction items generalizing s recovered with
  | nil => exact serves_ret fun _ => trivial
  | cons item rest ih =>
    rw [List.forall_mem_cons] at hitems
    refine (serves_completedTransition item.fileName).routine_bind (fun _ _ _ _ _ => trivial) ?_
    rintro found ⟨⟩ t hfound
    cases found with
    | true => exact serves_removeInflight (hfound rfl) fun u => ih recovered hitems.2
    | false =>
      simp only [Bool.false_eq_true, if_false]
      split
      · exact ih recovered hitems.2
      · have hrecovered : (recoveredEnvelope now item.envelope).Fits item.fileName :=
          hitems.1.congr rfl rfl rfl rfl
        exact (serves_transitionEnvelope (by decide) hrecovered).routine_bind
          (fun _ _ _ _ _ => trivial) fun _ _ _ _ => ih (recovered + 1) hitems.2

/-- `RecoverExpired` keeps the promise of the service. -/
lemma serves_recoverExpired (now : Time) :
    Serves (fun _ _ => True) ((recoverExpired now).working ()) s :=
  (serves_listUnlocked .inflight).routine_bind (fun _ _ _ _ _ => trivial)
    fun items _ _ hitems => serves_recoverItems now items 0 (hitems items rfl)

/-- Cleaning up keeps the promise of the service. -/
lemma serves_discardItems (sha256 : String → String) {directory : Directory}
    (hdirectory : directory ≠ .pending) (items : List Item) (removed : Nat) :
    Serves (fun _ _ => True) ((discardItems sha256 directory removed items).working ()) s := by
  induction items generalizing s removed with
  | nil => exact serves_ret fun _ => trivial
  | cons item rest ih =>
    refine serves_cmd (fun _ => hdirectory) fun x result t v _ => ?_
    cases result with
    | false => exact serves_ret fun _ => trivial
    | true =>
      refine serves_cmd (fun _ => trivial) fun x r t v _ => ?_
      exact ih (removed + 1)

/-- `CleanupHistory` keeps the promise of the service. -/
lemma serves_cleanupHistory (sha256 : String → String) (before : Time) :
    Serves (fun _ _ => True) ((cleanupHistory sha256 before).working ()) s :=
  (serves_listUnlocked .history).routine_bind (fun _ _ _ _ _ => trivial)
    fun _ _ _ _ => serves_discardItems sha256 (by decide) _ 0

/-- `CleanupDead` keeps the promise of the service. -/
lemma serves_cleanupDead (sha256 : String → String) (before : Time) (maximum : Int) :
    Serves (fun _ _ => True) ((cleanupDead sha256 before maximum).working ()) s :=
  (serves_listUnlocked .dead).routine_bind (fun _ _ _ _ _ => trivial)
    fun _ _ _ _ => serves_discardItems sha256 (by decide) _ 0

end Service

/-! ## What a client relies on and promises -/

/-- What the service and other clients may do while a client works: valid envelopes stay valid,
and no item gets lost. -/
structure OthersAct (s t : Store) : Prop where
  valid : s.Valid → t.Valid
  kept : ∀ fileName, s.Kept fileName → t.Kept fileName

/-- An answer a client may give: a fresh id is the id of an item that is kept. -/
def Store.Backs (s : Store) (result : Answer) : Prop :=
  ∀ id, result = .ok (id, false) → ∃ fileName, fileName.id = id ∧ s.Kept fileName

/-- The commands a client issues. -/
def ClientMay : Cmd → Store → Prop
  | .write path envelope, _ => envelope.Fits path.2 ∧ envelope.encodable = true
  | .remove path, _ => path.1 = .dead
  | .discard _, _ => False
  | .quarantine _, _ => False
  | .answer result, s => s.Backs result
  | _, _ => True

lemma OthersAct.refl (s : Store) : OthersAct s s := ⟨id, fun _ h => h⟩

lemma OthersAct.trans (hst : OthersAct s t) (htu : OthersAct t u) : OthersAct s u where
  valid := htu.valid ∘ hst.valid
  kept := fun fileName h => htu.kept fileName (hst.kept fileName h)

/-- An answer that is backed stays backed. -/
lemma OthersAct.backs (h : OthersAct s t) {result : Answer} (hs : s.Backs result) :
    t.Backs result := by
  intro id hresult
  obtain ⟨fileName, hid, hkept⟩ := hs id hresult
  exact ⟨fileName, hid, h.kept fileName hkept⟩

/-- A command of a client keeps every envelope valid. -/
lemma ClientMay.valid (hmay : ClientMay c s) (hs : s.Valid) (heffect : StoreEffect s c t) :
    t.Valid := by
  refine heffect.valid hs ?_
  rintro path envelope rfl
  exact hmay

/-- A file that a `Retry` removes from `dead` is still in `pending`. -/
def Cmd.Backed (c : Cmd) (s : Store) : Prop :=
  ∀ fileName, c = .remove (.dead, fileName) → (.pending, fileName) ∈ s.files

/-- The service tolerates a command of a client that keeps its file in `pending`. -/
lemma ClientMay.clientsAct (hmay : ClientMay c s) (hbacked : c.Backed s) (hs : s.Valid)
    (heffect : StoreEffect s c t) : ClientsAct s t := by
  have hvalid := hmay.valid hs heffect
  cases heffect with
  | same files =>
    exact ⟨fun _ => hvalid, fun _ _ _ hmem => files ▸ hmem, fun _ hmem => Or.inl (files ▸ hmem)⟩
  | stored path envelope =>
    have hgrows : ∀ other, other ∈ s.files → other ∈ (s.put path envelope).files :=
      fun other hmem => Store.mem_put.mpr (Or.inr hmem)
    exact ⟨fun _ => hvalid, fun _ _ _ => hgrows _, fun _ hmem => Or.inl (hgrows _ hmem)⟩
  | removed path =>
    obtain ⟨d, removed⟩ := path
    obtain rfl : d = .dead := hmay
    have hstays : ∀ d fileName, d ≠ .dead → (d, fileName) ∈ s.files →
        (d, fileName) ∈ (s.drop (.dead, removed)).files :=
      fun d fileName hd hmem => Store.mem_drop.mpr ⟨fun h => hd (congrArg Prod.fst h), hmem⟩
    refine ⟨fun _ => hvalid, hstays, fun fileName hmem => ?_⟩
    by_cases hname : fileName = removed
    · subst hname
      exact Or.inr (hstays _ _ (by decide) (hbacked fileName rfl))
    · exact Or.inl (Store.mem_drop.mpr ⟨fun h => hname (congrArg Prod.snd h), hmem⟩)
  | discarded path => exact hmay.elim
  | quarantined path => exact hmay.elim
  | answered result => exact ⟨id, fun _ _ _ h => h, fun _ h => Or.inl h⟩

/-- Other clients tolerate it too. -/
lemma ClientMay.kept (hmay : ClientMay c s) (hbacked : c.Backed s) (heffect : StoreEffect s c t)
    (hkept : s.Kept fileName) : t.Kept fileName := by
  refine heffect.kept ?_ ?_ hkept
  · rintro path rfl
    exact hmay
  · rintro d rfl
    obtain rfl : d = .dead := hmay
    exact ⟨.pending, by decide, hbacked fileName rfl⟩

/-! ## The operations of a client -/

/-- A program of a client that, started in a valid store, keeps its promise and the store valid
while the service and others act. -/
def Asks {α : Type} (post : α → Store → Prop) (p : QueueProg α) (s : Store) : Prop :=
  s.Valid → Safe machine (fun _ => OthersAct) ClientMay (fun a t => t.Valid ∧ post a t) p s

section Client

variable {α β : Type} {post : α → Store → Prop} {s : Store} {c : Cmd}
  {next : Reply c → QueueProg α}

/-- Sequential composition of programs of a client. -/
lemma Asks.bind {p : QueueProg α} {f : α → QueueProg β} {post' : β → Store → Prop}
    (hp : Asks post p s) (hf : ∀ a t, post a t → Asks post' (f a) t) : Asks post' (p.bind f) s :=
  fun hs => Safe.bind (fun _ => OthersAct.refl) (hp hs) fun a t ht => hf a t ht.2 ht.1

/-- A result that needs nothing but a valid store. -/
lemma asks_ret {a : α} (h : ∀ t, post a t) : Asks post (.ret a) s :=
  fun hs => safe_ret_of_stable hs (fun _ _ ht hact => hact.valid ht) fun t ht => ⟨ht, h t⟩

/-- A command a client may always issue. -/
lemma asks_cmd (hpre : ∀ t, ClientMay c t)
    (hnext : ∀ x r t v, exec x c t = some (r, v) → Asks post (next r) v) :
    Asks post (.cmd c next) s :=
  fun hs => safe_cmd_of_stable hs (fun _ _ ht hact => hact.valid ht) (fun t _ => hpre t)
    fun x r t v ht hx => hnext x r t v hx ((hpre t).valid ht (storeEffect_of_exec hx))

/-- What `Enqueue` is about to answer is backed. -/
def Store.BacksOption (s : Store) (result : Option Answer) : Prop :=
  ∀ answer, result = some answer → s.Backs answer

/-- Reserving a marker and writing the item answers only with an item that is kept. -/
lemma asks_reserve (key : String) {id : String} (hid : id ≠ "") (notification : Notification)
    (now : Time) (fuel : Nat) : Asks (fun result t => t.BacksOption result)
      (reserve key id notification now fuel) s := by
  intro hs
  have hidle : Undisturbed (fun _ => OthersAct) ClientMay Store.Valid :=
    { stable := fun _ _ _ ht hact => hact.valid ht
      same := fun a b ha hab path envelope hlookup => ha path envelope (hab.files ▸ hlookup)
      quiet := fun c t hquiet _ => by cases c <;> first | exact trivial | cases hquiet }
  have hview : EnqueueView (fun _ => OthersAct) ClientMay Store.Valid
      (fun t => t.Valid ∧ t.Kept ⟨now, id⟩) (fun _ _ => True) :=
    { refl := fun _ => OthersAct.refl
      idle := hidle
      seen := fun _ =>
        { stable := fun o a b ha hact => ⟨hidle.stable o a b ha.1 hact, trivial⟩
          same := fun a b ha hab => ⟨hidle.same a b ha.1 hab, trivial⟩
          quiet := fun c t hquiet ht => hidle.quiet c t hquiet ht.1 }
      sight := fun _ _ _ _ _ => trivial
      written := fun a b ha hact => ⟨hact.valid ha.1, hact.kept _ ha.2⟩ }
  refine (hview.reserve key id notification now fuel ?_ hs).weaken (fun _ _ h => h) ?_
  · intro t ht henc
    have hfits := newEnvelope_fits hid notification now
    exact ⟨⟨hfits, henc⟩, ht.insert hfits henc rfl,
      Or.inl ⟨.pending, Store.mem_put.mpr (Or.inl rfl)⟩⟩
  · intro result t hresult
    match result, hresult with
    | none, ht => exact ⟨ht, nofun⟩
    | some (.error message), ht =>
      refine ⟨ht, ?_⟩
      rintro answer ⟨⟩ id ⟨⟩
    | some (.ok (answered, false)), ⟨heq, ht, hkept⟩ =>
      refine ⟨ht, ?_⟩
      rintro answer ⟨⟩ id' ⟨⟩
      exact ⟨_, heq.symm, hkept⟩
    | some (.ok (answered, true)), ⟨ht, _⟩ =>
      refine ⟨ht, ?_⟩
      rintro answer ⟨⟩ id' ⟨⟩

/-- `Enqueue` answers only with an item that is kept. -/
lemma asks_enqueue (sha256 : String → String) (fuel : Nat) (notification : Notification)
    (now : Time) : Asks (fun result t => t.BacksOption result)
      (enqueue sha256 fuel notification now) s := by
  unfold enqueue
  split
  · refine asks_ret fun t => ?_
    rintro answer ⟨⟩ id ⟨⟩
  · refine asks_cmd (fun _ => trivial) ?_
    intro x id t v hx
    obtain ⟨hid, -, -⟩ := randomID_fresh hx
    exact asks_reserve _ hid notification now fuel

/-- Moving a file from `dead` to `pending`. -/
lemma asks_transitionEnvelope {fileName : FileName} {envelope : Envelope}
    (hfits : envelope.Fits fileName) : Asks (fun _ _ => True)
      ((transitionEnvelope .dead .pending fileName envelope).working ()) s := by
  rw [transitionEnvelope, writeNew, write]
  refine asks_cmd (fun _ => trivial) fun x found t v _ => ?_
  cases found with
  | true => exact asks_ret fun _ => trivial
  | false =>
    cases henc : envelope.encodable with
    | false => exact asks_ret fun _ => trivial
    | true =>
      refine asks_cmd (fun _ => ⟨hfits, henc⟩) fun x r t v _ => ?_
      exact asks_cmd (fun _ => rfl) fun x r t v _ => asks_ret fun _ => trivial

/-- `Retry` writes an envelope that is fit. -/
lemma asks_retry (id : String) (now : Time) :
    Asks (fun _ _ => True) ((retry id now).working ()) s := by
  have hlist : Asks (fun o _ => ListResult Store.Valid .dead o.1)
      ((listUnlocked .dead).working ()) s :=
    fun hs => safe_listUnlocked (fun _ => OthersAct.refl) (fun _ _ _ ht hact => hact.valid ht)
      (fun _ ht => ht) (fun _ _ _ => trivial) (fun _ _ _ => trivial) .dead hs
  rw [retry, working_bind]
  refine hlist.bind ?_
  rintro ⟨err | items, ⟨⟩⟩ t hresult
  · exact asks_ret fun _ => trivial
  · simp only
    split
    · exact asks_ret fun _ => trivial
    · rename_i item hfind
      obtain ⟨u, hu, hlookup⟩ := hresult.1 item (List.mem_of_find?_eq_some hfind)
      exact asks_transitionEnvelope ((hu _ _ hlookup).1.congr rfl rfl rfl rfl)

end Client

/-! ## Runs of the service and its clients -/

/-- Whether a call is one of the service, and not `Enqueue` or `Retry`. -/
def Call.ofService : Call → Bool
  | .enqueue _ _ _ | .retry _ _ => false
  | _ => true

/-- Process 0 is the service, all others are clients. -/
def shared (sha256 : String → String) : Protocol Cmd Reply Store Choice Call Memory Nat where
  machine := machine
  may := fun i k _ _ => decide (i = 0) == k.ofService
  body := fun _ => body sha256
  fresh := {}

/-- A configuration of the service and its clients. -/
abbrev SharedConfig := Config Cmd Reply Store Call Memory Nat

/-- An empty queue, before any process starts. -/
def sharedStart : SharedConfig := { store := {}, procs := fun _ => none }

/-- A `Retry` that removes a file from `dead` finds it in `pending`, where it has written it. -/
def RetryBacked (e : Event Call Choice Nat) (c : SharedConfig) : Prop :=
  ∀ i x k o next, e = .step i x → c.procs i = some (.busy k (.cmd o next)) → o.Backed c.store

/-- What the service promises. -/
def serviceContract : Contract Cmd Store Call Memory where
  rest := fun s t => s.Valid → t.Valid
  rely := fun _ _ => ClientsAct
  pre := fun _ => ServiceMay
  idle := fun m s => s.Valid ∧ HoldsFit m
  done := fun _ m s => s.Valid ∧ HoldsFit m

/-- What a client promises. -/
def clientContract : Contract Cmd Store Call Memory where
  rest := fun s t => s.Valid → t.Valid
  rely := fun _ _ => OthersAct
  pre := fun _ => ClientMay
  idle := fun _ s => s.Valid
  done := fun _ _ s => s.Valid

/-- The contract of each process. -/
def sharedContract (i : Nat) : Contract Cmd Store Call Memory :=
  if i = 0 then serviceContract else clientContract

lemma sharedContract_ne {i : Nat} (h : i ≠ 0) : sharedContract i = clientContract := if_neg h

lemma sharedContract_lawful (i : Nat) : (sharedContract i).Lawful := by
  by_cases hi : i = 0
  · subst hi
    exact
      { rely_refl := fun _ _ => ClientsAct.refl
        rely_trans := fun _ _ _ _ _ => ClientsAct.trans
        rest_refl := fun _ h => h
        idle_stable := fun _ _ _ h hst => ⟨hst h.1, h.2⟩
        idle_of_done := fun _ _ _ h => h }
  · rw [sharedContract_ne hi]
    exact
      { rely_refl := fun _ _ => OthersAct.refl
        rely_trans := fun _ _ _ _ _ => OthersAct.trans
        rest_refl := fun _ h => h
        idle_stable := fun _ _ _ h hst => hst h
        idle_of_done := fun _ _ _ h => h }

/-- Every call of the service keeps its contract. -/
lemma serves_body (sha256 : String → String) (k : Call) (hk : k.ofService = true) {m : Memory}
    (hm : HoldsFit m) : Serves (fun m _ => HoldsFit m) (body sha256 k m) s := by
  have hheld : ∀ {α : Type} {p : QueueRoutine Item α} (held : Nat),
      (∀ item, HeldOutcome item (p.working item)) →
      Serves (fun m _ => HoldsFit m) (m.act held p) s := by
    intro α p held hp
    rw [Memory.act]
    split
    · exact serves_ret fun _ => hm
    · rename_i item hitem
      exact (serves_held (hm item (List.mem_of_getElem? hitem)) (hp item)).bind
        fun o t ht => serves_ret fun _ => hm.set ht held
  have hrest : ∀ {p : QueueRoutine Unit Nat}, Serves (fun _ _ => True) (p.working ()) s →
      Serves (fun m _ => HoldsFit m) (m.keep p) s :=
    fun hp => hp.bind fun _ t _ => serves_ret fun _ => hm
  cases k with
  | enqueue | retry => cases hk
  | claim now lease =>
    refine (serves_claim hm now lease).bind ?_
    rintro ⟨message | _ | item, ⟨⟩⟩ t hclaimed
    · exact serves_ret fun _ => hm
    · exact serves_ret fun _ => hm
    · exact serves_ret fun _ => hclaimed
  | ack held now => exact hheld held fun _ => heldOutcome_ack now
  | nack held cause now backoff => exact hheld held fun _ => heldOutcome_nack cause now backoff
  | resolveTargets held targets now =>
    exact hheld held fun _ => heldOutcome_resolveTargets targets now
  | ackTarget held target messageID now =>
    exact hheld held fun _ => heldOutcome_updateTarget target _ now
  | nackTarget held target cause nextAttemptAt now =>
    exact hheld held fun _ => heldOutcome_nackTarget target cause nextAttemptAt now
  | deadTarget held target cause now =>
    exact hheld held fun _ => heldOutcome_deadTarget target cause now
  | defer held now nextAttemptAt => exact hheld held fun _ => heldOutcome_defer now nextAttemptAt
  | recoverExpired now => exact hrest (serves_recoverExpired now)
  | cleanupHistory before => exact hrest (serves_cleanupHistory sha256 before)
  | cleanupDead before maximum => exact hrest (serves_cleanupDead sha256 before maximum)

/-- Every call of a client keeps its contract. -/
lemma asks_body (sha256 : String → String) (k : Call) (hk : k.ofService = false) (m : Memory) :
    Asks (fun _ _ => True) (body sha256 k m) s := by
  cases k with
  | enqueue fuel notification now =>
    refine (asks_enqueue sha256 fuel notification now).bind ?_
    rintro (_ | result) t hbacked ht
    · exact asks_ret (fun _ => trivial) ht
    · refine safe_cmd_of_stable (A := fun u => u.Valid ∧ u.Backs result)
        ⟨ht, hbacked result rfl⟩ ?_ (fun _ hu => hu.2) ?_
      · exact fun a b ha hact => ⟨hact.valid ha.1, hact.backs ha.2⟩
      · intro x r u v hu hx
        cases hx
        exact asks_ret (fun _ => trivial) hu.1
  | retry id now => exact (asks_retry id now).bind fun _ t _ => asks_ret fun _ => trivial
  | claim | ack | nack | resolveTargets | ackTarget | nackTarget | deadTarget | defer
  | recoverExpired | cleanupHistory | cleanupDead => cases hk

/-- What holds along every run in which no `Retry` removes a file that was moved on. -/
structure SharedInvariant (c : SharedConfig) : Prop where
  sound : c.Sound machine sharedContract
  valid : c.store.Valid
  backed : ∀ result ∈ c.store.answers, c.store.Backs result

variable {c' : SharedConfig} {e : Event Call Choice Nat}

/-- A command of any process keeps the store valid and every item; the service tolerates one of
a client. -/
lemma SharedInvariant.step {c : SharedConfig} (h : SharedInvariant c) {i : Nat} {o : Cmd}
    {k : Call} (hpre : (sharedContract i).pre k o c.store) (hbacked : o.Backed c.store)
    (heffect : StoreEffect c.store o t) :
    OthersAct c.store t ∧ (i ≠ 0 → ClientsAct c.store t) := by
  by_cases hi : i = 0
  · subst hi
    have hmay : ServiceMay o c.store := hpre
    refine ⟨⟨fun hs => hmay.valid hs heffect, fun _ => hmay.kept heffect⟩, ?_⟩
    exact fun hne => absurd rfl hne
  · rw [sharedContract_ne hi] at hpre
    have hmay : ClientMay o c.store := hpre
    refine ⟨⟨fun hs => hmay.valid hs heffect, fun _ => hmay.kept hbacked heffect⟩, ?_⟩
    exact fun _ => hmay.clientsAct hbacked h.valid heffect

/-- One event keeps the contract of every process. -/
lemma SharedInvariant.sound_next {c : SharedConfig} (h : SharedInvariant c)
    (hok : RetryBacked e c) (he : (shared sha256).next e c = some c') :
    c'.Sound machine sharedContract := by
  refine h.sound.next sharedContract_lawful he ?_ ?_ ?_
  · intro i _ _
    by_cases hi : i = 0
    · subst hi
      exact ⟨h.valid, fun item hitem => by cases hitem⟩
    · rw [sharedContract_ne hi]
      exact h.valid
  · intro i k m _ hidle hmay
    by_cases hi : i = 0
    · subst hi
      refine serves_body sha256 k ?_ hidle.2 hidle.1
      simpa [shared] using hmay
    · rw [sharedContract_ne hi] at hidle ⊢
      have hclient : k.ofService = false := by simpa [shared, hi] using hmay
      exact (asks_body sha256 k hclient m hidle).weaken (fun _ _ h => h) fun _ _ h => h.1
  · intro i x k o next r v hstep hproc hpre hexec j a hne hj
    obtain ⟨hothers, hclients⟩ :=
      h.step hpre (hok i x k o next hstep hproc) (storeEffect_of_exec hexec)
    by_cases hj0 : j = 0
    · subst hj0
      cases a with
      | idle m => exact hothers.valid
      | busy k' p => exact hclients (Ne.symm hne)
    · rw [sharedContract_ne hj0]
      cases a with
      | idle m => exact hothers.valid
      | busy k' p => exact hothers

/-- One event keeps the invariant. -/
lemma SharedInvariant.next {c : SharedConfig} (h : SharedInvariant c) (hok : RetryBacked e c)
    (he : (shared sha256).next e c = some c') : SharedInvariant c' := by
  have hsound := h.sound_next hok he
  cases Protocol.effect_of_next he with
  | spawned | called | returned | killed => exact ⟨hsound, h.valid, h.backed⟩
  | issued i x k o next r v runs result =>
    have heffect := storeEffect_of_exec result
    have hpre := h.sound.pre sharedContract_lawful runs
    obtain ⟨hothers, -⟩ := h.step hpre (hok i x k o next rfl runs) heffect
    refine ⟨hsound, hothers.valid h.valid, fun answer hanswer => hothers.backs ?_⟩
    cases heffect with
    | same files written cleaned answers => exact h.backed answer (answers ▸ hanswer)
    | stored | removed | discarded | quarantined => exact h.backed answer hanswer
    | answered given =>
      rcases List.mem_cons.mp hanswer with rfl | hanswer
      · by_cases hi : i = 0
        · subst hi
          exact hpre.elim
        · rw [sharedContract_ne hi] at hpre
          exact hpre
      · exact h.backed answer hanswer

/-- In every run of the service and its clients in which a `Retry` that removes a file from
`dead` finds it in `pending`, every item `Enqueue` answered with a fresh id, and that no cleanup
removed, is stored as a valid envelope with that id. -/
theorem envelope_stored_of_answered (sha256 : String → String) {c : SharedConfig}
    (hc : Reachable (shared sha256) RetryBacked sharedStart c) {id : String}
    (henqueued : .ok (id, false) ∈ c.store.answers) (hkept : id ∉ c.store.cleaned) :
    ∃ d fileName envelope, c.store.files.lookup (d, fileName) = some envelope ∧
      envelope.id = id ∧ envelope.listable = true := by
  have hinv : SharedInvariant c := by
    refine hc.invariant SharedInvariant ⟨?_, ?_, ?_⟩ fun c c' e hc hok he => hc.next hok he
    · intro i a hi
      cases hi
    · intro path envelope hlookup
      cases hlookup
    · intro result hresult
      cases hresult
  obtain ⟨fileName, rfl, ⟨d, hmem⟩ | hclean⟩ := hinv.backed _ henqueued id rfl
  · obtain ⟨envelope, hlookup⟩ := Option.isSome_iff_exists.mp (AList.lookup_isSome.mpr hmem)
    obtain ⟨hfits, -⟩ := hinv.valid _ _ hlookup
    exact ⟨d, fileName, envelope, hlookup, hfits.id_eq, hfits.listable⟩
  · exact absurd hclean hkept

/-- Whether an event is not the removal of a file from `dead` that `pending` lacks. -/
def backedCheck (e : Event Call Choice Nat) (c : SharedConfig) : Bool :=
  match e with
  | .step i _ =>
    match c.procs i with
    | some (.busy _ (.cmd (.remove (.dead, fileName)) _)) =>
      decide ((.pending, fileName) ∈ c.store.files)
    | _ => true
  | _ => true

lemma retryBacked_of_check {c : SharedConfig} (h : backedCheck e c = true) : RetryBacked e c := by
  rintro i x k _ next rfl hproc fileName rfl
  simpa [backedCheck, hproc] using h

/-- `n` steps of process `i` that leave nothing open. -/
def stepsOf (i n : Nat) : List (Event Call Choice Nat) := List.replicate n (.step i .nothing)

/-- The service claims the sample item. -/
def serviceClaims : List (Event Call Choice Nat) :=
  [.call 0 (.claim 2 5), .step 0 (.order [sampleName])] ++ stepsOf 0 5

/-- The service is restarted and looks for expired leases. -/
def serviceRestarts : List (Event Call Choice Nat) :=
  [.kill 0, .spawn 0, .call 0 (.recoverExpired 10), .step 0 (.order [sampleName])]

/-- A client enqueues the sample notification, the service claims it and gives it up, and the
client retries it up to the removal from `dead`. -/
def clientRetries : List (Event Call Choice Nat) :=
  [.spawn 0, .spawn 1, .call 1 (.enqueue 1 sampleNotification 1), .step 1 (.id sampleID)] ++
    stepsOf 1 6 ++ serviceClaims ++ [.call 0 (.nack 0 (some "offline") 3 [])] ++ stepsOf 0 4 ++
    [.call 1 (.retry sampleID 4), .step 1 (.order [sampleName])] ++ stepsOf 1 3

/-- A run in which the `Retry` is finished before the service claims the item again and, after
a restart, recovers it. -/
def retriedItemRun : List (Event Call Choice Nat) :=
  clientRetries ++ stepsOf 1 2 ++ serviceClaims ++ serviceRestarts ++ stepsOf 0 8

/-- A run in which the service claims the item and recovers it while the `Retry` is between its
two steps. -/
def lostItemRun : List (Event Call Choice Nat) :=
  clientRetries ++ serviceClaims ++ serviceRestarts ++ stepsOf 0 6 ++ stepsOf 1 1

/-- The configuration after the run with the finished `Retry`. -/
def retriedItemEnd : SharedConfig := (shared id).endOf backedCheck retriedItemRun sharedStart

/-- The configuration after the run that loses the item. -/
def lostItemEnd : SharedConfig := (shared id).endOf (fun _ _ => true) lostItemRun sharedStart

/-- After a finished `Retry`, a claim, a kill and a recovery the envelope of the item is
stored. -/
theorem envelope_stored_after_retry : Reachable (shared id) RetryBacked sharedStart retriedItemEnd ∧
      ∃ d fileName envelope, retriedItemEnd.store.files.lookup (d, fileName) = some envelope ∧
        envelope.id = sampleID ∧ envelope.listable = true := by
  have hrun : ((shared id).runIf backedCheck retriedItemRun sharedStart).any (fun c =>
      decide (.ok (sampleID, false) ∈ c.store.answers ∧ sampleID ∉ c.store.cleaned)) = true := by
    decide +kernel
  obtain ⟨hreach, hgood⟩ := reachable_endOf (fun _ _ => retryBacked_of_check) .start hrun
    (rfl : retriedItemEnd = _)
  obtain ⟨henqueued, hkept⟩ := of_decide_eq_true hgood
  exact ⟨hreach, envelope_stored_of_answered id hreach henqueued hkept⟩

/-- An item that was enqueued and not cleaned up is in no directory: a `Retry` wrote it to
`pending`, the service claimed it from there and, after a restart, dropped its inflight copy
because `dead` still had one, and then the `Retry` removed the one in `dead`. -/
theorem item_lost_between_retry_and_recovery :
    Reachable (shared id) (fun _ _ => True) sharedStart lostItemEnd ∧
      .ok (sampleID, false) ∈ lostItemEnd.store.answers ∧
      sampleID ∉ lostItemEnd.store.cleaned ∧ lostItemEnd.store.files.keys = [] := by
  have hrun : ((shared id).runIf (fun _ _ => true) lostItemRun sharedStart).any (fun c =>
      decide (.ok (sampleID, false) ∈ c.store.answers ∧ sampleID ∉ c.store.cleaned ∧
        c.store.files.keys = [])) = true := by
    decide +kernel
  obtain ⟨hreach, hgood⟩ := reachable_endOf (fun _ _ _ => trivial) .start hrun
    (rfl : lostItemEnd = _)
  exact ⟨hreach, of_decide_eq_true hgood⟩

end AgentBell.Queue
