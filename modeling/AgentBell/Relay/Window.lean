import Mathlib.Data.Finset.Dedup
import Mathlib.Data.Finset.Erase
import Mathlib.Data.Finset.Insert

/-!
# The receipts a transport remembers

A transport rejects the receipts it has accepted last.  Their ids are kept in a map, and in a ring
of fixed size that says which of them is forgotten next.
-/

namespace AgentBell.Relay

/-- The number of receipts that are remembered. -/
def stdioRememberedACKs : Nat := 1024

/-- What a transport remembers of the receipts it has accepted. -/
structure StdioTransport where
  seenACKs : Finset String := ∅
  ackOrder : Nat → String := fun _ => ""
  ackCount : Nat := 0
  ackCursor : Nat := 0

/-- Whether a receipt is accepted, and what is remembered then. -/
def rememberACK (transport : StdioTransport) (receiptID : String) : Bool × StdioTransport :=
  if receiptID ∈ transport.seenACKs then (false, transport)
  else if transport.ackCount < stdioRememberedACKs then
    (true,
      { transport with
        seenACKs := insert receiptID transport.seenACKs
        ackOrder := Function.update transport.ackOrder transport.ackCount receiptID
        ackCount := transport.ackCount + 1 })
  else
    (true,
      { transport with
        seenACKs :=
          insert receiptID (transport.seenACKs.erase (transport.ackOrder transport.ackCursor))
        ackOrder := Function.update transport.ackOrder transport.ackCursor receiptID
        ackCursor := (transport.ackCursor + 1) % stdioRememberedACKs })

/-- The ids that were accepted, and what is remembered, after a call for each id. -/
def rememberACKs (ids : List String) : List String × StdioTransport :=
  ids.foldl (fun log id =>
    let (new, transport) := rememberACK log.2 id
    (if new then log.1 ++ [id] else log.1, transport)) ([], {})

/-- The last ids that were accepted. -/
def recent (accepted : List String) : List String :=
  accepted.drop (accepted.length - stdioRememberedACKs)

/-- The last ids that were accepted are remembered, each in the slot of its number. -/
structure Remembers (accepted : List String) (transport : StdioTransport) : Prop where
  count : transport.ackCount = min accepted.length stdioRememberedACKs
  cursor : transport.ackCursor = (accepted.length - stdioRememberedACKs) % stdioRememberedACKs
  order : ∀ m, accepted.length - stdioRememberedACKs ≤ m → m < accepted.length →
    accepted[m]? = some (transport.ackOrder (m % stdioRememberedACKs))
  seen : ∀ id, id ∈ transport.seenACKs ↔ id ∈ recent accepted
  nodup : (recent accepted).Nodup

variable {accepted : List String} {transport : StdioTransport} {id : String}

/-- A new id goes to the slot of its number. -/
lemma Remembers.append {next : StdioTransport} (h : Remembers accepted transport)
    (hnew : id ∉ transport.seenACKs)
    (hcount : next.ackCount = min (accepted.length + 1) stdioRememberedACKs)
    (hcursor : next.ackCursor = (accepted.length + 1 - stdioRememberedACKs) % stdioRememberedACKs)
    (horder : next.ackOrder =
      Function.update transport.ackOrder (accepted.length % stdioRememberedACKs) id)
    (hseen : ∀ other, other ∈ next.seenACKs ↔
      other ∈ accepted.drop (accepted.length + 1 - stdioRememberedACKs) ∨ other = id) :
    Remembers (accepted ++ [id]) next := by
  have hlength : (accepted ++ [id]).length = accepted.length + 1 := List.length_append
  have hrecent : recent (accepted ++ [id]) =
      accepted.drop (accepted.length + 1 - stdioRememberedACKs) ++ [id] := by
    rw [recent, hlength, List.drop_append_of_le_length]
    exact Nat.sub_le_of_le_add (Nat.add_le_add_left (by decide) _)
  have hkept : accepted.drop (accepted.length + 1 - stdioRememberedACKs) <:+ recent accepted :=
    List.drop_suffix_drop_left accepted (Nat.sub_le_sub_right (Nat.le_succ _) _)
  refine ⟨by rw [hcount, hlength], by rw [hcursor, hlength], fun m hm hlt => ?_, fun other => ?_,
    ?_⟩
  · by_cases hlast : m = accepted.length
    · rw [hlast, List.getElem?_concat_length, horder, Function.update_self]
    · have hslot : m % stdioRememberedACKs ≠ accepted.length % stdioRememberedACKs := by
        unfold stdioRememberedACKs at *
        omega
      rw [List.getElem?_append_left (by omega), horder, Function.update_of_ne hslot]
      exact h.order m (by omega) (by omega)
  · rw [hseen, hrecent, List.mem_append, List.mem_singleton]
  · rw [hrecent]
    refine (h.nodup.sublist hkept.sublist).append (List.nodup_singleton id) ?_
    rw [List.disjoint_singleton]
    exact fun hid => hnew ((h.seen id).mpr (hkept.subset hid))

/-- A call whose id is not remembered is accepted. -/
lemma Remembers.step (h : Remembers accepted transport) (hnew : id ∉ transport.seenACKs) :
    (rememberACK transport id).1 = true ∧
      Remembers (accepted ++ [id]) (rememberACK transport id).2 := by
  have hcount := h.count
  have hcursor := h.cursor
  rw [rememberACK, if_neg hnew]
  split
  · have hroom : accepted.length < stdioRememberedACKs := by omega
    have hall : accepted.length + 1 - stdioRememberedACKs = 0 := by omega
    refine ⟨rfl, h.append hnew ?_ ?_ ?_ fun other => ?_⟩
    · dsimp only
      omega
    · rw [hall, hcursor, Nat.sub_eq_zero_of_le hroom.le]
    · rw [Nat.mod_eq_of_lt hroom, hcount, min_eq_left hroom.le]
    · rw [Finset.mem_insert, h.seen, recent, hall, Nat.sub_eq_zero_of_le hroom.le, or_comm]
  · -- the oldest id gives way
    have hfull : stdioRememberedACKs ≤ accepted.length := by omega
    have hpos : 0 < stdioRememberedACKs := by decide
    have hlt : accepted.length - stdioRememberedACKs < accepted.length := by omega
    have holdest := h.order _ le_rfl hlt
    rw [← hcursor, List.getElem?_eq_getElem hlt, Option.some.injEq] at holdest
    have hrecent : recent accepted = transport.ackOrder transport.ackCursor ::
        accepted.drop (accepted.length + 1 - stdioRememberedACKs) := by
      rw [← holdest, Nat.sub_add_comm hfull]
      exact List.drop_eq_getElem_cons hlt
    have hnodup := h.nodup
    rw [hrecent, List.nodup_cons] at hnodup
    refine ⟨rfl, h.append hnew ?_ ?_ ?_ fun other => ?_⟩
    · dsimp only
      omega
    · rw [Nat.sub_add_comm hfull, hcursor, Nat.mod_add_mod]
    · rw [hcursor, ← Nat.mod_eq_sub_mod hfull]
    · rw [Finset.mem_insert, Finset.mem_erase, h.seen, hrecent, List.mem_cons, or_comm]
      refine or_congr_left ⟨fun hother => hother.2.resolve_left hother.1, fun hother => ?_⟩
      exact ⟨fun heq => hnodup.1 (heq ▸ hother), .inr hother⟩

/-- Every sequence of calls leaves the last accepted ids. -/
lemma remembers_rememberACKs (ids : List String) :
    Remembers (rememberACKs ids).1 (rememberACKs ids).2 := by
  induction ids using List.reverseRecOn with
  | nil => exact ⟨rfl, rfl, nofun, fun id => by simp [rememberACKs, recent], List.nodup_nil⟩
  | append_singleton ids id ih =>
    rw [rememberACKs, List.foldl_append, ← rememberACKs, List.foldl_cons, List.foldl_nil]
    by_cases hseen : id ∈ (rememberACKs ids).2.seenACKs
    · rw [show rememberACK (rememberACKs ids).2 id = (false, (rememberACKs ids).2) from
        if_pos hseen]
      exact ih
    · obtain ⟨hnew, hstep⟩ := ih.step hseen
      simp only [hnew, if_true]
      exact hstep

/-- After every sequence of calls the map holds the last ids that were accepted, which are
different, they are those in the ring, and the next call is rejected just when its id is one of
them. -/
theorem rememberACK_window (ids : List String) : (recent (rememberACKs ids).1).Nodup ∧
      (rememberACKs ids).2.seenACKs = (recent (rememberACKs ids).1).toFinset ∧
      (∀ id, id ∈ (rememberACKs ids).2.seenACKs ↔ ∃ slot < (rememberACKs ids).2.ackCount,
        (rememberACKs ids).2.ackOrder slot = id) ∧
      ∀ id, (rememberACK (rememberACKs ids).2 id).1 = false ↔ id ∈ recent (rememberACKs ids).1 := by
  have h := remembers_rememberACKs ids
  generalize (rememberACKs ids).1 = accepted, (rememberACKs ids).2 = transport at h
  have hcount := h.count
  refine ⟨h.nodup, Finset.ext fun id => by rw [h.seen, List.mem_toFinset], fun id => ?_,
    fun id => ?_⟩
  · rw [h.seen, recent, List.mem_iff_getElem?]
    constructor
    · rintro ⟨k, hk⟩
      rw [List.getElem?_drop] at hk
      have hlt := (List.getElem?_eq_some_iff.mp hk).1
      rw [h.order _ (Nat.le_add_right _ _) hlt] at hk
      refine ⟨_, ?_, Option.some.inj hk⟩
      unfold stdioRememberedACKs at *
      omega
    · rintro ⟨slot, hslot, rfl⟩
      -- the number of the last id that went to the slot
      obtain ⟨k, hk, hmod⟩ : ∃ k, accepted.length - stdioRememberedACKs + k < accepted.length ∧
          (accepted.length - stdioRememberedACKs + k) % stdioRememberedACKs = slot := by
        unfold stdioRememberedACKs at *
        exact ⟨(slot + 1024 - (accepted.length - 1024) % 1024) % 1024, by omega, by omega⟩
      refine ⟨k, ?_⟩
      rw [List.getElem?_drop, h.order _ (Nat.le_add_right _ _) hk, hmod]
  · rw [← h.seen]
    by_cases hid : id ∈ transport.seenACKs
    · rw [rememberACK, if_pos hid]
      exact ⟨fun _ => hid, fun _ => rfl⟩
    · rw [(h.step hid).1]
      exact ⟨nofun, fun hseen => absurd hseen hid⟩

end AgentBell.Relay
