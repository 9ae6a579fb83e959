import AgentBell.Streams.Bytes

/-!
# Texts as bytes, and concatenations that can be taken apart

The UTF-8 bytes of a text, and two ways to put several byte strings into one: with a separator that
does not occur in them, and with their lengths in front.  Both can be undone.
-/

namespace Streams

/-! ## Separators -/

section Separated

variable {α : Type} {z : α} {a b x y : List α}

/-- Two lists that agree have the same part before the first separator, and the same rest. -/
theorem append_cons_inj_left (ha : z ∉ a) (hb : z ∉ b) (h : a ++ z :: x = b ++ z :: y) :
    a = b ∧ x = y := by
  induction a generalizing b with
  | nil =>
    cases b with
    | nil => exact ⟨rfl, (List.cons.inj h).2⟩
    | cons c b => exact absurd ((List.cons.inj h).1 ▸ List.mem_cons_self) hb
  | cons c a ih =>
    cases b with
    | nil => exact absurd ((List.cons.inj h).1 ▸ List.mem_cons_self) ha
    | cons d b =>
      obtain ⟨hhead, htail⟩ := List.cons.inj h
      obtain ⟨htail, hrest⟩ := ih (fun hz => ha (List.mem_cons_of_mem c hz))
        (fun hz => hb (List.mem_cons_of_mem d hz)) htail
      exact ⟨by rw [hhead, htail], hrest⟩

end Separated

/-! ## Lengths -/

/-- A byte string with its length in front. -/
def sized (value : List UInt8) : List UInt8 := bigEndian value.length ++ value

/-- A byte string with its length in front ends where its length says. -/
theorem sized_append_inj {a b x y : List UInt8} (ha : a.length < 2 ^ 32) (hb : b.length < 2 ^ 32)
    (h : sized a ++ x = sized b ++ y) : a = b ∧ x = y := by
  unfold sized at h
  rw [List.append_assoc, List.append_assoc] at h
  obtain ⟨hsize, hrest⟩ := List.append_inj h rfl
  have hlength : a.length = b.length := by
    simp only [bigEndian, List.cons.injEq, and_true] at hsize
    rw [← ofBigEndian_bigEndian ha, ← ofBigEndian_bigEndian hb, hsize.1, hsize.2.1, hsize.2.2.1,
      hsize.2.2.2]
  exact List.append_inj hrest hlength

/-! ## Texts -/

/-- The bytes of a text. -/
def textBytes (text : String) : List UInt8 := text.toUTF8.data.toList

theorem textBytes_injective {left right : String} (h : textBytes left = textBytes right) :
    left = right := by
  refine String.toByteArray_inj.mp (ByteArray.ext ?_)
  exact Array.toList_inj.mp h

/-- A text with one character for each byte. -/
def spell (bytes : List UInt8) : String := String.ofList (bytes.map fun b => Char.ofNat b.toNat)

theorem spell_injective : Function.Injective spell := by
  intro left right h
  have hchars := congrArg String.toList h
  unfold spell at hchars
  rw [String.toList_ofList, String.toList_ofList] at hchars
  refine List.map_injective_iff.mpr ?_ hchars
  intro b b' hchar
  have hvalid : ∀ b : UInt8, (Char.ofNat b.toNat).toNat = b.toNat := by
    intro b
    rw [Char.ofNat, dif_pos (Or.inl (Nat.lt_trans b.toNat_lt (by decide)))]
    rfl
  rw [← UInt8.toNat_inj, ← hvalid b, ← hvalid b']
  exact congrArg Char.toNat hchar

end Streams
