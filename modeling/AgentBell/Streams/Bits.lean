import Mathlib.Data.List.Basic
import Mathlib.Data.Nat.Bitwise

/-!
# Bits

The bits of numbers, the highest first, and codes that spell every symbol with the same number of
bits.  Such a code is cut at multiples of its width, so texts of one length that are spelled alike
are alike.
-/

namespace Streams

/-- The lowest bits of a number, the highest of them first. -/
def toBits : (width : Nat) → Nat → List Bool
  | 0, _ => []
  | width + 1, n => n.testBit width :: toBits width n

@[simp] lemma length_toBits (width n : Nat) : (toBits width n).length = width := by
  induction width with
  | zero => rfl
  | succ width ih => rw [toBits, List.length_cons, ih]

/-- The bits of a number are its high bits and its low bits. -/
lemma toBits_add (a b n : Nat) : toBits (a + b) n = toBits a (n >>> b) ++ toBits b n := by
  induction a with
  | zero => rw [Nat.zero_add, toBits, List.nil_append]
  | succ a ih => rw [Nat.succ_add, toBits, toBits, ih, Nat.testBit_shiftRight, Nat.add_comm b]; rfl

/-- Only the low bits count. -/
lemma toBits_mod (width n : Nat) : toBits width (n % 2 ^ width) = toBits width n := by
  have hmod : ∀ w ≤ width, toBits w (n % 2 ^ width) = toBits w n := by
    intro w hw
    induction w with
    | zero => rfl
    | succ w ih => simp [toBits, ih (by omega), Nat.testBit_mod_two_pow, Nat.lt_of_succ_le hw]
  exact hmod width le_rfl

lemma toBits_zero (width : Nat) : toBits width 0 = List.replicate width false := by
  induction width with
  | zero => rfl
  | succ width ih => rw [toBits, ih, Nat.zero_testBit, List.replicate_succ]

/-- The bits of a number and of another one below it. -/
lemma toBits_mul_add (a b m : Nat) {n : Nat} (hn : n < 2 ^ b) :
    toBits (a + b) (m * 2 ^ b + n) = toBits a m ++ toBits b n := by
  rw [toBits_add, ← toBits_mod b, Nat.shiftRight_eq_div_pow, Nat.mul_add_mod', Nat.mod_eq_of_lt hn,
    Nat.add_comm, Nat.add_mul_div_right _ _ (Nat.two_pow_pos b), Nat.div_eq_of_lt hn, Nat.zero_add]

section Code

variable {α : Type} {f : α → List Bool} {width : Nat}

/-- A text is as long as its symbols take bits. -/
lemma length_flatMap_code (hf : ∀ a, (f a).length = width) (as : List α) :
    (as.flatMap f).length = as.length * width := by
  induction as with
  | nil => simp
  | cons a as ih =>
    rw [List.flatMap_cons, List.length_append, ih, hf, List.length_cons, Nat.succ_mul, Nat.add_comm]

/-- The first symbols are spelled by the first bits. -/
lemma take_flatMap_code (hf : ∀ a, (f a).length = width) (k : Nat) (as : List α) :
    (as.take k).flatMap f = (as.flatMap f).take (k * width) := by
  rcases le_total as.length k with hle | hle
  · rw [List.take_of_length_le hle, List.take_of_length_le]
    rw [length_flatMap_code hf]
    exact Nat.mul_le_mul_right _ hle
  · have hsplit := congrArg (List.flatMap f) (List.take_append_drop k as)
    rw [List.flatMap_append] at hsplit
    rw [← hsplit, List.take_left']
    rw [length_flatMap_code hf, List.length_take_of_le hle]

/-- Symbols that are spelled differently spell different texts of one length. -/
lemma flatMap_code_injective (hf : ∀ a, (f a).length = width) {symbols : List α}
    (hinj : ∀ a ∈ symbols, ∀ b ∈ symbols, f a = f b → a = b) {as bs : List α}
    (ha : as ⊆ symbols) (hb : bs ⊆ symbols) (hlength : as.length = bs.length)
    (h : as.flatMap f = bs.flatMap f) : as = bs := by
  induction as generalizing bs with
  | nil => exact (List.length_eq_zero_iff.mp hlength.symm).symm
  | cons a as ih =>
    cases bs with
    | nil => cases hlength
    | cons b bs =>
      obtain ⟨hhead, htail⟩ := List.append_inj h ((hf a).trans (hf b).symm)
      rw [List.cons_subset] at ha hb
      rw [hinj a ha.1 b hb.1 hhead, ih ha.2 hb.2 (Nat.succ.inj hlength) htail]

end Code

end Streams
