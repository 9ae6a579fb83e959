import Mathlib.Tactic.Common

/-!
# Strings of a Go program

A Go string is a sequence of bytes.  It has a text, in which every byte that is not part of valid
UTF-8 reads as the replacement character; a program that only handles valid strings may take the
text for the string.
-/

namespace Json

/-- Strings as a Go program sees them: the literals of the program, the text of a string, its length
in bytes, and how it is printed between quotes. -/
class GoString (S : Type) where
  literal : String → S
  text : S → String
  size : S → Nat
  quoted : S → String
  text_literal : ∀ value, text (literal value) = value
  size_literal : ∀ value, size (literal value) = value.utf8ByteSize

/-- A valid string is its own text. -/
instance : GoString String where
  literal := id
  text := id
  size := String.utf8ByteSize
  quoted value := "\"" ++ value ++ "\""
  text_literal _ := rfl
  size_literal _ := rfl

namespace GoString

@[simp] lemma literal_string (value : String) : (literal value : String) = value := rfl

@[simp] lemma text_string (value : String) : text value = value := rfl

end GoString

/-- A character takes up to four bytes. -/
lemma utf8ByteSize_ofList_le (chars : List Char) :
    (String.ofList chars).utf8ByteSize ≤ 4 * chars.length := by
  induction chars with
  | nil => exact Nat.le_refl 0
  | cons c chars ih =>
    have hchar := Char.utf8Size_le_four c
    rw [← List.singleton_append, String.ofList_append, String.utf8ByteSize_append,
      ← String.singleton_eq_ofList, String.utf8ByteSize_singleton, List.length_append,
      List.length_singleton]
    omega

/-- A text has at most four bytes for each character. -/
lemma utf8ByteSize_le (value : String) : value.utf8ByteSize ≤ 4 * value.length := by
  have h := utf8ByteSize_ofList_le value.toList
  rwa [String.ofList_toList, String.length_toList] at h

end Json
