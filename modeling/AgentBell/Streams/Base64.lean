import Mathlib.Algebra.Group.Nat.Defs
import Mathlib.Data.Fin.Basic
import Mathlib.Tactic.Common

/-!
# Unpadded base64url

The decoder skips line breaks and reads the other characters in groups of four, of six bits each.
The last group may be short; the bits of its last character that belong to no byte are not looked
at.  So a text holds more than the bytes it decodes to, and `decodeDigits_eq_iff` tells how much
more when the last group has three characters.  What the encoder writes is read back as it was
(`decode_encode`).
-/

namespace Streams.Base64

/-- The six bits that a character stands for. -/
def digit (c : Char) : Option (Fin 64) :=
  if c.isUpper then some (Fin.ofNat 64 (c.toNat - 65))
  else if c.isLower then some (Fin.ofNat 64 (c.toNat - 97 + 26))
  else if c.isDigit then some (Fin.ofNat 64 (c.toNat - 48 + 52))
  else if c = '-' then some 62
  else if c = '_' then some 63
  else none

/-- The bits of a group. -/
def group (a b c d : Fin 64) : Nat := a * 2 ^ 18 + b * 2 ^ 12 + c * 2 ^ 6 + d

/-- The bytes of a list of digits. -/
def decodeDigits : List (Fin 64) → Option (List UInt8)
  | [] => some []
  | [_] => none
  | [a, b] => some [.ofNat (group a b 0 0 / 2 ^ 16)]
  | [a, b, c] => some [.ofNat (group a b c 0 / 2 ^ 16), .ofNat (group a b c 0 / 2 ^ 8)]
  | a :: b :: c :: d :: rest => (decodeDigits rest).map fun bytes =>
      .ofNat (group a b c d / 2 ^ 16) :: .ofNat (group a b c d / 2 ^ 8) ::
        .ofNat (group a b c d) :: bytes

/-- The digits of a text. -/
def digits (text : String) : Option (List (Fin 64)) :=
  (text.toList.filter fun c => c ≠ '\r' ∧ c ≠ '\n').mapM digit

/-- The bytes of a text. -/
def decode (text : String) : Option (List UInt8) := (digits text).bind decodeDigits

/-- The character that stands for six bits. -/
def symbol (d : Fin 64) : Char :=
  "ABCDEFGHIJKLMNOPQRSTUVWXYZabcdefghijklmnopqrstuvwxyz0123456789-_".toList.getD d 'A'

/-- The digits of as many bytes of a group of three. -/
def groupDigits (count a b c : Nat) : List (Fin 64) :=
  let bits := a * 2 ^ 16 + b * 2 ^ 8 + c
  [.ofNat 64 (bits / 2 ^ 18), .ofNat 64 (bits / 2 ^ 12), .ofNat 64 (bits / 2 ^ 6),
    .ofNat 64 bits].take (count + 1)

/-- The digits of a list of bytes. -/
def encodeDigits : List UInt8 → List (Fin 64)
  | [] => []
  | [a] => groupDigits 1 a.toNat 0 0
  | [a, b] => groupDigits 2 a.toNat b.toNat 0
  | a :: b :: c :: rest => groupDigits 3 a.toNat b.toNat c.toNat ++ encodeDigits rest

/-- The text of a list of bytes. -/
def encode (bytes : List UInt8) : String := String.ofList ((encodeDigits bytes).map symbol)

/-- The digits, without the two bits that the last one has too many. -/
def significant : List (Fin 64) → List Nat
  | [a, b, c] => [a, b, c / 4]
  | a :: b :: c :: d :: rest => a :: b :: c :: d :: significant rest
  | _ => []

lemma decodeDigits_encodeDigits (bytes : List UInt8) :
    decodeDigits (encodeDigits bytes) = some bytes := by
  have hzero : ((0 : Fin 64) : Nat) = 0 := rfl
  induction bytes using encodeDigits.induct with
  | case1 => rfl
  | case2 a =>
    have ha := a.toNat_lt
    simp only [encodeDigits, groupDigits, List.take, decodeDigits, group, Option.some.injEq,
      List.cons.injEq, and_true, ← UInt8.toNat_inj, UInt8.toNat_ofNat', Fin.val_ofNat, hzero]
    omega
  | case3 a b =>
    have ha := a.toNat_lt
    have hb := b.toNat_lt
    simp only [encodeDigits, groupDigits, List.take, decodeDigits, group, Option.some.injEq,
      List.cons.injEq, and_true, ← UInt8.toNat_inj, UInt8.toNat_ofNat', Fin.val_ofNat, hzero]
    omega
  | case4 a b c rest ih =>
    have ha := a.toNat_lt
    have hb := b.toNat_lt
    have hc := c.toNat_lt
    simp only [encodeDigits, groupDigits, List.take, List.cons_append, List.nil_append,
      decodeDigits, ih, Option.map_some, group, Option.some.injEq, List.cons.injEq, and_true,
      ← UInt8.toNat_inj, UInt8.toNat_ofNat', Fin.val_ofNat]
    omega

/-- What was encoded is decoded again. -/
theorem decode_encode (bytes : List UInt8) : decode (encode bytes) = some bytes := by
  have hsymbol : ∀ d : Fin 64, digit (symbol d) = some d ∧ symbol d ≠ '\r' ∧ symbol d ≠ '\n' := by
    decide +kernel
  have hfilter : ((encodeDigits bytes).map symbol).filter (fun c => c ≠ '\r' ∧ c ≠ '\n') =
      (encodeDigits bytes).map symbol := by
    rw [List.filter_eq_self]
    intro c hc
    obtain ⟨d, -, rfl⟩ := List.mem_map.mp hc
    exact decide_eq_true (hsymbol d).2
  have hdigits : digits (encode bytes) = some (encodeDigits bytes) := by
    rw [digits, encode, String.toList_ofList, hfilter]
    induction encodeDigits bytes with
    | nil => rfl
    | cons d ds ih => simp [List.mapM_cons, (hsymbol d).1, ih]
  rw [decode, hdigits, Option.bind_some, decodeDigits_encodeDigits]

lemma length_decodeDigits {ds : List (Fin 64)} {bytes : List UInt8}
    (h : decodeDigits ds = some bytes) : bytes.length = ds.length * 3 / 4 := by
  induction ds using decodeDigits.induct generalizing bytes with
  | case2 a => cases h
  | case5 a b c d rest ih =>
    obtain ⟨bytes', hrest, rfl⟩ := Option.map_eq_some_iff.mp h
    have hlength := ih hrest
    simp only [List.length_cons]
    omega
  | _ =>
    cases h
    simp

section Groups

variable {a b c d a' b' c' d' : Fin 64}

/-- The first two bytes of a group tell its digits up to the bits of the third byte. -/
lemma firstBytes_eq_iff :
    (UInt8.ofNat (group a b c d / 2 ^ 16) = .ofNat (group a' b' c' d' / 2 ^ 16) ∧
      UInt8.ofNat (group a b c d / 2 ^ 8) = .ofNat (group a' b' c' d' / 2 ^ 8)) ↔
      a = a' ∧ b = b' ∧ c.val / 4 = c'.val / 4 := by
  simp only [← UInt8.toNat_inj, UInt8.toNat_ofNat', Fin.ext_iff, group]
  omega

/-- The bytes of a group tell its digits. -/
lemma bytes_eq_iff : (UInt8.ofNat (group a b c d / 2 ^ 16) = .ofNat (group a' b' c' d' / 2 ^ 16) ∧
      UInt8.ofNat (group a b c d / 2 ^ 8) = .ofNat (group a' b' c' d' / 2 ^ 8) ∧
      UInt8.ofNat (group a b c d) = .ofNat (group a' b' c' d')) ↔
      a = a' ∧ b = b' ∧ c = c' ∧ d = d' := by
  simp only [← UInt8.toNat_inj, UInt8.toNat_ofNat', Fin.ext_iff, group]
  omega

end Groups

/-- As many digits, with three in the last group, give the same bytes when they differ at most in
the bits that belong to no byte. -/
theorem decodeDigits_eq_iff {ds es : List (Fin 64)} {bytes bytes' : List UInt8}
    (h : decodeDigits ds = some bytes) (h' : decodeDigits es = some bytes')
    (hlength : ds.length = es.length) (hds : ds.length % 4 = 3) :
    bytes = bytes' ↔ significant ds = significant es := by
  induction ds using decodeDigits.induct generalizing es bytes bytes' with
  | case1 | case2 | case3 => cases hds
  | case4 a b c =>
    match es with
    | [a', b', c'] =>
      cases h
      cases h'
      simp only [significant, List.cons.injEq, and_true, ← Fin.ext_iff]
      exact firstBytes_eq_iff
  | case5 a b c d rest ih =>
    match es with
    | a' :: b' :: c' :: d' :: rest' =>
      obtain ⟨tail, htail, rfl⟩ := Option.map_eq_some_iff.mp h
      obtain ⟨tail', htail', rfl⟩ := Option.map_eq_some_iff.mp h'
      simp only [List.length_cons] at hlength hds
      have hsame := ih htail htail' (by omega) (by omega)
      simp only [significant, List.cons.injEq, ← Fin.ext_iff, ← hsame]
      refine ⟨fun ⟨hfirst, hsecond, hthird, htails⟩ => ?_, fun ⟨ha, hb, hc, hd, htails⟩ => ?_⟩
      · obtain ⟨ha, hb, hc, hd⟩ := bytes_eq_iff.mp ⟨hfirst, hsecond, hthird⟩
        exact ⟨ha, hb, hc, hd, htails⟩
      · obtain ⟨hfirst, hsecond, hthird⟩ := bytes_eq_iff.mpr ⟨ha, hb, hc, hd⟩
        exact ⟨hfirst, hsecond, hthird, htails⟩

end Streams.Base64
