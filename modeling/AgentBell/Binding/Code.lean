import Mathlib.Data.List.Induction
import AgentBell.Relay.Protocol
import AgentBell.Streams.Bits

/-!
# Binding codes

A binding code spells the first hundred bits of thirteen random bytes.  The encoder keeps the
bits that do not fill a symbol yet in a buffer.
-/

namespace AgentBell.Binding

open Relay (isSpace trimSpace)

open Streams

/-- The symbols of a code. -/
def codeAlphabet : List Char := "0123456789ABCDEFGHJKMNPQRSTVWXYZ".toList

/-- The symbol of the lowest five bits of a number. -/
def symbol (n : Nat) : Char := codeAlphabet.getD (n &&& 31) ' '

/-- The symbols that were written, and the buffer with the number of bits in it. -/
structure Encoder where
  builder : List Char := []
  buffer : Nat := 0
  bits : Nat := 0

/-- Symbols are written as long as the buffer holds the bits of one. -/
def drain (builder : List Char) (buffer : Nat) : Nat → Encoder
  | bits + 5 =>
    drain (builder ++ [symbol (buffer >>> bits)])
      (if bits = 0 then 0 else buffer &&& (1 <<< bits - 1)) bits
  | bits => ⟨builder, buffer, bits⟩

/-- A byte is moved into the buffer. -/
def Encoder.load (e : Encoder) (current : UInt8) : Encoder :=
  ⟨e.builder, e.buffer <<< 8 % 2 ^ 32 ||| current.toNat, e.bits + 8⟩

/-- The encoder after a number of bytes. -/
def encode (value : List UInt8) : Encoder :=
  value.foldl (fun e current => drain e.builder (e.load current).buffer (e.load current).bits) {}

/-- The symbols of a number of bytes. -/
def crockford (value : List UInt8) : List Char :=
  let ⟨builder, buffer, bits⟩ := encode value
  if 0 < bits then builder ++ [symbol (buffer <<< (5 - bits) % 2 ^ 32)] else builder

/-- The groups of a code. -/
def groups (encoded : List Char) : List (List Char) :=
  [encoded.take 5, (encoded.drop 5).take 5, (encoded.drop 10).take 5, (encoded.drop 15).take 5]

/-- A code from random bytes. -/
def newCode (value : List UInt8) : Except String String :=
  let encoded := crockford value
  if encoded.length < 20 then .error "binding entropy encoding is incomplete"
  else .ok (String.ofList ("AGB-".toList ++ ['-'].intercalate (groups encoded)))

/-- A code as it is compared. -/
def canonicalCode (toUpper : String → String) (code : String) : Except String String :=
  let value := toUpper (trimSpace code)
  let parts := value.toList.splitOn '-'
  if parts.length ≠ 5 ∨ parts.head? ≠ some "AGB".toList then .error "invalid binding code"
  else if parts.tail.all fun part =>
      (part.map Char.utf8Size).sum = 5 && part.all codeAlphabet.contains then .ok value
  else .error "invalid binding code"

/-! ## The bits of a code -/

/-- The bits of a symbol. -/
def symbolBits (c : Char) : List Bool := toBits 5 (codeAlphabet.idxOf c)

/-- The bits of a number of bytes. -/
def byteBits (value : List UInt8) : List Bool := value.flatMap fun current => toBits 8 current.toNat

/-- The encoder has spelled these bits, and what is in the buffer are the last of them. -/
structure Spells (input : List Bool) (e : Encoder) : Prop where
  spelled : e.builder.flatMap symbolBits ++ toBits e.bits e.buffer = input
  small : e.buffer < 2 ^ e.bits
  known : e.builder ⊆ codeAlphabet

lemma length_symbolBits (c : Char) : (symbolBits c).length = 5 := length_toBits _ _

lemma forall_of_all {p : Char → Prop} [DecidablePred p] {chars : List Char}
    (h : (chars.all fun c => p c) = true) : ∀ c ∈ chars, p c :=
  fun c hc => of_decide_eq_true (List.all_eq_true.mp h c hc)

lemma symbolBits_injective :
    ∀ c ∈ codeAlphabet, ∀ d ∈ codeAlphabet, symbolBits c = symbolBits d → c = d := by
  have htable : ∀ c ∈ codeAlphabet,
      (codeAlphabet.all fun d => symbolBits c = symbolBits d → c = d) = true :=
    forall_of_all (by decide +kernel)
  exact fun c hc => forall_of_all (htable c hc)

/-- A symbol is one of the code, and has the bits of its number. -/
lemma symbol_spec (n : Nat) : symbol n ∈ codeAlphabet ∧ symbolBits (symbol n) = toBits 5 n := by
  have htable : ∀ m < 32, codeAlphabet.getD m ' ' ∈ codeAlphabet ∧
      symbolBits (codeAlphabet.getD m ' ') = toBits 5 m := by
    decide +kernel
  have hmask : n &&& 31 = n % 2 ^ 5 := Nat.and_two_pow_sub_one_eq_mod n 5
  have hspec := htable (n % 2 ^ 5) (Nat.mod_lt _ (by decide))
  rw [toBits_mod] at hspec
  rwa [symbol, hmask]

variable {builder : List Char} {buffer bits : Nat} {input : List Bool} {e : Encoder}

lemma flatMap_write (n : Nat) : (builder ++ [symbol n]).flatMap symbolBits =
    builder.flatMap symbolBits ++ toBits 5 n := by
  rw [List.flatMap_append, List.flatMap_singleton, (symbol_spec n).2]

lemma known_write (h : builder ⊆ codeAlphabet) (n : Nat) : builder ++ [symbol n] ⊆ codeAlphabet :=
  List.append_subset.mpr ⟨h, List.cons_subset.mpr ⟨(symbol_spec n).1, List.nil_subset _⟩⟩

/-- The symbols that are written are the first bits of the buffer. -/
lemma spells_drain (h : Spells input ⟨builder, buffer, bits⟩) :
    Spells input (drain builder buffer bits) ∧ (drain builder buffer bits).bits < 5 := by
  fun_induction drain builder buffer bits with
  | case1 builder buffer bits ih =>
    have hmask : (if bits = 0 then 0 else buffer &&& (1 <<< bits - 1)) = buffer % 2 ^ bits := by
      split
      · rename_i hbits
        rw [hbits, pow_zero, Nat.mod_one]
      · rw [Nat.one_shiftLeft, Nat.and_two_pow_sub_one_eq_mod]
    refine ih ⟨?_, ?_, known_write h.known _⟩
    · have hbits : bits + 5 = 5 + bits := Nat.add_comm bits 5
      have hspelled : builder.flatMap symbolBits ++ toBits (bits + 5) buffer = input := h.spelled
      rw [hbits, toBits_add, ← List.append_assoc] at hspelled
      rw [flatMap_write, hmask, toBits_mod]
      exact hspelled
    · rw [hmask]
      exact Nat.mod_lt _ (Nat.two_pow_pos bits)
  | case2 builder buffer bits hbits =>
    refine ⟨h, Nat.lt_of_not_le fun hle => hbits (bits - 5) ?_⟩
    exact (Nat.sub_add_cancel hle).symm

/-- The buffer has at most twelve bits after a byte was moved into it. -/
lemma spells_load (h : Spells input e) (hbits : e.bits < 5) (current : UInt8) :
    Spells (input ++ toBits 8 current.toNat) (e.load current) ∧
      (e.load current).buffer < 2 ^ 12 := by
  have hlt := current.toNat_lt
  have hpow : 2 ^ e.bits ≤ 2 ^ 4 := Nat.pow_le_pow_right (by decide) (by omega)
  have hsmall := h.small
  have hload : (e.load current).buffer = e.buffer * 2 ^ 8 + current.toNat := by
    rw [Encoder.load, Nat.mod_eq_of_lt, ← Nat.shiftLeft_add_eq_or_of_lt hlt, Nat.shiftLeft_eq]
    omega
  refine ⟨⟨?_, ?_, h.known⟩, ?_⟩
  · rw [hload, ← h.spelled, List.append_assoc, ← toBits_mul_add _ _ _ hlt]
    rfl
  · change _ < 2 ^ (e.bits + 8)
    rw [pow_add]
    omega
  · omega

/-- After every byte the encoder has spelled the bytes so far. -/
lemma spells_encode (value : List UInt8) :
    Spells (byteBits value) (encode value) ∧ (encode value).bits < 5 := by
  induction value using List.reverseRecOn with
  | nil => exact ⟨⟨rfl, Nat.one_pos, List.nil_subset _⟩, by decide⟩
  | append_singleton value current ih =>
    rw [encode, List.foldl_append, ← encode, byteBits, List.flatMap_append, List.flatMap_singleton]
    exact spells_drain (spells_load ih.1 ih.2 current).1

/-- The symbols spell the bits of the bytes, with zeros after them. -/
lemma spells_crockford (value : List UInt8) : crockford value ⊆ codeAlphabet ∧
    (crockford value).length = (8 * value.length + 4) / 5 ∧
    (crockford value).flatMap symbolBits = byteBits value ++
      List.replicate (5 * (crockford value).length - 8 * value.length) false := by
  obtain ⟨⟨hspelled, hsmall, hknown⟩, hbits⟩ := spells_encode value
  have hinput : (byteBits value).length = 8 * value.length := by
    rw [byteBits, List.length_flatMap]
    simp [Nat.mul_comm]
  have hlength := congrArg List.length hspelled
  rw [List.length_append, length_flatMap_code length_symbolBits, length_toBits, hinput] at hlength
  unfold crockford
  generalize encode value = e at *
  obtain ⟨builder, buffer, bits⟩ := e
  dsimp only at *
  split
  · have hpad : (builder ++ [symbol (buffer <<< (5 - bits) % 2 ^ 32)]).length =
        builder.length + 1 := List.length_append
    refine ⟨known_write hknown _, by rw [hpad]; omega, ?_⟩
    have hwidth : 5 = bits + (5 - bits) := by omega
    have hbuffer : buffer <<< (5 - bits) < 2 ^ 5 := by
      rw [Nat.shiftLeft_eq, hwidth, pow_add, Nat.add_sub_cancel_left]
      exact Nat.mul_lt_mul_of_pos_right hsmall (Nat.two_pow_pos _)
    have hlast := toBits_mul_add bits (5 - bits) buffer (Nat.two_pow_pos _)
    rw [← hwidth, Nat.add_zero, ← Nat.shiftLeft_eq, toBits_zero] at hlast
    rw [flatMap_write, hpad, ← hspelled, List.append_assoc, Nat.mod_eq_of_lt (by omega), hlast,
      show 5 * (builder.length + 1) - 8 * value.length = 5 - bits by omega]
  · obtain rfl : bits = 0 := by omega
    refine ⟨hknown, by omega, ?_⟩
    rw [← hspelled, show 5 * builder.length - 8 * value.length = 0 by omega, toBits,
      List.replicate_zero, List.append_nil, List.append_nil]

/-! ## Codes -/

/-- Texts in capitals are kept. -/
def KeepsCapitals (toUpper : String → String) : Prop :=
  ∀ text, (∀ c ∈ text.toList, c.toNat < 128 ∧ c.isLower = false) → toUpper text = text

section Groups

variable {encoded : List Char}

lemma flatten_groups (encoded : List Char) : (groups encoded).flatten = encoded.take 20 := by
  rw [show 20 = 5 + (5 + (5 + 5)) from rfl, List.take_add, List.take_add, List.take_add]
  simp [groups]

lemma subset_of_mem_groups (h : encoded ⊆ codeAlphabet) :
    ∀ part ∈ "AGB".toList :: groups encoded, part ⊆ codeAlphabet := by
  have hgroup : ∀ k, (encoded.drop k).take 5 ⊆ codeAlphabet := fun k c hc =>
    h (List.mem_of_mem_drop (List.mem_of_mem_take hc))
  simp only [groups, List.forall_mem_cons]
  exact ⟨by decide, hgroup 0, hgroup 5, hgroup 10, hgroup 15, nofun⟩

/-- A code consists of its groups. -/
lemma splitOn_code (h : encoded ⊆ codeAlphabet) :
    ("AGB-".toList ++ ['-'].intercalate (groups encoded)).splitOn '-' =
      "AGB".toList :: groups encoded :=
  List.splitOn_intercalate '-' (fun part hpart hmem =>
    absurd (subset_of_mem_groups h part hpart hmem) (by decide)) (List.cons_ne_nil _ _)

/-- Codes are the same just when their symbols are. -/
lemma code_eq_iff {other : List Char} (h : encoded ⊆ codeAlphabet) (hother : other ⊆ codeAlphabet) :
    "AGB-".toList ++ ['-'].intercalate (groups encoded) =
      "AGB-".toList ++ ['-'].intercalate (groups other) ↔ encoded.take 20 = other.take 20 := by
  constructor
  · intro heq
    have hgroups := congrArg (List.splitOn '-') heq
    rw [splitOn_code h, splitOn_code hother] at hgroups
    rw [← flatten_groups, ← flatten_groups, (List.cons.inj hgroups).2]
  · intro heq
    have hgroups : ∀ l, groups l = groups (l.take 20) := fun l => by
      simp [groups, List.take_take, List.drop_take]
    rw [hgroups encoded, heq, ← hgroups]

end Groups

lemma code_of_newCode {value : List UInt8} {code : String} (h : newCode value = .ok code) :
    20 ≤ (crockford value).length ∧
      code.toList = "AGB-".toList ++ ['-'].intercalate (groups (crockford value)) := by
  unfold newCode at h
  dsimp only at h
  split at h
  · cases h
  · cases h
    exact ⟨by omega, String.toList_ofList⟩

/-- The codes of thirteen bytes each are the same just when their first hundred bits are. -/
lemma newCode_eq_iff {a b : List UInt8} (ha : a.length = 13) (hb : b.length = 13) :
    newCode a = newCode b ↔ (byteBits a).take 100 = (byteBits b).take 100 := by
  have hsymbols : ∀ value : List UInt8, value.length = 13 → (crockford value).length = 21 ∧
      ((crockford value).take 20).flatMap symbolBits = (byteBits value).take 100 := by
    intro value hvalue
    obtain ⟨-, hlength, hbits⟩ := spells_crockford value
    rw [hvalue] at hlength
    rw [take_flatMap_code length_symbolBits, hbits, List.take_append_of_le_length]
    · exact ⟨hlength, rfl⟩
    · simp [byteBits, hvalue]
  obtain ⟨hlengthA, hbitsA⟩ := hsymbols a ha
  obtain ⟨hlengthB, hbitsB⟩ := hsymbols b hb
  have hknown : ∀ value, (crockford value).take 20 ⊆ codeAlphabet := fun value =>
    List.Subset.trans (List.take_subset _ _) (spells_crockford value).1
  rw [newCode, newCode, if_neg (by omega), if_neg (by omega), Except.ok.injEq, String.ofList_inj,
    code_eq_iff (spells_crockford a).1 (spells_crockford b).1, ← hbitsA, ← hbitsB]
  refine ⟨fun h => by rw [h], fun h => ?_⟩
  refine flatMap_code_injective length_symbolBits symbolBits_injective (hknown a) (hknown b) ?_ h
  rw [List.length_take, List.length_take, hlengthA, hlengthB]

/-- A new code is in its canonical form. -/
lemma canonicalCode_newCode {toUpper : String → String} (hupper : KeepsCapitals toUpper)
    {value : List UInt8} {code : String} (h : newCode value = .ok code) :
    canonicalCode toUpper code = .ok code := by
  obtain ⟨hlength, hcode⟩ := code_of_newCode h
  have hknown := (spells_crockford value).1
  generalize crockford value = encoded at *
  have hplain : ∀ c ∈ '-' :: codeAlphabet, isSpace c = false ∧ c.toNat < 128 ∧
      c.isLower = false := forall_of_all (by decide +kernel)
  have hchars : code.toList ⊆ '-' :: codeAlphabet := by
    rw [hcode]
    intro c hc
    have hcases : c = '-' ∨ ∃ part ∈ "AGB".toList :: groups encoded, c ∈ part := by
      simp [groups, List.intercalate] at hc ⊢
      grind
    rcases hcases with rfl | ⟨part, hpart, hc⟩
    · exact List.mem_cons_self
    · exact List.mem_cons_of_mem _ (subset_of_mem_groups hknown part hpart hc)
  have htrim : trimSpace code = code :=
    Relay.trimSpace_of_forall fun c hc => (hplain c (hchars hc)).1
  have hvalue : toUpper code = code := hupper code fun c hc => (hplain c (hchars hc)).2
  have hparts : ∀ part ∈ groups encoded, ((part.map Char.utf8Size).sum = 5 &&
      part.all codeAlphabet.contains) = true := by
    intro part hpart
    have hsymbols : ∀ c ∈ part, c ∈ codeAlphabet :=
      fun c hc => subset_of_mem_groups hknown part (List.mem_cons_of_mem _ hpart) hc
    have hsize : ∀ c ∈ codeAlphabet, c.utf8Size = 1 := forall_of_all (by decide +kernel)
    have hfive : part.length = 5 := by
      simp only [groups, List.mem_cons, List.not_mem_nil, or_false] at hpart
      rcases hpart with rfl | rfl | rfl | rfl <;> simp <;> omega
    rw [List.map_congr_left fun c hc => hsize c (hsymbols c hc), List.map_const', hfive]
    simpa using hsymbols
  unfold canonicalCode
  dsimp only
  rw [htrim, hvalue, hcode, splitOn_code hknown, if_neg (by simp [groups]), if_pos]
  exact List.all_eq_true.mpr hparts

/-- The symbols of any bytes spell their bits in order, with zeros on the right, and the buffer
never exceeds twelve bits.  So the codes of two draws are the same just when their first hundred
bits are, and every code is kept as it is. -/
theorem crockford_spells_bits (toUpper : String → String) (hupper : KeepsCapitals toUpper) :
    (∀ value, crockford value ⊆ codeAlphabet ∧
      (crockford value).length = (8 * value.length + 4) / 5 ∧
      (crockford value).flatMap symbolBits = byteBits value ++
        List.replicate (5 * (crockford value).length - 8 * value.length) false) ∧
    (∀ value current, ((encode value).load current).buffer < 2 ^ 12) ∧
    (∀ a b : List UInt8, a.length = 13 → b.length = 13 →
      (newCode a = newCode b ↔ (byteBits a).take 100 = (byteBits b).take 100)) ∧
    ∀ value : List UInt8, value.length = 13 →
      ∃ code, newCode value = .ok code ∧ canonicalCode toUpper code = .ok code := by
  refine ⟨spells_crockford, fun value current => ?_, fun a b => newCode_eq_iff, fun value h => ?_⟩
  · exact (spells_load (spells_encode value).1 (spells_encode value).2 current).2
  · have hlength := (spells_crockford value).2.1
    have hnew : newCode value = .ok _ := if_neg (by omega)
    exact ⟨_, hnew, canonicalCode_newCode hupper hnew⟩

/-- The capitals of ASCII letters. -/
def asciiUpper (text : String) : String := String.ofList (text.toList.map Char.toUpper)

lemma keepsCapitals_asciiUpper : KeepsCapitals asciiUpper := by
  intro text htext
  have hchars : text.toList.map Char.toUpper = text.toList.map id := by
    refine List.map_congr_left fun c hc => ?_
    have hlower := Bool.eq_false_iff.mp (htext c hc).2
    refine dif_neg fun h => hlower ?_
    delta Char.isLower
    simpa using h
  rw [asciiUpper, hchars, List.map_id, String.ofList_toList]

/-- The code of thirteen bytes of ones. -/
theorem code_of_ones : ∃ code, newCode (List.replicate 13 255) = .ok code ∧
    code = "AGB-ZZZZZ-ZZZZZ-ZZZZZ-ZZZZZ" ∧ canonicalCode asciiUpper code = .ok code := by
  obtain ⟨code, hnew, hcanonical⟩ :=
    (crockford_spells_bits asciiUpper keepsCapitals_asciiUpper).2.2.2 (List.replicate 13 255) rfl
  refine ⟨code, hnew, ?_, hcanonical⟩
  have hcode : newCode (List.replicate 13 255) = .ok "AGB-ZZZZZ-ZZZZZ-ZZZZZ-ZZZZZ" := by
    decide +kernel
  exact Except.ok.inj (hnew.symm.trans hcode)

end AgentBell.Binding
