import Mathlib.Algebra.Group.Nat.Defs
import Mathlib.Data.List.Basic

/-!
# Streams of bytes

A reader delivers the bytes of a stream in pieces that need not be those its user asks for, and then
says how the stream ended.  `Reader.readFull` collects a number of bytes from it.  A writer takes a
part of what it is given and says how much.  The lemmas say that the pieces do not matter: what
`readFull` returns depends on the bytes of the stream only.
-/

namespace Streams

/-! ## Numbers of four bytes -/

/-- A number as four bytes, the highest first. -/
def bigEndian (n : Nat) : List UInt8 :=
  [UInt8.ofNat (n / 2 ^ 24), UInt8.ofNat (n / 2 ^ 16), UInt8.ofNat (n / 2 ^ 8), UInt8.ofNat n]

/-- The number of four bytes. -/
def ofBigEndian (a b c d : UInt8) : Nat :=
  a.toNat * 2 ^ 24 + b.toNat * 2 ^ 16 + c.toNat * 2 ^ 8 + d.toNat

theorem ofBigEndian_bigEndian {n : Nat} (h : n < 2 ^ 32) :
    ofBigEndian (UInt8.ofNat (n / 2 ^ 24)) (UInt8.ofNat (n / 2 ^ 16)) (UInt8.ofNat (n / 2 ^ 8))
      (UInt8.ofNat n) = n := by
  simp only [ofBigEndian, UInt8.toNat_ofNat']
  omega

theorem bigEndian_ofBigEndian (a b c d : UInt8) :
    bigEndian (ofBigEndian a b c d) = [a, b, c, d] := by
  have ha := a.toNat_lt
  have hb := b.toNat_lt
  have hc := c.toNat_lt
  have hd := d.toNat_lt
  simp only [bigEndian, List.cons.injEq, ← UInt8.toNat_inj, UInt8.toNat_ofNat', ofBigEndian,
    and_true]
  omega

/-! ## Readers -/

/-- How a stream ends. -/
inductive Ending where
  | eof
  | failed
  deriving DecidableEq, Repr

/-- Why bytes could not be read. -/
inductive ReadError where
  | eof
  | unexpectedEof
  | failed
  deriving DecidableEq, Repr

/-- What a reader says at the end of its stream. -/
def Ending.error : Ending → ReadError
  | .eof => .eof
  | .failed => .failed

/-- What a reader of a fixed number of bytes says when the stream ends among them. -/
def Ending.interrupted : Ending → ReadError
  | .eof => .unexpectedEof
  | .failed => .failed

/-- A stream that arrives in pieces.  A joined end is announced together with the last bytes. -/
structure Reader where
  chunks : List (List UInt8)
  ending : Ending := .eof
  joined : Bool := false

/-- All bytes of a stream. -/
def Reader.bytes (r : Reader) : List UInt8 := r.chunks.flatten

/-- Read at most `size` bytes. -/
def Reader.read (r : Reader) (size : Nat) : List UInt8 × Option ReadError × Reader :=
  match r.chunks with
  | [] => ([], some r.ending.error, r)
  | chunk :: rest =>
    if chunk.length ≤ size then
      (chunk, if r.joined && rest.isEmpty then some r.ending.error else none,
        { r with chunks := rest })
    else (chunk.take size, none, { r with chunks := chunk.drop size :: rest })

/-- Read until there are `want` bytes or the reader reports an error. -/
def Reader.fill (want : Nat) (r : Reader) (got : List UInt8) :
    List UInt8 × Option ReadError × Reader :=
  if got.length < want then
    match _hread : r.read (want - got.length) with
    | (bytes, none, r') => fill want r' (got ++ bytes)
    | (bytes, some err, r') => (got ++ bytes, some err, r')
  else (got, none, r)
termination_by want - got.length + r.chunks.length
decreasing_by
  unfold Reader.read at _hread
  split at _hread
  · cases _hread
  · rename_i chunk rest hchunks
    split at _hread
    · simp only [Prod.mk.injEq] at _hread
      obtain ⟨rfl, -, rfl⟩ := _hread
      simp only [hchunks, List.length_cons, List.length_append]
      omega
    · cases _hread
      simp only [hchunks, List.length_cons, List.length_append, List.length_take]
      omega

/-- Read exactly `want` bytes. -/
def Reader.readFull (r : Reader) (want : Nat) : Except ReadError (List UInt8) × Reader :=
  match r.fill want [] with
  | (got, err, r') =>
    if want ≤ got.length then (.ok got, r')
    else
      match err with
      | some .eof => (.error (if got.isEmpty then .eof else .unexpectedEof), r')
      | some err => (.error err, r')
      | none => (.ok got, r')

/-- A read takes a piece off the front of the stream. -/
theorem Reader.read_cases (r : Reader) (size : Nat) :
    (r.bytes = [] ∧ r.chunks = [] ∧ r.read size = ([], some r.ending.error, r)) ∨
      ∃ bytes err r', r.read size = (bytes, err, r') ∧ r.bytes = bytes ++ r'.bytes ∧
        bytes.length ≤ size ∧ r'.ending = r.ending ∧
        (err = none ∨ err = some r.ending.error ∧ r'.bytes = []) := by
  unfold Reader.read Reader.bytes
  split
  · rename_i hchunks
    exact .inl ⟨by rw [hchunks]; rfl, hchunks, rfl⟩
  · rename_i chunk rest hchunks
    right
    split
    · rename_i hle
      refine ⟨chunk, _, _, rfl, by rw [hchunks]; rfl, hle, rfl, ?_⟩
      cases hjoined : r.joined && rest.isEmpty with
      | false => exact .inl rfl
      | true =>
        right
        obtain ⟨-, hrest⟩ := Bool.and_eq_true_iff.mp hjoined
        exact ⟨rfl, by rw [List.isEmpty_iff.mp hrest]; rfl⟩
    · refine ⟨_, _, _, rfl, ?_, List.length_take_le _ _, rfl, .inl rfl⟩
      rw [hchunks, List.flatten_cons, List.flatten_cons, ← List.append_assoc, List.take_append_drop]

/-- What is collected: as many bytes as are wanted, or all there are and the way the stream ends. -/
theorem Reader.fill_spec (want : Nat) (r : Reader) (got : List UInt8) (hgot : got.length ≤ want) :
    ∃ err r', r.fill want got = (got ++ r.bytes.take (want - got.length), err, r') ∧
      r'.bytes = r.bytes.drop (want - got.length) ∧ r'.ending = r.ending ∧
      (got.length + r.bytes.length < want → err = some r.ending.error) := by
  fun_induction Reader.fill want r got with
  | case1 r got hlt bytes r' hread ih =>
    rcases r.read_cases (want - got.length) with ⟨-, -, heq⟩ | ⟨_, _, _, heq, hbytes, hle, hend, -⟩
    · rw [hread] at heq
      cases heq
    · rw [hread] at heq
      cases heq
      have hlength : (got ++ bytes).length = got.length + bytes.length := List.length_append
      obtain ⟨err, r'', hfill, hrest, hending, herr⟩ := ih (by omega)
      have hsplit : want - got.length = bytes.length + (want - (got ++ bytes).length) := by omega
      refine ⟨err, r'', ?_, ?_, hending.trans hend, fun h => ?_⟩
      · rw [hfill, hbytes, hsplit, List.take_length_add_append, List.append_assoc]
      · rw [hrest, hbytes, hsplit, List.drop_length_add_append]
      · rw [hbytes, List.length_append] at h
        rw [herr (by omega), hend]
  | case2 r got hlt bytes err r' hread =>
    rcases r.read_cases (want - got.length) with
      ⟨hnil, -, heq⟩ | ⟨_, _, _, heq, hbytes, hle, hend, hnone | ⟨herr, hnil⟩⟩
    · rw [hread] at heq
      cases heq
      exact ⟨_, _, by rw [hnil, List.take_nil], by rw [hnil, List.drop_nil], rfl, fun _ => rfl⟩
    · rw [hread] at heq
      cases heq
      cases hnone
    · rw [hread] at heq
      cases heq
      rw [hnil, List.append_nil] at hbytes
      refine ⟨_, _, ?_, ?_, hend, fun _ => herr⟩
      · rw [hbytes, List.take_of_length_le hle]
      · rw [hbytes, List.drop_of_length_le hle, hnil]
  | case3 r got hlt =>
    have hwant : want - got.length = 0 := by omega
    exact ⟨none, r, by rw [hwant, List.take_zero, List.append_nil], by rw [hwant]; rfl, rfl,
      fun h => absurd h (by omega)⟩

/-- Enough bytes are read, however they arrive. -/
theorem Reader.readFull_of_le {r : Reader} {want : Nat} (h : want ≤ r.bytes.length) :
    ∃ r', r.readFull want = (.ok (r.bytes.take want), r') ∧
      r'.bytes = r.bytes.drop want ∧ r'.ending = r.ending := by
  obtain ⟨err, r', hfill, hrest, hending, -⟩ := Reader.fill_spec want r [] (Nat.zero_le _)
  refine ⟨r', ?_, hrest, hending⟩
  unfold Reader.readFull
  rw [hfill]
  simp [h]

/-- A stream that ends early is reported, however it arrives. -/
theorem Reader.readFull_of_lt {r : Reader} {want : Nat} (h : r.bytes.length < want) :
    ∃ r', r.readFull want =
      (.error (if r.bytes = [] then r.ending.error else r.ending.interrupted), r') := by
  obtain ⟨err, r', hfill, -, -, herr⟩ := Reader.fill_spec want r [] (Nat.zero_le _)
  have hall : r.bytes.take want = r.bytes := List.take_of_length_le (Nat.le_of_lt h)
  refine ⟨r', ?_⟩
  unfold Reader.readFull
  rw [hfill, herr (by simpa using h), List.length_nil, Nat.sub_zero, hall]
  cases hending : r.ending <;> simp [Nat.not_le_of_lt h, Ending.error, Ending.interrupted]

/-! ## Writers -/

/-- What a writer says about a write: how many bytes it took, and whether it failed. -/
structure Answer where
  written : Int
  failed : Bool := false

/-- A writer with what it will say; it takes everything when it has nothing to say. -/
structure Writer where
  output : List UInt8 := []
  answers : List Answer := []

/-- Give bytes to a writer. -/
def Writer.write (w : Writer) (value : List UInt8) : Answer × Writer :=
  match w.answers with
  | [] => (⟨value.length, false⟩, { w with output := w.output ++ value })
  | answer :: rest =>
    (answer, { output := w.output ++ value.take answer.written.toNat, answers := rest })

/-- A writer that took some of the bytes has them at the end of its output. -/
theorem Writer.write_output {w : Writer} {value : List UInt8} {answer : Answer} {w' : Writer}
    (h : w.write value = (answer, w')) :
    w'.output = w.output ++ value.take answer.written.toNat := by
  unfold Writer.write at h
  split at h
  · cases h
    simp
  · cases h
    rfl

end Streams
