import Mathlib.Data.List.Basic
import Mathlib.Data.Nat.Bitwise
import Mathlib.Algebra.Group.Nat.Defs

/-!
# SHA-256

The hash of FIPS 180-4 on lists of bytes.  A word of 32 bits is a number, and a message is padded
and cut into blocks of sixteen words.  Each block is extended to 64 words, and 64 rounds mix them
into the eight words of the state, which is spelled in hexadecimal digits at the end.
-/

namespace Streams.Sha256

/-- The sum of two words. -/
def add (a b : Nat) : Nat := (a + b) % 2 ^ 32

/-- A word rotated to the right. -/
def rotate (a n : Nat) : Nat := (a >>> n ||| a <<< (32 - n)) % 2 ^ 32

/-- The constants of the rounds: the cube roots of the first 64 primes behind the point. -/
def constants : List Nat :=
  [0x428a2f98, 0x71374491, 0xb5c0fbcf, 0xe9b5dba5, 0x3956c25b, 0x59f111f1, 0x923f82a4, 0xab1c5ed5,
    0xd807aa98, 0x12835b01, 0x243185be, 0x550c7dc3, 0x72be5d74, 0x80deb1fe, 0x9bdc06a7, 0xc19bf174,
    0xe49b69c1, 0xefbe4786, 0x0fc19dc6, 0x240ca1cc, 0x2de92c6f, 0x4a7484aa, 0x5cb0a9dc, 0x76f988da,
    0x983e5152, 0xa831c66d, 0xb00327c8, 0xbf597fc7, 0xc6e00bf3, 0xd5a79147, 0x06ca6351, 0x14292967,
    0x27b70a85, 0x2e1b2138, 0x4d2c6dfc, 0x53380d13, 0x650a7354, 0x766a0abb, 0x81c2c92e, 0x92722c85,
    0xa2bfe8a1, 0xa81a664b, 0xc24b8b70, 0xc76c51a3, 0xd192e819, 0xd6990624, 0xf40e3585, 0x106aa070,
    0x19a4c116, 0x1e376c08, 0x2748774c, 0x34b0bcb5, 0x391c0cb3, 0x4ed8aa4a, 0x5b9cca4f, 0x682e6ff3,
    0x748f82ee, 0x78a5636f, 0x84c87814, 0x8cc70208, 0x90befffa, 0xa4506ceb, 0xbef9a3f7, 0xc67178f2]

/-- The eight words the rounds mix. -/
structure State where
  a : Nat
  b : Nat
  c : Nat
  d : Nat
  e : Nat
  f : Nat
  g : Nat
  h : Nat

/-- The state before the first block: the square roots of the first eight primes behind the
point. -/
def start : State :=
  ⟨0x6a09e667, 0xbb67ae85, 0x3c6ef372, 0xa54ff53a, 0x510e527f, 0x9b05688c, 0x1f83d9ab, 0x5be0cd19⟩

/-- One round, with its constant and its word of the block. -/
def round (s : State) (constant word : Nat) : State :=
  let mixed := add (add (add s.h (rotate s.e 6 ^^^ rotate s.e 11 ^^^ rotate s.e 25))
    (add (s.g ^^^ (s.e &&& (s.f ^^^ s.g))) constant)) word
  let spread := add (rotate s.a 2 ^^^ rotate s.a 13 ^^^ rotate s.a 22)
    ((s.a &&& s.b) ||| (s.c &&& (s.a ||| s.b)))
  ⟨add mixed spread, s.a, s.b, s.c, add s.d mixed, s.e, s.f, s.g⟩

/-- More words behind those of a block, the last word first. -/
def extend : Nat → List Nat → List Nat
  | 0, words => words
  | more + 1, words =>
    let early := words.getD 14 0
    let late := words.getD 1 0
    extend more (add
      (add (words.getD 15 0) (rotate early 7 ^^^ rotate early 18 ^^^ early >>> 3))
      (add (words.getD 6 0) (rotate late 17 ^^^ rotate late 19 ^^^ late >>> 10)) :: words)

/-- The rounds with their constants and words. -/
def rounds : List Nat → List Nat → State → State
  | constant :: constants, word :: words, s => rounds constants words (round s constant word)
  | _, _, s => s

/-- What a block makes of the state. -/
def compress (s : State) (block : List Nat) : State :=
  let t := rounds constants (extend 48 block.reverse).reverse s
  ⟨add s.a t.a, add s.b t.b, add s.c t.c, add s.d t.d, add s.e t.e, add s.f t.f, add s.g t.g,
    add s.h t.h⟩

/-- The digits of a number in base 256, the highest first. -/
def bigEndian : (width : Nat) → Nat → List Nat
  | 0, _ => []
  | width + 1, n => bigEndian width (n / 256) ++ [n % 256]

/-- A message with a one behind it, as many zeros as complete a block, and its length in bits. -/
def pad (message : List UInt8) : List Nat :=
  message.map UInt8.toNat ++ 128 :: List.replicate ((119 - message.length % 64) % 64) 0 ++
    bigEndian 8 (8 * message.length)

/-- The words of a list of bytes. -/
def toWords : List Nat → List Nat
  | a :: b :: c :: d :: rest => (((a * 256 + b) * 256 + c) * 256 + d) :: toWords rest
  | _ => []

/-- The blocks of a list of words, as many as there is fuel for. -/
def absorb : Nat → List Nat → State → State
  | 0, _, s => s
  | fuel + 1, words, s =>
    match words with
    | [] => s
    | _ => absorb fuel (words.drop 16) (compress s (words.take 16))

/-- The hexadecimal digits of a byte. -/
def hexByte (n : Nat) : List Char := [Nat.digitChar (n / 16), Nat.digitChar (n % 16)]

/-- The hash of a message, in 64 hexadecimal digits. -/
def hash (message : List UInt8) : String :=
  let words := toWords (pad message)
  let s := absorb words.length words start
  String.ofList (([s.a, s.b, s.c, s.d, s.e, s.f, s.g, s.h].flatMap (bigEndian 4)).flatMap hexByte)

example : hash [97, 98, 99] =
    "ba7816bf8f01cfea414140de5dae2223b00361a396177a9cb410ff61f20015ad" := by
  decide +kernel

end Streams.Sha256
