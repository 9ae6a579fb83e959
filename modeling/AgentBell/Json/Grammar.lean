import Mathlib.Data.List.Basic

/-!
# The grammar of JSON texts

What it means for a text to be spelled by the JSON grammar.  The syntax tree of a document keeps
the members of an object in their order and their names as they are written, so that an object with
two equal names is a document of its own.
-/

namespace Json

/-- White space between the tokens of a document. -/
def Blank (text : List Char) : Prop := ∀ c ∈ text, c = ' ' ∨ c = '\t' ∨ c = '\n' ∨ c = '\r'

/-! ## String literals -/

/-- A hexadecimal digit of either case. -/
def IsHex (c : Char) : Prop :=
  c.isDigit = true ∨ 'a'.toNat ≤ c.toNat ∧ c.toNat ≤ 'f'.toNat ∨
    'A'.toNat ≤ c.toNat ∧ c.toNat ≤ 'F'.toNat

/-- What a string literal is made of: characters and escapes. -/
inductive Piece : List Char → Prop where
  | plain (c : Char) (quote : c ≠ '"') (slash : c ≠ '\\') (control : 32 ≤ c.toNat) : Piece [c]
  | short (c : Char) (known : c ∈ ['"', '\\', '/', 'b', 'f', 'n', 'r', 't']) : Piece ['\\', c]
  | unicode (a b c d : Char) (hex : ∀ x ∈ [a, b, c, d], IsHex x) : Piece ['\\', 'u', a, b, c, d]

/-- A string literal with its quotes. -/
def IsLiteral (literal : List Char) : Prop :=
  ∃ pieces : List (List Char), (∀ piece ∈ pieces, Piece piece) ∧
    literal = '"' :: (pieces.flatten ++ ['"'])

/-! ## Documents -/

/-- The characters of numbers and of the words `true`, `false` and `null`. -/
def isWordChar (c : Char) : Bool := c.isAlphanum || c = '+' || c = '-' || c = '.'

/-- A number or a word.  Of their grammar only the characters play a role. -/
def IsWord (text : List Char) : Prop := text ≠ [] ∧ ∀ c ∈ text, isWordChar c = true

/-- The syntax tree of a document. -/
inductive Tree where
  | word (text : List Char)
  | text (literal : List Char)
  | arr (items : List Tree)
  | obj (members : List (List Char × Tree))

/-- A text with white space around it. -/
def Padded (spells : List Char → Prop) (text : List Char) : Prop :=
  ∃ left inner right, Blank left ∧ spells inner ∧ Blank right ∧ text = left ++ (inner ++ right)

section Spelling

variable (isLiteral : List Char → Prop)

mutual

/-- The text of a tree with literals of a kind. -/
def Spells : Tree → List Char → Prop
  | .word word, text => IsWord word ∧ text = word
  | .text literal, text => isLiteral literal ∧ text = literal
  | .arr [], text => ∃ blank, Blank blank ∧ text = '[' :: (blank ++ [']'])
  | .arr (item :: items), text => ∃ first rest, Padded (Spells item) first ∧
      SpellsItems items rest ∧ text = '[' :: (first ++ (rest ++ [']']))
  | .obj [], text => ∃ blank, Blank blank ∧ text = '\x7b' :: (blank ++ ['\x7d'])
  | .obj ((name, value) :: members), text => ∃ label first rest, isLiteral name ∧
      Padded (· = name) label ∧ Padded (Spells value) first ∧ SpellsMembers members rest ∧
      text = '\x7b' :: (label ++ ':' :: (first ++ (rest ++ ['\x7d'])))

/-- The text of further items of an array. -/
def SpellsItems : List Tree → List Char → Prop
  | [], text => Blank text
  | item :: items, text => ∃ first rest, Padded (Spells item) first ∧ SpellsItems items rest ∧
      text = ',' :: (first ++ rest)

/-- The text of further members of an object. -/
def SpellsMembers : List (List Char × Tree) → List Char → Prop
  | [], text => Blank text
  | (name, value) :: members, text => ∃ label first rest, isLiteral name ∧
      Padded (· = name) label ∧ Padded (Spells value) first ∧ SpellsMembers members rest ∧
      text = ',' :: (label ++ ':' :: (first ++ rest))

end

end Spelling

section Names

variable {α : Type} (decode : List Char → α)

mutual

/-- No object of the tree has two members whose decoded names are equal. -/
def NoDuplicates : Tree → Prop
  | .arr items => NoDuplicatesInItems items
  | .obj members => (members.map fun member => decode member.1).Nodup ∧
      NoDuplicatesInMembers members
  | _ => True

/-- No object of the items has two members whose decoded names are equal. -/
def NoDuplicatesInItems : List Tree → Prop
  | [] => True
  | item :: items => NoDuplicates item ∧ NoDuplicatesInItems items

/-- No object below the members has two members whose decoded names are equal. -/
def NoDuplicatesInMembers : List (List Char × Tree) → Prop
  | [] => True
  | (_, value) :: members => NoDuplicates value ∧ NoDuplicatesInMembers members

end

end Names

section Levels

mutual

/-- How many levels of values a tree has. -/
def Tree.levels : Tree → Nat
  | .arr items => levelsOfItems items + 1
  | .obj members => levelsOfMembers members + 1
  | _ => 1

/-- How many levels of values the items of an array have. -/
def levelsOfItems : List Tree → Nat
  | [] => 0
  | item :: items => max item.levels (levelsOfItems items)

/-- How many levels of values the members of an object have. -/
def levelsOfMembers : List (List Char × Tree) → Nat
  | [] => 0
  | (_, value) :: members => max value.levels (levelsOfMembers members)

end

lemma Tree.levels_pos (tree : Tree) : 0 < tree.levels := by
  cases tree <;> simp [Tree.levels]

end Levels

end Json
