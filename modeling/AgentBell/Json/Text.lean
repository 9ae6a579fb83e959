import AgentBell.Json.Grammar
import Mathlib.Data.List.Nodup
import Mathlib.Data.Nat.Digits.Defs

/-!
# JSON documents as text

JSON values and the text a printer with an indentation of two blanks writes for them.  Strings
are escaped as `encoding/json` escapes them: quotes, backslashes, control characters, the
characters of HTML markup and the two line separators.
-/

namespace Json

/-- A JSON value.  Numbers are integers. -/
inductive Value where
  | null
  | bool (value : Bool)
  | num (value : Int)
  | str (value : String)
  | arr (items : List Value)
  | obj (fields : List (String × Value))

/-! ## Printing -/

/-- A hexadecimal digit. -/
def hexDigit (n : Nat) : Char := "0123456789abcdef".toList.getD n '0'

/-- The escape of a character by its number. -/
def unicodeEscape (n : Nat) : List Char :=
  ['\\', 'u', hexDigit (n / 4096 % 16), hexDigit (n / 256 % 16), hexDigit (n / 16 % 16),
    hexDigit (n % 16)]

/-- How a character is written inside a string. -/
def escapeChar (c : Char) : List Char :=
  if c = '"' then ['\\', '"']
  else if c = '\\' then ['\\', '\\']
  else if c = '\n' then ['\\', 'n']
  else if c = '\r' then ['\\', 'r']
  else if c = '\t' then ['\\', 't']
  else if c = '\x08' then ['\\', 'b']
  else if c = '\x0c' then ['\\', 'f']
  else if c.toNat < 32 ∨ c = '<' ∨ c = '>' ∨ c = '&' ∨ c.toNat = 0x2028 ∨ c.toNat = 0x2029 then
    unicodeEscape c.toNat
  else [c]

/-- The characters of a string between its quotes. -/
def escape (text : String) : List Char := text.toList.flatMap escapeChar

/-- A string with its quotes. -/
def quote (text : String) : List Char := '"' :: (escape text ++ ['"'])

/-! ## Reading a literal -/

/-- The value of a hexadecimal digit. -/
def hexValue (c : Char) : Nat :=
  if c.isDigit then c.toNat - 48 else if c.isUpper then c.toNat - 55 else c.toNat - 87

/-- What the escape of one character stands for. -/
def shortEscape (c : Char) : Nat :=
  match c with
  | 'b' => 8
  | 'f' => 12
  | 'n' => 10
  | 'r' => 13
  | 't' => 9
  | _ => c.toNat

/-- The code units of what stands between the quotes of a literal. -/
def units : List Char → List Nat
  | '\\' :: 'u' :: a :: b :: c :: d :: rest =>
    [a, b, c, d].foldl (fun value digit => 16 * value + hexValue digit) 0 :: units rest
  | '\\' :: c :: rest => shortEscape c :: units rest
  | c :: rest => c.toNat :: units rest
  | [] => []

/-- The characters of code units; half of a pair reads as the replacement character. -/
def characters : List Nat → List Char
  | high :: low :: rest =>
    if 0xd800 ≤ high ∧ high < 0xdc00 ∧ 0xdc00 ≤ low ∧ low < 0xe000 then
      Char.ofNat (0x10000 + (high - 0xd800) * 1024 + (low - 0xdc00)) :: characters rest
    else (if high.isValidChar then Char.ofNat high else '\ufffd') :: characters (low :: rest)
  | [unit] => [if unit.isValidChar then Char.ofNat unit else '\ufffd']
  | [] => []

/-- The string of a literal. -/
def readLiteral (literal : List Char) : String :=
  String.ofList (characters (units (literal.drop 1).dropLast))

/-- A new line with the indentation of a depth. -/
def newline (depth : Nat) : List Char := '\n' :: List.replicate (2 * depth) ' '

mutual

/-- The text of a value at a depth. -/
def render (depth : Nat) : Value → List Char
  | .null => "null".toList
  | .bool true => "true".toList
  | .bool false => "false".toList
  | .num n => n.repr.toList
  | .str text => quote text
  | .arr [] => ['[', ']']
  | .arr (item :: items) =>
    '[' :: (newline (depth + 1) ++ (render (depth + 1) item ++
      (renderItems (depth + 1) items ++ (newline depth ++ [']']))))
  | .obj [] => ['\x7b', '\x7d']
  | .obj ((name, value) :: fields) =>
    '\x7b' :: (newline (depth + 1) ++ (quote name ++ (':' :: ' ' :: (render (depth + 1) value ++
      (renderFields (depth + 1) fields ++ (newline depth ++ ['\x7d']))))))

/-- The text of further items. -/
def renderItems (depth : Nat) : List Value → List Char
  | [] => []
  | item :: items => ',' :: (newline depth ++ (render depth item ++ renderItems depth items))

/-- The text of further fields. -/
def renderFields (depth : Nat) : List (String × Value) → List Char
  | [] => []
  | (name, value) :: fields =>
    ',' :: (newline depth ++ (quote name ++ (':' :: ' ' :: (render depth value ++
      renderFields depth fields))))

end

/-! ## Strings and names of a value -/

mutual

/-- The strings of a value, names included. -/
def texts : Value → List String
  | .str text => [text]
  | .arr items => textsOfItems items
  | .obj fields => textsOfFields fields
  | _ => []

/-- The strings of items. -/
def textsOfItems : List Value → List String
  | [] => []
  | item :: items => texts item ++ textsOfItems items

/-- The strings of fields. -/
def textsOfFields : List (String × Value) → List String
  | [] => []
  | (name, value) :: fields => name :: (texts value ++ textsOfFields fields)

end

mutual

/-- No object of the value has two fields of one name. -/
def distinct : Value → Prop
  | .arr items => distinctItems items
  | .obj fields => (fields.map Prod.fst).Nodup ∧ distinctFields fields
  | _ => True

/-- No object of the items has two fields of one name. -/
def distinctItems : List Value → Prop
  | [] => True
  | item :: items => distinct item ∧ distinctItems items

/-- No object of the fields has two fields of one name. -/
def distinctFields : List (String × Value) → Prop
  | [] => True
  | (_, value) :: fields => distinct value ∧ distinctFields fields

end

/-! ## Printed text as a document -/

/-- An integer is printed as a word. -/
lemma isWord_repr (n : Int) : IsWord n.repr.toList := by
  have hnat : ∀ m : Nat, ∀ c ∈ m.repr.toList, isWordChar c = true := by
    intro m c hc
    rw [Nat.repr_eq_ofList_toDigits, String.toList_ofList] at hc
    have hdigit := Nat.isDigit_of_mem_toDigits (by decide) (by decide) hc
    simp [isWordChar, Char.isAlphanum, hdigit]
  rw [Int.repr_eq_if]
  split
  · exact ⟨fun h => Nat.repr_ne_empty (String.toList_eq_nil_iff.mp h), hnat _⟩
  · rw [String.toList_append]
    refine ⟨by simp, fun c hc => ?_⟩
    rcases List.mem_append.mp hc with hc | hc
    · obtain rfl : c = '-' := by simpa using hc
      decide
    · exact hnat _ c hc

lemma piece_escapeChar (c : Char) : Piece (escapeChar c) := by
  have hdigit : ∀ m : Fin 16, IsHex (hexDigit m) := by
    unfold IsHex
    decide
  have hhex : ∀ n, IsHex (hexDigit (n % 16)) := fun n => hdigit ⟨n % 16, Nat.mod_lt _ (by decide)⟩
  unfold escapeChar
  iterate 7
    split
    · exact .short _ (by decide)
  split
  · refine .unicode _ _ _ _ ?_
    simp [hhex]
  · rename_i hquote hslash _ _ _ _ _ hcontrol
    refine .plain c hquote hslash ?_
    omega

lemma isLiteral_quote (text : String) : IsLiteral (quote text) := by
  refine ⟨text.toList.map escapeChar, ?_, ?_⟩
  · intro piece hpiece
    obtain ⟨c, -, rfl⟩ := List.mem_map.mp hpiece
    exact piece_escapeChar c
  · rw [quote, escape, List.flatMap_def]

lemma blank_newline (depth : Nat) : Blank (newline depth) := by
  intro c hc
  rcases List.mem_cons.mp hc with rfl | hc
  · exact .inr (.inr (.inl rfl))
  · exact .inl (List.eq_of_mem_replicate hc)

lemma blank_nil : Blank [] := fun _ hc => absurd hc List.not_mem_nil

lemma blank_space : Blank [' '] := fun _ hc => .inl (List.mem_singleton.mp hc)

mutual

/-- The tree of the text a value is printed as. -/
def treeOf : Value → Tree
  | .null => .word "null".toList
  | .bool true => .word "true".toList
  | .bool false => .word "false".toList
  | .num n => .word n.repr.toList
  | .str text => .text (quote text)
  | .arr items => .arr (treesOf items)
  | .obj fields => .obj (membersOf fields)

/-- The trees of the items of an array. -/
def treesOf : List Value → List Tree
  | [] => []
  | item :: items => treeOf item :: treesOf items

/-- The members of an object. -/
def membersOf : List (String × Value) → List (List Char × Tree)
  | [] => []
  | (name, value) :: fields => (quote name, treeOf value) :: membersOf fields

end

section Levels

variable {items : List Value} {fields : List (String × Value)} {n : Nat}

/-- An array has one level more than its items. -/
lemma levels_arr_le (h : ∀ item ∈ items, (treeOf item).levels ≤ n) :
    (treeOf (.arr items)).levels ≤ n + 1 := by
  refine Nat.succ_le_succ ?_
  induction items with
  | nil => exact Nat.zero_le n
  | cons item items ih =>
    obtain ⟨hitem, hitems⟩ := List.forall_mem_cons.mp h
    exact Nat.max_le.mpr ⟨hitem, ih hitems⟩

/-- An object has one level more than the values of its fields. -/
lemma levels_obj_le (h : ∀ field ∈ fields, (treeOf field.2).levels ≤ n) :
    (treeOf (.obj fields)).levels ≤ n + 1 := by
  refine Nat.succ_le_succ ?_
  induction fields with
  | nil => exact Nat.zero_le n
  | cons field fields ih =>
    obtain ⟨hfield, hfields⟩ := List.forall_mem_cons.mp h
    exact Nat.max_le.mpr ⟨hfield, ih hfields⟩

end Levels

section Printed

variable {known : String → Prop}

/-- The literals of a printed text are the printed strings. -/
def Printed (known : String → Prop) (literal : List Char) : Prop :=
  ∃ text, known text ∧ literal = quote text

mutual

/-- A printed value is spelled by its tree. -/
theorem spells_render : ∀ (value : Value) (depth : Nat), (∀ text ∈ texts value, known text) →
    Spells (Printed known) (treeOf value) (render depth value)
  | .null, depth, _ | .bool true, depth, _ | .bool false, depth, _ =>
    ⟨⟨nofun, List.all_eq_true.mp (by decide)⟩, rfl⟩
  | .num n, depth, _ => ⟨isWord_repr n, rfl⟩
  | .str text, depth, h => ⟨⟨text, h text (by simp [texts]), rfl⟩, rfl⟩
  | .arr [], depth, _ => ⟨[], blank_nil, rfl⟩
  | .arr (item :: items), depth, h => by
    refine ⟨_, _, ⟨_, _, [], blank_newline (depth + 1), spells_render item (depth + 1) ?_,
      blank_nil, rfl⟩, spells_renderItems items (depth + 1) depth ?_, by simp [render]⟩
    · exact fun t ht => h t (List.mem_append_left _ ht)
    · exact fun t ht => h t (List.mem_append_right _ ht)
  | .obj [], depth, _ => ⟨[], blank_nil, rfl⟩
  | .obj ((name, value) :: fields), depth, h => by
    refine ⟨_, _, _, ⟨name, h name List.mem_cons_self, rfl⟩,
      ⟨_, _, [], blank_newline (depth + 1), rfl, blank_nil, rfl⟩,
      ⟨_, _, [], blank_space, spells_render value (depth + 1) ?_, blank_nil, rfl⟩,
      spells_renderFields fields (depth + 1) depth ?_, by simp [render]⟩
    · exact fun t ht => h t (List.mem_cons_of_mem _ (List.mem_append_left _ ht))
    · exact fun t ht => h t (List.mem_cons_of_mem _ (List.mem_append_right _ ht))

/-- Printed items are spelled by their trees. -/
theorem spells_renderItems : ∀ (items : List Value) (depth outer : Nat),
    (∀ text ∈ textsOfItems items, known text) →
    SpellsItems (Printed known) (treesOf items) (renderItems depth items ++ newline outer)
  | [], depth, outer, _ => blank_newline outer
  | item :: items, depth, outer, h => by
    refine ⟨_, _, ⟨_, _, [], blank_newline depth, spells_render item depth ?_, blank_nil, rfl⟩,
      spells_renderItems items depth outer ?_, by simp [renderItems]⟩
    · exact fun t ht => h t (List.mem_append_left _ ht)
    · exact fun t ht => h t (List.mem_append_right _ ht)

/-- Printed fields are spelled by their members. -/
theorem spells_renderFields : ∀ (fields : List (String × Value)) (depth outer : Nat),
    (∀ text ∈ textsOfFields fields, known text) →
    SpellsMembers (Printed known) (membersOf fields) (renderFields depth fields ++ newline outer)
  | [], depth, outer, _ => blank_newline outer
  | (name, value) :: fields, depth, outer, h => by
    refine ⟨_, _, _, ⟨name, h name List.mem_cons_self, rfl⟩,
      ⟨_, _, [], blank_newline depth, rfl, blank_nil, rfl⟩,
      ⟨_, _, [], blank_space, spells_render value depth ?_, blank_nil, rfl⟩,
      spells_renderFields fields depth outer ?_, by simp [renderFields]⟩
    · exact fun t ht => h t (List.mem_cons_of_mem _ (List.mem_append_left _ ht))
    · exact fun t ht => h t (List.mem_cons_of_mem _ (List.mem_append_right _ ht))

end

variable {α : Type} {decode : List Char → α} {given : String → α}

lemma map_membersOf (fields : List (String × Value))
    (h : ∀ text ∈ textsOfFields fields, decode (quote text) = given text) :
    ((membersOf fields).map fun member => decode member.1) = (fields.map Prod.fst).map given := by
  induction fields with
  | nil => rfl
  | cons entry fields ih =>
    have hrest := ih fun text ht => h text (by simp [textsOfFields, ht])
    simp [membersOf, hrest, h entry.1 (by simp [textsOfFields])]

mutual

/-- A value without equal names is printed as a document without equal names. -/
theorem noDuplicates_treeOf (hgiven : Function.Injective given) : ∀ value : Value, distinct value →
    (∀ text ∈ texts value, decode (quote text) = given text) → NoDuplicates decode (treeOf value)
  | .null, _, _ | .bool true, _, _ | .bool false, _, _ | .num _, _, _ | .str _, _, _ => trivial
  | .arr items, h, ht => noDuplicates_treesOf hgiven items h ht
  | .obj fields, h, ht => by
    refine ⟨?_, noDuplicates_membersOf hgiven fields h.2 ht⟩
    rw [map_membersOf fields ht]
    exact h.1.map hgiven

theorem noDuplicates_treesOf (hgiven : Function.Injective given) : ∀ items : List Value,
    distinctItems items → (∀ text ∈ textsOfItems items, decode (quote text) = given text) →
    NoDuplicatesInItems decode (treesOf items)
  | [], _, _ => trivial
  | item :: items, h, ht =>
    ⟨noDuplicates_treeOf hgiven item h.1 fun t hmem => ht t (List.mem_append_left _ hmem),
      noDuplicates_treesOf hgiven items h.2 fun t hmem => ht t (List.mem_append_right _ hmem)⟩

theorem noDuplicates_membersOf (hgiven : Function.Injective given) :
    ∀ fields : List (String × Value), distinctFields fields →
    (∀ text ∈ textsOfFields fields, decode (quote text) = given text) →
    NoDuplicatesInMembers decode (membersOf fields)
  | [], _, _ => trivial
  | (_, value) :: fields, h, ht =>
    ⟨noDuplicates_treeOf hgiven value h.1 fun t hmem =>
        ht t (List.mem_cons_of_mem _ (List.mem_append_left _ hmem)),
      noDuplicates_membersOf hgiven fields h.2 fun t hmem =>
        ht t (List.mem_cons_of_mem _ (List.mem_append_right _ hmem))⟩

end

end Printed

end Json
