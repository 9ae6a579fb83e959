import AgentBell.Json.GoString
import AgentBell.Json.Grammar
import AgentBell.Upgrade.Sidecar

/-!
# The scan for duplicate keys

The scan follows the grammar of JSON.  It passes over a document in which no object has two members
of one name and which is not nested deeper than its calls fit on the stack.  It reports a duplicate,
or fails for want of stack, otherwise: whichever it comes to first.  The proof follows the recursion
of the scan: a value, the items of an array and the members of an object, each followed by a
character that ends it.  A text that was printed from a value is a document of that kind.
-/

namespace AgentBell.Upgrade

open Json (Tree Blank Piece IsLiteral Padded Spells SpellsItems SpellsMembers NoDuplicates
  NoDuplicatesInItems NoDuplicatesInMembers levelsOfItems levelsOfMembers isLiteral_quote blank_nil)

/-! ## White space, literals and words -/

lemma skipWhitespace_cons {c : Char} (hc : isWhitespace c = false) (text : List Char) :
    skipWhitespace (c :: text) = c :: text := by
  simp [skipWhitespace, hc]

lemma isWhitespace_of_blank {blank : List Char} (h : Blank blank) :
    ∀ c ∈ blank, isWhitespace c = true := by
  intro c hc
  rcases h c hc with rfl | rfl | rfl | rfl <;> decide

lemma skipWhitespace_blank {blank : List Char} (h : Blank blank) (text : List Char) :
    skipWhitespace (blank ++ text) = skipWhitespace text :=
  List.dropWhile_append_of_pos (isWhitespace_of_blank h)

lemma literalEnd_piece {piece : List Char} (h : Piece piece) (rest : List Char) :
    literalEnd 0 (piece ++ rest) =
      (literalEnd 0 rest).map fun found => (piece ++ found.1, found.2) := by
  cases h with
  | plain c quote slash => simp [literalEnd, quote, slash]
  | short c known =>
    have hshort : c ≠ 'u' := by
      rintro rfl
      revert known
      decide
    simp [literalEnd, hshort, Function.comp_def]
  | unicode a b c d => simp [literalEnd, Function.comp_def]

lemma literalEnd_pieces {pieces : List (List Char)} (h : ∀ piece ∈ pieces, Piece piece)
    (rest : List Char) : literalEnd 0 (pieces.flatten ++ '"' :: rest) =
      some (pieces.flatten ++ ['"'], rest) := by
  induction pieces with
  | nil => simp [literalEnd]
  | cons piece pieces ih =>
    have hrest := ih fun piece hpiece => h piece (List.mem_cons_of_mem _ hpiece)
    rw [List.flatten_cons, List.append_assoc, literalEnd_piece (h piece List.mem_cons_self), hrest]
    simp

/-- What may follow a value. -/
def Stops (rest : List Char) : Prop := ∀ c, rest.head? = some c → endsToken c = true

lemma stops_cons {c : Char} (h : endsToken c = true) (rest : List Char) : Stops (c :: rest) := by
  intro first hfirst
  rwa [← Option.some.inj hfirst]

lemma stops_blank {blank rest : List Char} (h : Blank blank) (hrest : Stops rest) :
    Stops (blank ++ rest) := by
  cases blank with
  | nil => exact hrest
  | cons c blank =>
    refine stops_cons ?_ _
    simp [endsToken, isWhitespace_of_blank h c List.mem_cons_self]

/-- The characters of words do not end them and start nothing else. -/
lemma token_of_wordChar {c : Char} (h : Json.isWordChar c = true) :
    endsToken c = false ∧ c ≠ '\x7b' ∧ c ≠ '[' ∧ c ≠ '"' ∧ c ≠ ']' := by
  have hrange : 43 ≤ c.toNat ∧ c.toNat ≤ 122 ∧ c.toNat ≠ 44 ∧ c.toNat ≠ 91 ∧ c.toNat ≠ 93 := by
    simp only [Json.isWordChar, Char.isAlphanum] at h
    delta Char.isAlpha Char.isUpper Char.isLower at h
    simp only [Char.isDigit, Bool.or_eq_true, Bool.and_eq_true, decide_eq_true_eq, ge_iff_le,
      UInt32.le_iff_toNat_le] at h
    rcases h with ((((h | h) | h) | rfl) | rfl) | rfl
    iterate 3
      simp at h
      omega
    all_goals decide
  have hne : ∀ d : Char, d.toNat < 43 ∨ 122 < d.toNat ∨ d.toNat = 44 ∨ d.toNat = 91 ∨
      d.toNat = 93 → c ≠ d := by
    rintro d hd rfl
    omega
  have hspace : isWhitespace c = false := by
    by_contra hspace
    simp [isWhitespace] at hspace
    omega
  refine ⟨?_, hne _ (by decide), hne _ (by decide), hne _ (by decide), hne _ (by decide)⟩
  simp [endsToken, hspace, hne ',' (by decide), hne ']' (by decide), hne '\x7d' (by decide)]

/-! ## The scan -/

/-- Why a scan throws: a name is there twice, or the calls are nested too deeply. -/
inductive Reports (label : String) (fine fits : Prop) : String → Prop where
  | duplicate (name : String) (twice : ¬ fine) :
      Reports label fine fits ("parse " ++ label ++ ": duplicate field " ++ name ++ ".")
  | overflow (deep : ¬ fits) : Reports label fine fits stackMessage

/-- How a scan ends: with what it is about, or with a report. -/
structure Passes (label : String) (fine fits : Prop) {α : Type} (value : α)
    (result : Except String α) : Prop where
  passed : fine ∧ fits → result = .ok value
  reported : ¬ (fine ∧ fits) → ∃ message, result = .error message ∧ Reports label fine fits message

/-- What is a literal here is one of JSON, and the language reads it. -/
def Script.Reads (J : Script) (isLiteral : List Char → Prop) : Prop :=
  ∀ literal, isLiteral literal → IsLiteral literal ∧ ∃ name, J.parseLiteral literal = .ok name

/-- The names of members differ from each other and from those seen before. -/
def Unseen (J : Script) (seen : List String) (members : List (List Char × Tree)) : Prop :=
  (members.map fun member => J.parseLiteral member.1).Nodup ∧
    ∀ name ∈ seen, .ok name ∉ members.map fun member => J.parseLiteral member.1

lemma unseen_cons {J : Script} {seen : List String} {literal : List Char} {value : Tree}
    {members : List (List Char × Tree)} {name : String}
    (hname : J.parseLiteral literal = .ok name) : Unseen J seen ((literal, value) :: members) ↔
      name ∉ seen ∧ Unseen J (name :: seen) members := by
  simp only [Unseen, List.map_cons, hname, List.nodup_cons, List.mem_cons, forall_eq_or_imp, not_or,
    Except.ok.injEq]
  grind

section Scan

variable {J : Script} {label : String} {isLiteral : List Char → Prop}

lemma Reports.weaken {fine fits fine' fits' : Prop} {message : String}
    (h : Reports label fine fits message) (hfine : fine' → fine) (hfits : fits' → fits) :
    Reports label fine' fits' message := by
  cases h with
  | duplicate name twice => exact .duplicate name fun h => twice (hfine h)
  | overflow deep => exact .overflow fun h => deep (hfits h)

lemma Passes.done {fine fits : Prop} {α : Type} {value : α} {result : Except String α}
    (hfine : fine ∧ fits) (hresult : result = .ok value) : Passes label fine fits value result :=
  ⟨fun _ => hresult, fun hnot => absurd hfine hnot⟩

lemma Passes.congr {fine fits fine' fits' : Prop} {α : Type} {value : α} {result : Except String α}
    (h : Passes label fine fits value result) (hfine : fine' ↔ fine) (hfits : fits' ↔ fits) :
    Passes label fine' fits' value result := by
  rwa [propext hfine, propext hfits]

/-- A scan that goes on after a part it has passed over. -/
lemma Passes.bind {fine fits : Prop} (later deeper : Prop) {α β : Type} {middle : α} {value : β}
    {first : Except String α} {next : α → Except String β}
    (hfirst : Passes label fine fits middle first)
    (hnext : Passes label later deeper value (next middle)) :
    Passes label (fine ∧ later) (fits ∧ deeper) value (first.bind next) := by
  by_cases h : fine ∧ fits
  · rw [hfirst.passed h]
    refine ⟨fun hall => hnext.passed ⟨hall.1.2, hall.2.2⟩, fun hnot => ?_⟩
    obtain ⟨message, hmessage, hreports⟩ :=
      hnext.reported fun hrest => hnot ⟨⟨h.1, hrest.1⟩, h.2, hrest.2⟩
    exact ⟨message, hmessage, hreports.weaken And.right And.right⟩
  · obtain ⟨message, hmessage, hreports⟩ := hfirst.reported h
    rw [hmessage]
    exact ⟨fun hall => absurd ⟨hall.1.1, hall.2.1⟩ h,
      fun _ => ⟨message, rfl, hreports.weaken And.left And.left⟩⟩

lemma parseString_literal {literal : List Char} {name : String} (label : String)
    (h : IsLiteral literal) (hname : J.parseLiteral literal = .ok name) (rest : List Char) :
    ∃ tail, literal ++ rest = '"' :: tail ∧ parseString J label tail = .ok (name, rest) := by
  obtain ⟨pieces, hpieces, rfl⟩ := h
  refine ⟨pieces.flatten ++ '"' :: rest, by simp, ?_⟩
  simp only [parseString, literalEnd_pieces hpieces, hname]

/-- A value starts with a character that is neither white space nor a closing bracket. -/
lemma spells_head (hJ : J.Reads isLiteral) {tree : Tree} {text : List Char}
    (h : Spells isLiteral tree text) :
    ∃ c tail, text = c :: tail ∧ isWhitespace c = false ∧ c ≠ ']' := by
  match tree, h with
  | .word _, ⟨hword, hsame⟩ =>
    obtain ⟨c, tail, htext⟩ := List.exists_cons_of_ne_nil (hsame ▸ hword.1)
    obtain ⟨hend, -, -, -, hbracket⟩ := token_of_wordChar (hword.2 c (by simp [← hsame, htext]))
    simp only [endsToken, Bool.or_eq_false_iff] at hend
    exact ⟨c, tail, htext, hend.1.1.1, hbracket⟩
  | .text _, ⟨hliteral, hsame⟩ =>
    obtain ⟨⟨pieces, -, hquoted⟩, -⟩ := hJ _ hliteral
    exact ⟨_, _, hsame.trans hquoted, by decide, by decide⟩
  | .arr [], ⟨_, _, hsame⟩ => exact ⟨_, _, hsame, by decide, by decide⟩
  | .arr (_ :: _), ⟨_, _, _, _, hsame⟩ => exact ⟨_, _, hsame, by decide, by decide⟩
  | .obj [], ⟨_, _, hsame⟩ => exact ⟨_, _, hsame, by decide, by decide⟩
  | .obj (_ :: _), ⟨_, _, _, _, _, _, _, hsame⟩ => exact ⟨_, _, hsame, by decide, by decide⟩

lemma skipWhitespace_spells (hJ : J.Reads isLiteral) {tree : Tree} {text left : List Char}
    (h : Spells isLiteral tree text) (hleft : Blank left) (rest : List Char) :
    skipWhitespace (left ++ (text ++ rest)) = text ++ rest := by
  obtain ⟨c, tail, rfl, hspace, -⟩ := spells_head hJ h
  rw [skipWhitespace_blank hleft, List.cons_append, skipWhitespace_cons hspace]

/-- After an item, the array ends or goes on. -/
lemma parseItems_item {text : List Char} (stack fuel : Nat) (h : ∀ more, text ≠ ']' :: more) :
    parseItems J label stack (fuel + 1) text =
      (parseValue J label stack fuel text).bind fun rest =>
        match skipWhitespace rest with
        | ',' :: rest => parseItems J label stack fuel (skipWhitespace rest)
        | other => stepOver label other := by
  rw [parseItems]
  · cases parseValue J label stack fuel text <;> rfl
  · exact h

/-- After a name that was not seen before, the value of the member follows. -/
lemma parseFields_member {literal blank : List Char} {name : String} (hliteral : IsLiteral literal)
    (hname : J.parseLiteral literal = .ok name) (hblank : Blank blank) (stack fuel : Nat)
    (seen : List String) (rest : List Char) :
    parseFields J label stack (fuel + 1) seen (literal ++ (blank ++ ':' :: rest)) =
      if seen.contains name then
        .error ("parse " ++ label ++ ": duplicate field " ++ name ++ ".")
      else
        (parseValue J label stack fuel rest).bind fun rest =>
          match skipWhitespace rest with
          | ',' :: rest => parseFields J label stack fuel (name :: seen) (skipWhitespace rest)
          | other => stepOver label other := by
  obtain ⟨tail, htail, hparse⟩ :=
    parseString_literal label hliteral hname (blank ++ ':' :: rest)
  rw [htail, parseFields]
  simp only [hparse, skipWhitespace_blank hblank]
  rw [skipWhitespace_cons (by decide)]
  split
  · rfl
  · simp only
    cases parseValue J label stack fuel rest <;> rfl

lemma parseValue_blank {blank : List Char} (h : Blank blank) (stack fuel : Nat)
    (text : List Char) :
    parseValue J label stack fuel (blank ++ text) = parseValue J label stack fuel text := by
  cases stack with
  | zero => simp only [parseValue]
  | succ stack =>
    cases fuel with
    | zero => simp only [parseValue]
    | succ fuel => simp only [parseValue, skipWhitespace_blank h]

lemma parseValue_word {word rest : List Char} (h : Json.IsWord word) (stack fuel : Nat)
    (hrest : Stops rest) :
    parseValue J label (stack + 1) (fuel + 1) (word ++ rest) = .ok rest := by
  have hchars := fun c hc => token_of_wordChar (h.2 c hc)
  obtain ⟨first, others, rfl⟩ := List.exists_cons_of_ne_nil h.1
  obtain ⟨hfirst, hbrace, hbracket, hquote, -⟩ := hchars first List.mem_cons_self
  have hspace : isWhitespace first = false := by
    simp only [endsToken, Bool.or_eq_false_iff] at hfirst
    exact hfirst.1.1.1
  have hpass : ∀ c ∈ first :: others, (!endsToken c) = true := by
    intro c hc
    simp [(hchars c hc).1]
  have hstop : rest.dropWhile (fun c => !endsToken c) = rest := by
    cases rest with
    | nil => rfl
    | cons c rest => simp [hrest c rfl]
  have hdrop : (first :: others ++ rest).dropWhile (fun c => !endsToken c) = rest := by
    rw [List.dropWhile_append_of_pos hpass, hstop]
  rw [List.cons_append, parseValue, skipWhitespace_cons hspace]
  split
  · exact absurd (List.cons.inj ‹_›).1 hbrace
  · exact absurd (List.cons.inj ‹_›).1 hbracket
  · exact absurd (List.cons.inj ‹_›).1 hquote
  · rw [if_neg (by simp [hfirst]), ← List.cons_append, hdrop]

mutual

/-- The scan of a value. -/
theorem parseValue_spells (hJ : J.Reads isLiteral) : ∀ (tree : Tree) (text : List Char)
    (stack fuel : Nat) (rest : List Char), Spells isLiteral tree text → text.length ≤ fuel →
    Stops rest → Passes label (NoDuplicates J.parseLiteral tree) (tree.levels ≤ stack) rest
      (parseValue J label stack fuel (text ++ rest))
  | tree, _, 0, _, _, _, _, _ => by
    have hdeep : ¬ tree.levels ≤ 0 := Nat.not_le.mpr tree.levels_pos
    refine ⟨fun h => absurd h.2 hdeep, fun _ => ⟨stackMessage, ?_, .overflow hdeep⟩⟩
    rw [parseValue]
  | tree, text, stack + 1, 0, rest, h, hfuel, _ => by
    obtain ⟨c, tail, rfl, -⟩ := spells_head hJ h
    simp at hfuel
  | .word word, text, stack + 1, fuel + 1, rest, h, _, hrest => by
    obtain ⟨hword, rfl⟩ := h
    exact .done ⟨trivial, Nat.succ_pos stack⟩ (parseValue_word hword stack fuel hrest)
  | .text literal, text, stack + 1, fuel + 1, rest, h, _, _ => by
    obtain ⟨hliteral, rfl⟩ := h
    obtain ⟨hliteral, name, hname⟩ := hJ text hliteral
    obtain ⟨tail, htail, hparse⟩ := parseString_literal label hliteral hname rest
    rw [htail, parseValue, skipWhitespace_cons (by decide)]
    simp only [hparse]
    exact .done ⟨trivial, Nat.succ_pos stack⟩ rfl
  | .arr [], text, stack + 1, fuel + 1, rest, h, hfuel, _ => by
    obtain ⟨blank, hblank, rfl⟩ := h
    obtain ⟨more, rfl⟩ : ∃ more, fuel = more + 1 := ⟨fuel - 1, by simp at hfuel; omega⟩
    refine .done ⟨trivial, Nat.succ_pos stack⟩ ?_
    simp [parseValue, skipWhitespace_cons, skipWhitespace_blank hblank, parseItems, isWhitespace]
  | .arr (item :: items), text, stack + 1, fuel + 1, rest, h, hfuel, _ => by
    obtain ⟨first, more, hfirst, hmore, rfl⟩ := h
    rw [List.cons_append, parseValue, skipWhitespace_cons (by decide), List.append_assoc,
      List.append_assoc]
    exact (parseItems_spells hJ item items first more stack fuel rest hfirst hmore
      (by simp at hfuel; omega)).congr Iff.rfl Nat.add_le_add_iff_right
  | .obj [], text, stack + 1, fuel + 1, rest, h, hfuel, _ => by
    obtain ⟨blank, hblank, rfl⟩ := h
    obtain ⟨more, rfl⟩ : ∃ more, fuel = more + 1 := ⟨fuel - 1, by simp at hfuel; omega⟩
    refine .done ⟨⟨List.nodup_nil, trivial⟩, Nat.succ_pos stack⟩ ?_
    simp [parseValue, skipWhitespace_cons, skipWhitespace_blank hblank, parseFields, isWhitespace]
  | .obj ((name, value) :: members), text, stack + 1, fuel + 1, rest, h, hfuel, _ => by
    obtain ⟨label', first, more, hname, hlabel, hfirst, hmore, rfl⟩ := h
    have hfields := parseFields_spells hJ name value members label' first more stack fuel rest []
      hname hlabel hfirst hmore (by simp at hfuel; omega)
    have hunseen : NoDuplicates J.parseLiteral (.obj ((name, value) :: members)) ↔
        Unseen J [] ((name, value) :: members) ∧
          NoDuplicatesInMembers J.parseLiteral ((name, value) :: members) := by
      simp [NoDuplicates, Unseen]
    rw [List.cons_append, parseValue, skipWhitespace_cons (by decide)]
    simp only [List.append_assoc, List.cons_append, List.nil_append]
    exact hfields.congr hunseen Nat.add_le_add_iff_right
termination_by _ _ _ fuel => fuel

/-- The scan of the items of an array. -/
theorem parseItems_spells (hJ : J.Reads isLiteral) : ∀ (item : Tree) (items : List Tree)
    (first more : List Char) (stack fuel : Nat) (rest : List Char),
    Padded (Spells isLiteral item) first → SpellsItems isLiteral items more →
    first.length + more.length < fuel →
    Passes label (NoDuplicatesInItems J.parseLiteral (item :: items))
      (levelsOfItems (item :: items) ≤ stack) rest
      (parseItems J label stack fuel (skipWhitespace (first ++ (more ++ ']' :: rest))))
  | _, _, _, _, _, 0, _, _, _, hfuel => by cases hfuel
  | item, items, _, more, stack, fuel + 1, rest,
      ⟨left, inner, right, hleft, hinner, hright, rfl⟩, hmore, hfuel => by
    have hstops : Stops (more ++ ']' :: rest) := by
      cases items with
      | nil => exact stops_blank hmore (stops_cons (by decide) _)
      | cons next items =>
        obtain ⟨first, others, -, -, rfl⟩ := hmore
        exact stops_cons (by decide) _
    have hvalue := parseValue_spells hJ item inner stack fuel (right ++ (more ++ ']' :: rest))
      hinner (by simp at hfuel; omega) (stops_blank hright hstops)
    have hnot : ∀ more after, inner ++ after ≠ ']' :: more := by
      obtain ⟨c, tail, rfl, -, hbracket⟩ := spells_head hJ hinner
      exact fun more after hsame => hbracket (List.cons.inj hsame).1
    rw [List.append_assoc, List.append_assoc, skipWhitespace_spells hJ hinner hleft,
      parseItems_item stack fuel fun more => hnot more _]
    refine (hvalue.bind (NoDuplicatesInItems J.parseLiteral items) (levelsOfItems items ≤ stack)
      ?_).congr Iff.rfl Nat.max_le
    rw [skipWhitespace_blank hright]
    match items, hmore with
    | [], hmore =>
      rw [skipWhitespace_blank hmore, skipWhitespace_cons (by decide)]
      exact .done ⟨trivial, Nat.zero_le stack⟩ rfl
    | next :: items, ⟨first, others, hfirst, hothers, hsame⟩ =>
      subst hsame
      rw [List.cons_append, skipWhitespace_cons (by decide), List.append_assoc]
      exact parseItems_spells hJ next items first others stack fuel rest hfirst hothers
        (by simp at hfuel; omega)
termination_by _ _ _ _ _ fuel => fuel

/-- The scan of the members of an object, after names that were seen before. -/
theorem parseFields_spells (hJ : J.Reads isLiteral) : ∀ (literal : List Char) (value : Tree)
    (members : List (List Char × Tree)) (label' first more : List Char) (stack fuel : Nat)
    (rest : List Char) (seen : List String), isLiteral literal → Padded (· = literal) label' →
    Padded (Spells isLiteral value) first → SpellsMembers isLiteral members more →
    label'.length + first.length + more.length < fuel →
    Passes label (Unseen J seen ((literal, value) :: members) ∧
        NoDuplicatesInMembers J.parseLiteral ((literal, value) :: members))
      (levelsOfMembers ((literal, value) :: members) ≤ stack) rest
      (parseFields J label stack fuel seen
        (skipWhitespace (label' ++ ':' :: (first ++ (more ++ '\x7d' :: rest)))))
  | _, _, _, _, _, _, _, 0, _, _, _, _, _, _, hfuel => by cases hfuel
  | literal, value, members, _, _, more, stack, fuel + 1, rest, seen, hliteral,
      ⟨before, _, after, hbefore, rfl, hafter, rfl⟩,
      ⟨left, inner, right, hleft, hinner, hright, rfl⟩, hmore, hfuel => by
    obtain ⟨hliteral, name, hname⟩ := hJ _ hliteral
    have hstops : Stops (more ++ '\x7d' :: rest) := by
      cases members with
      | nil => exact stops_blank hmore (stops_cons (by decide) _)
      | cons next members =>
        obtain ⟨_, _, _, -, -, -, -, rfl⟩ := hmore
        exact stops_cons (by decide) _
    have hvalue := parseValue_spells hJ value inner stack fuel (right ++ (more ++ '\x7d' :: rest))
      hinner (by simp at hfuel; omega) (stops_blank hright hstops)
    have hskip : ∀ text, skipWhitespace (before ++ (literal ++ text)) = literal ++ text := by
      obtain ⟨pieces, -, rfl⟩ := hliteral
      intro text
      rw [skipWhitespace_blank hbefore, List.cons_append, skipWhitespace_cons (by decide)]
    simp only [List.append_assoc]
    rw [hskip, parseFields_member hliteral hname hafter, parseValue_blank hleft]
    by_cases hseen : name ∈ seen
    · rw [if_pos (List.contains_iff_mem.mpr hseen)]
      have htwice : ¬ (Unseen J seen ((literal, value) :: members) ∧
          NoDuplicatesInMembers J.parseLiteral ((literal, value) :: members)) :=
        fun hfine => ((unseen_cons hname).mp hfine.1).1 hseen
      exact ⟨fun h => absurd h.1 htwice, fun _ => ⟨_, rfl, .duplicate name htwice⟩⟩
    rw [if_neg (by simpa using hseen)]
    refine (hvalue.bind (Unseen J (name :: seen) members ∧
      NoDuplicatesInMembers J.parseLiteral members) (levelsOfMembers members ≤ stack) ?_).congr
      ?_ Nat.max_le
    · rw [skipWhitespace_blank hright]
      match members, hmore with
      | [], hmore =>
        rw [skipWhitespace_blank hmore, skipWhitespace_cons (by decide)]
        exact .done ⟨⟨⟨List.nodup_nil, fun _ _ => List.not_mem_nil⟩, trivial⟩, Nat.zero_le stack⟩
          rfl
      | (next, second) :: members, ⟨label', first, others, hnext, hlabel, hfirst, hothers, hsame⟩ =>
        subst hsame
        simp only [List.append_assoc, List.cons_append]
        exact parseFields_spells hJ next second members label' first others stack fuel rest
          (name :: seen) hnext hlabel hfirst hothers (by simp at hfuel; omega)
    · rw [unseen_cons hname]
      simp [NoDuplicatesInMembers, hseen, and_left_comm]
termination_by _ _ _ _ _ _ _ fuel => fuel

end

end Scan

/-- The scan of a whole text with white space around the document. -/
lemma reject_spells {J : Script} {isLiteral : List Char → Prop} (hJ : J.Reads isLiteral)
    {raw : String} {tree : Tree} (h : Padded (Spells isLiteral tree) raw.toList) (label : String) :
    Passes label (NoDuplicates J.parseLiteral tree) (tree.levels ≤ J.stack) ()
      (rejectDuplicateJSONKeys J raw label) := by
  obtain ⟨left, inner, right, hleft, hinner, hright, hraw⟩ := h
  have hlength : inner.length ≤ raw.toList.length + 1 := by
    rw [hraw]
    simp
    omega
  have hnil : Stops [] := nofun
  have hstops := stops_blank hright hnil
  rw [List.append_nil] at hstops
  have hscan : Passes label (NoDuplicates J.parseLiteral tree) (tree.levels ≤ J.stack) right
      (parseValue J label J.stack (raw.toList.length + 1) (inner ++ right)) :=
    parseValue_spells hJ tree inner _ _ right hinner hlength hstops
  have hend : skipWhitespace right = [] := by
    have hblank := skipWhitespace_blank hright []
    rwa [List.append_nil] at hblank
  unfold rejectDuplicateJSONKeys
  rw [hraw, parseValue_blank hleft, ← hraw]
  refine ⟨fun hfine => ?_, fun hnot => ?_⟩
  · rw [hscan.passed hfine]
    simp [hend, failIf]
  · obtain ⟨message, hmessage, hreports⟩ := hscan.reported hnot
    rw [hmessage]
    exact ⟨message, rfl, hreports⟩

/-- The scan of a text returns exactly when no object of the document has two members of one name
and the calls for the nested values fit on the stack; otherwise it throws the report of such a name,
or that the stack is used up.  So it throws exactly when there is a duplicate, unless a document
without duplicates is nested too deeply. -/
theorem rejectDuplicateJSONKeys_iff (J : Script) (hJ : J.Reads IsLiteral) (raw label : String)
    (tree : Tree) (h : Padded (Spells IsLiteral tree) raw.toList) :
    (rejectDuplicateJSONKeys J raw label = .ok () ↔
        NoDuplicates J.parseLiteral tree ∧ tree.levels ≤ J.stack) ∧
      (∀ message, rejectDuplicateJSONKeys J raw label = .error message →
        Reports label (NoDuplicates J.parseLiteral tree) (tree.levels ≤ J.stack) message) ∧
      (((∃ message, rejectDuplicateJSONKeys J raw label = .error message) ↔
          ¬ NoDuplicates J.parseLiteral tree) ↔
        ¬ NoDuplicates J.parseLiteral tree ∨ tree.levels ≤ J.stack) := by
  have hscan := reject_spells hJ h label
  by_cases hfine : NoDuplicates J.parseLiteral tree ∧ tree.levels ≤ J.stack
  · rw [hscan.passed hfine]
    exact ⟨⟨fun _ => hfine, fun _ => rfl⟩, nofun, by simp [hfine]⟩
  · obtain ⟨message, hmessage, hreports⟩ := hscan.reported hfine
    rw [hmessage]
    refine ⟨⟨nofun, fun h => absurd h hfine⟩, ?_, ?_⟩
    · rintro _ ⟨⟩
      exact hreports
    · simp only [Except.error.injEq, exists_eq', true_iff]
      tauto

/-! ## Nested arrays -/

/-- An engine that reads literals as they are meant and whose stack holds ten thousand calls. -/
def literalScript : Script where
  parse := fun _ => .error "no document"
  parseLiteral := fun literal => .ok (Json.readLiteral literal)
  stack := 10000
  text := fun _ => ""
  checksum := id

lemma reads_literalScript : literalScript.Reads IsLiteral := fun _ h => ⟨h, _, rfl⟩

/-- An object with two members of one name, one of them spelled with an escape, is reported. -/
theorem duplicate_reported : rejectDuplicateJSONKeys literalScript
      "\x7b\"a\":1, \"\\u0061\":[2]\x7d" "relay.json" ≠ .ok () := by
  have hpadded : ∀ {spells : List Char → Prop} {text : List Char}, spells text →
      Padded spells text := fun h => ⟨[], _, [], blank_nil, h, blank_nil, by simp⟩
  have hword : ∀ c, Json.isWordChar c = true → Spells IsLiteral (.word [c]) [c] := fun c hc =>
    ⟨⟨nofun, fun _ hmem => List.mem_singleton.mp hmem ▸ hc⟩, rfl⟩
  have hescaped : IsLiteral "\"\\u0061\"".toList := by
    refine ⟨["\\u0061".toList], fun piece hpiece => ?_, rfl⟩
    rw [List.mem_singleton.mp hpiece]
    have hdigits : ['0', '0', '6', '1'].all Char.isDigit = true := rfl
    exact .unicode _ _ _ _ fun x hx => .inl (List.all_eq_true.mp hdigits x hx)
  have hspells : Spells IsLiteral (.obj [("\"a\"".toList, .word ['1']),
      ("\"\\u0061\"".toList, .arr [.word ['2']])])
      "\x7b\"a\":1, \"\\u0061\":[2]\x7d".toList :=
    ⟨_, _, _, isLiteral_quote "a", hpadded rfl, hpadded (hword _ rfl),
      ⟨_, _, [], hescaped, ⟨[' '], _, [], Json.blank_space, rfl, blank_nil, rfl⟩,
        hpadded ⟨_, [], hpadded (hword _ rfl), blank_nil, rfl⟩, blank_nil, rfl⟩, rfl⟩
  intro hpassed
  have hnone := ((rejectDuplicateJSONKeys_iff literalScript reads_literalScript _ "relay.json" _
    (hpadded hspells)).1.mp hpassed).1.1
  revert hnone
  decide +kernel

/-- Arrays in arrays. -/
def nestedTree : Nat → Tree
  | 0 => .arr []
  | n + 1 => .arr [nestedTree n]

/-- The text of arrays in arrays. -/
def nestedText (n : Nat) : List Char := List.replicate (n + 1) '[' ++ List.replicate (n + 1) ']'

lemma spells_nested (n : Nat) : Spells IsLiteral (nestedTree n) (nestedText n) := by
  induction n with
  | zero => exact ⟨[], blank_nil, rfl⟩
  | succ n ih =>
    refine ⟨nestedText n, [], ⟨[], _, [], blank_nil, ih, blank_nil, by simp⟩, blank_nil, ?_⟩
    have hclose : List.replicate (n + 2) ']' = List.replicate (n + 1) ']' ++ [']'] :=
      List.replicate_succ'
    rw [nestedText, List.replicate_succ, hclose]
    simp [nestedText]

lemma levels_nested (n : Nat) : (nestedTree n).levels = n + 1 := by
  induction n with
  | zero => rfl
  | succ n ih => simp [nestedTree, Tree.levels, levelsOfItems, ih]

lemma noDuplicates_nested {α : Type} (decode : List Char → α) (n : Nat) :
    NoDuplicates decode (nestedTree n) := by
  induction n with
  | zero => trivial
  | succ n ih => exact ⟨ih, trivial⟩

/-- Twenty thousand arrays in each other are a document without duplicates that is small enough for
a sidecar, and the scan of it throws. -/
theorem deep_nesting_reported : ∃ raw tree, Padded (Spells IsLiteral tree) raw.toList ∧
      raw.utf8ByteSize ≤ maximumSidecarBytes ∧ NoDuplicates literalScript.parseLiteral tree ∧
      rejectDuplicateJSONKeys literalScript raw "relay.json" =
        .error "Maximum call stack size exceeded" := by
  have hspells : Padded (Spells IsLiteral (nestedTree 19999))
      (String.ofList (nestedText 19999)).toList := by
    rw [String.toList_ofList]
    exact ⟨[], _, [], blank_nil, spells_nested _, blank_nil, by simp⟩
  have hsize := Json.utf8ByteSize_ofList_le (nestedText 19999)
  rw [nestedText, List.length_append, List.length_replicate, List.length_replicate] at hsize
  have hfine := noDuplicates_nested literalScript.parseLiteral 19999
  refine ⟨_, nestedTree 19999, hspells, le_trans hsize (by decide), hfine, ?_⟩
  have hdeep : ¬ (nestedTree 19999).levels ≤ literalScript.stack := by
    rw [levels_nested]
    decide
  obtain ⟨message, hmessage, hreports⟩ :=
    (reject_spells reads_literalScript hspells "relay.json").reported fun h => hdeep h.2
  rw [hmessage]
  cases hreports with
  | duplicate name twice => exact absurd hfine twice
  | overflow deep => rfl

end AgentBell.Upgrade
