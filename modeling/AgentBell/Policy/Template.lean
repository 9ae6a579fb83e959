import AgentBell.Settings.Settings

/-!
# Templates

`Render` fills the placeholders of a template that `Template.Validate` accepts.  Both look for
placeholders with a pattern of their own: the check with any name, the rendering with the names of
the fields that may be shown.  The text of an accepted template splits into placeholders and other
characters in one way, and the rendering replaces the former and copies the latter.
-/

namespace AgentBell.Policy

open Json (GoString)
open Json.GoString (literal text size)
open M2 (Template isBlank matchPlaceholder scanPlaceholders placeholders doubles
  validatePlaceholders maximumTemplateBytes)

variable {name : String}

/-! ## Rendering -/

/-- The bound of a rendered text, in bytes. -/
def maximumOutputBytes : Nat := 16 * 1024

/-- What a template may show of a notification. -/
structure TemplateInput (S : Type) where
  sourceName : S
  event : S
  status : S
  project : S
  priority : S
  occurredAt : Time
  runtime : S
  surface : S
  deriving DecidableEq, Repr

/-- The names in the pattern of the rendering. -/
def templateNames : List String :=
  ["sourceName", "event", "status", "project", "priority", "occurredAt", "runtime", "surface"]

/-- What follows a name and the closing braces of a placeholder. -/
def afterName (inner : List Char) (name : String) : Option (List Char) :=
  if name.toList.isPrefixOf inner then
    match (inner.drop name.toList.length).dropWhile isBlank with
    | '\x7d' :: '\x7d' :: rest => some rest
    | _ => none
  else none

/-- The field a text starts with a placeholder of, and what follows it. -/
def matchTemplatePlaceholder : List Char → Option (String × List Char)
  | '\x7b' :: '\x7b' :: rest =>
    templateNames.findSome? fun name =>
      (afterName (rest.dropWhile isBlank) name).map fun rest => (name, rest)
  | _ => none

/-- Replace the placeholders of a text.  The fuel is the length of the text. -/
def replacePlaceholders (values : String → String) : Nat → List Char → List Char
  | 0, rest => rest
  | _ + 1, [] => []
  | fuel + 1, c :: rest =>
    match matchTemplatePlaceholder (c :: rest) with
    | some (name, rest) => (values name).toList ++ replacePlaceholders values fuel rest
    | none => c :: replacePlaceholders values fuel rest

section Render

variable {S : Type} [DecidableEq S] [GoString S]

/-- Whether a string is valid UTF-8, so that its text is the string itself. -/
def validString (value : S) : Bool := literal (text value) = value

/-- The values of the fields, by name.  How an instant is written is a parameter. -/
def TemplateInput.values (format : Time → String) (input : TemplateInput S) : List (String × S) :=
  [("sourceName", input.sourceName), ("event", input.event), ("status", input.status),
    ("project", input.project), ("priority", input.priority),
    ("occurredAt", literal (format input.occurredAt)), ("runtime", input.runtime),
    ("surface", input.surface)]

/-- The text of a field. -/
def TemplateInput.value (format : Time → String) (input : TemplateInput S) (name : String) :
    String :=
  (((input.values format).lookup name).map text).getD ""

/-- Check that the values of the fields are valid. -/
def validateValues : List (String × S) → Except String Unit
  | [] => .ok ()
  | (name, value) :: rest => do
    failIf (¬ validString value) ("template input " ++ name ++ " must be valid UTF-8")
    validateValues rest

/-- Fill the placeholders of a template. -/
def render (format : Time → String) (template : Template S) (input : TemplateInput S) :
    Except String String := do
  failIf (¬ validString template.body) "template must be valid UTF-8"
  failIf (maximumTemplateBytes < size template.body)
    ("template exceeds " ++ toString maximumTemplateBytes ++ " bytes")
  template.validate
  failIf input.occurredAt.isZero "template input occurredAt is required"
  validateValues (input.values format)
  let body := (text template.body).toList
  let rendered := String.ofList (replacePlaceholders (input.value format) body.length body)
  failIf (maximumOutputBytes < rendered.utf8ByteSize)
    ("rendered template exceeds " ++ toString maximumOutputBytes ++ " bytes")
  return rendered

/-- Render a text that is not stored. -/
def preview (format : Time → String) (body : S) (input : TemplateInput S) : Except String String :=
  render format ⟨literal "preview", body⟩ input

end Render

/-! ## The placeholders of a text -/

/-- A placeholder: a name between double braces, with blanks around it. -/
structure IsPlaceholder (raw name : List Char) : Prop where
  shape : ∃ before after : List Char, raw = '\x7b' :: '\x7b' :: (before ++ name ++ after ++
    ['\x7d', '\x7d']) ∧ (∀ c ∈ before, isBlank c = true) ∧ ∀ c ∈ after, isBlank c = true
  named : ∃ first more, name = first :: more ∧ first.isAlpha = true
  alphanumeric : ∀ c ∈ name, c.isAlphanum = true

/-- A part of the text of a template. -/
inductive Piece where
  | placeholder (raw name : List Char)
  | plain (c : Char)
  deriving DecidableEq, Repr

/-- A text is read from the left: a placeholder where one starts, and a character elsewhere. -/
inductive Splits : List Char → List Piece → Prop
  | nil : Splits [] []
  | placeholder {raw name rest : List Char} {pieces : List Piece} (h : IsPlaceholder raw name)
      (hrest : Splits rest pieces) : Splits (raw ++ rest) (.placeholder raw name :: pieces)
  | plain {c : Char} {rest : List Char} {pieces : List Piece}
      (h : ∀ raw name after, IsPlaceholder raw name → c :: rest ≠ raw ++ after)
      (hrest : Splits rest pieces) : Splits (c :: rest) (.plain c :: pieces)

/-- The name of a placeholder. -/
def Piece.name? : Piece → Option (List Char)
  | .placeholder _ name => some name
  | .plain _ => none

/-- A character that is not part of a placeholder. -/
def Piece.plain? : Piece → Option Char
  | .placeholder _ _ => none
  | .plain c => some c

/-- What a part becomes: the value of a field for a placeholder, and itself otherwise. -/
def Piece.filled (values : String → String) : Piece → List Char
  | .placeholder _ name => (values (String.ofList name)).toList
  | .plain c => [c]

section Match

variable {raw name rest inner before after body : List Char} {pieces : List Piece} {p : Char → Bool}
  {front back : List Char} {c : Char} {field : String} {fuel : Nat}

lemma dropWhile_append_of_head (hfront : ∀ c ∈ front, p c = true)
    (hback : ∀ c ∈ back.head?, p c = false) : (front ++ back).dropWhile p = back := by
  rw [List.dropWhile_append_of_pos hfront]
  cases back with
  | nil => rfl
  | cons c back => exact List.dropWhile_cons_of_neg (by rw [hback c rfl]; exact Bool.noConfusion)

lemma takeWhile_append_of_head (hfront : ∀ c ∈ front, p c = true)
    (hback : ∀ c ∈ back.head?, p c = false) : (front ++ back).takeWhile p = front := by
  rw [List.takeWhile_append_of_pos hfront]
  cases back with
  | nil => rw [List.takeWhile_nil, List.append_nil]
  | cons c back =>
    rw [List.takeWhile_cons_of_neg (by rw [hback c rfl]; exact Bool.noConfusion), List.append_nil]

lemma isBlank_false_of_isAlphanum (h : c.isAlphanum = true) : isBlank c = false := by
  rw [Bool.eq_false_iff]
  intro hblank
  simp only [isBlank, Bool.or_eq_true, decide_eq_true_eq] at hblank
  rcases hblank with (((rfl | rfl) | rfl) | rfl) | rfl <;> exact absurd h (by decide)

lemma isAlphanum_false_of_isBlank (h : isBlank c = true) : c.isAlphanum = false := by
  rw [Bool.eq_false_iff]
  intro halpha
  rw [isBlank_false_of_isAlphanum halpha] at h
  cases h

/-- Blanks and closing braces do not start with a letter or digit. -/
lemma head_closing (hafter : ∀ c ∈ after, isBlank c = true) :
    ∀ c ∈ (after ++ '\x7d' :: '\x7d' :: rest).head?, c.isAlphanum = false := by
  intro c hc
  cases after with
  | nil =>
    cases hc
    decide
  | cons first after =>
    cases hc
    exact isAlphanum_false_of_isBlank (hafter _ List.mem_cons_self)

/-- What follows the opening braces of a placeholder and the blanks after them. -/
lemma inner_eq (hbefore : ∀ c ∈ before, isBlank c = true) (hname : name ≠ [])
    (halphanum : ∀ c ∈ name, c.isAlphanum = true) :
    (before ++ name ++ after).dropWhile isBlank = name ++ after := by
  rw [List.append_assoc]
  refine dropWhile_append_of_head hbefore fun c hc => ?_
  obtain ⟨first, more, rfl⟩ := List.exists_cons_of_ne_nil hname
  cases hc
  exact isBlank_false_of_isAlphanum (halphanum _ List.mem_cons_self)

/-- The pattern of the check finds the placeholder a text starts with. -/
lemma matchPlaceholder_eq_some_iff : matchPlaceholder body = some (name, rest) ↔
      ∃ raw, body = raw ++ rest ∧ IsPlaceholder raw name := by
  constructor
  · intro h
    unfold matchPlaceholder at h
    split at h
    · rename_i text
      dsimp only at h
      split at h
      · rename_i first after hfirst hafter
        split at h
        · rename_i halpha
          cases h
          have hinner : text.dropWhile isBlank =
              (text.dropWhile isBlank).takeWhile Char.isAlphanum ++
                (((text.dropWhile isBlank).dropWhile Char.isAlphanum).takeWhile isBlank ++
                  '\x7d' :: '\x7d' :: rest) := by
            rw [← hafter, List.takeWhile_append_dropWhile, List.takeWhile_append_dropWhile]
          refine ⟨_, ?_, ⟨text.takeWhile isBlank,
            ((text.dropWhile isBlank).dropWhile Char.isAlphanum).takeWhile isBlank, rfl,
            fun c hc => List.all_eq_true.mp List.all_takeWhile c hc,
            fun c hc => List.all_eq_true.mp List.all_takeWhile c hc⟩, ?_,
            fun c hc => List.all_eq_true.mp List.all_takeWhile c hc⟩
          · rw [List.cons_append, List.cons_append, List.append_assoc, List.append_assoc,
              List.append_assoc]
            rw [show ['\x7d', '\x7d'] ++ rest = '\x7d' :: '\x7d' :: rest from rfl, ← hinner,
              List.takeWhile_append_dropWhile]
          · obtain ⟨more, hmore⟩ : ∃ more, text.dropWhile isBlank = first :: more := by
              cases hlist : text.dropWhile isBlank with
              | nil =>
                rw [hlist] at hfirst
                cases hfirst
              | cons c more =>
                rw [hlist] at hfirst
                cases hfirst
                exact ⟨more, rfl⟩
            have hfirstAlphanum : first.isAlphanum = true := by
              rw [Char.isAlphanum, halpha, Bool.true_or]
            exact ⟨first, more.takeWhile Char.isAlphanum, by
              rw [hmore, List.takeWhile_cons_of_pos hfirstAlphanum], halpha⟩
        · cases h
      · cases h
    · cases h
  · rintro ⟨raw, rfl, ⟨before, after, rfl, hbefore, hafter⟩, ⟨first, more, rfl, hfirst⟩, hname⟩
    have hinner :
        (before ++ first :: more ++ (after ++ '\x7d' :: '\x7d' :: rest)).dropWhile isBlank =
          first :: more ++ (after ++ '\x7d' :: '\x7d' :: rest) :=
      inner_eq hbefore (List.cons_ne_nil first more) hname
    have hdrop : (first :: more ++ (after ++ '\x7d' :: '\x7d' :: rest)).dropWhile Char.isAlphanum =
        after ++ '\x7d' :: '\x7d' :: rest :=
      dropWhile_append_of_head hname (head_closing hafter)
    have htake : (first :: more ++ (after ++ '\x7d' :: '\x7d' :: rest)).takeWhile Char.isAlphanum =
        first :: more :=
      takeWhile_append_of_head hname (head_closing hafter)
    have hblank : (after ++ '\x7d' :: '\x7d' :: rest).dropWhile isBlank =
        '\x7d' :: '\x7d' :: rest := by
      refine dropWhile_append_of_head hafter fun c hc => ?_
      cases hc
      decide
    simp only [List.cons_append, List.append_assoc, List.nil_append] at hinner hdrop htake ⊢
    simp only [matchPlaceholder, hinner, hdrop, htake, hblank, List.head?_cons, hfirst, if_true]

/-- Every name in the pattern of the rendering is one the pattern of the check finds. -/
lemma templateNames_named : ∀ field ∈ templateNames,
    (∃ first more, field.toList = first :: more ∧ first.isAlpha = true) ∧
      ∀ c ∈ field.toList, c.isAlphanum = true := by
  have hall : templateNames.all (fun field => field.toList.head?.any Char.isAlpha &&
      field.toList.all Char.isAlphanum) = true := by
    decide +kernel
  intro field hfield
  obtain ⟨hhead, halphanum⟩ := Bool.and_eq_true_iff.mp (List.all_eq_true.mp hall field hfield)
  refine ⟨?_, List.all_eq_true.mp halphanum⟩
  cases hlist : field.toList with
  | nil =>
    rw [hlist] at hhead
    cases hhead
  | cons first more =>
    rw [hlist] at hhead
    exact ⟨first, more, rfl, hhead⟩

lemma afterName_eq_some_iff :
    afterName inner field = some rest ↔ ∃ after, (∀ c ∈ after, isBlank c = true) ∧
      inner = field.toList ++ (after ++ '\x7d' :: '\x7d' :: rest) := by
  unfold afterName
  constructor
  · intro h
    split at h
    · rename_i hprefix
      obtain ⟨others, rfl⟩ := List.isPrefixOf_iff_prefix.mp hprefix
      rw [List.drop_left] at h
      split at h
      · rename_i found hfound
        cases h
        refine ⟨others.takeWhile isBlank,
          fun c hc => List.all_eq_true.mp List.all_takeWhile c hc, ?_⟩
        rw [← hfound, List.takeWhile_append_dropWhile]
      · cases h
    · cases h
  · rintro ⟨after, hafter, rfl⟩
    have hblank : (after ++ '\x7d' :: '\x7d' :: rest).dropWhile isBlank =
        '\x7d' :: '\x7d' :: rest := by
      refine dropWhile_append_of_head hafter fun c hc => ?_
      cases hc
      decide
    simp only [if_pos (List.isPrefixOf_iff_prefix.mpr (List.prefix_append _ _)), List.drop_left,
      hblank]

/-- What the pattern of the rendering finds, that of the check finds as well. -/
lemma matchPlaceholder_of_template (h : matchTemplatePlaceholder body = some (field, rest)) :
    field ∈ templateNames ∧ matchPlaceholder body = some (field.toList, rest) := by
  unfold matchTemplatePlaceholder at h
  split at h
  · rename_i text
    obtain ⟨found, hfound, hafter⟩ := List.exists_of_findSome?_eq_some h
    obtain ⟨others, hothers, hpair⟩ := Option.map_eq_some_iff.mp hafter
    cases hpair
    obtain ⟨after, hblanks, hinner⟩ := afterName_eq_some_iff.mp hothers
    obtain ⟨hnamed, halphanum⟩ := templateNames_named field hfound
    refine ⟨hfound, matchPlaceholder_eq_some_iff.mpr ⟨_, ?_, ⟨text.takeWhile isBlank, after, rfl,
      fun c hc => List.all_eq_true.mp List.all_takeWhile c hc, hblanks⟩, hnamed, halphanum⟩⟩
    rw [List.cons_append, List.cons_append, List.append_assoc, List.append_assoc,
      List.append_assoc, show ['\x7d', '\x7d'] ++ rest = '\x7d' :: '\x7d' :: rest from rfl,
      ← hinner, List.takeWhile_append_dropWhile]
  · cases h

/-- The two patterns agree on the names of fields. -/
lemma matchTemplatePlaceholder_of_known (hfield : field ∈ templateNames)
    (h : matchPlaceholder body = some (field.toList, rest)) :
    matchTemplatePlaceholder body = some (field, rest) := by
  cases hfound : matchTemplatePlaceholder body with
  | some found =>
    obtain ⟨other, others⟩ := found
    obtain ⟨-, hother⟩ := matchPlaceholder_of_template hfound
    obtain ⟨hname, hrest⟩ := Prod.mk.inj (Option.mem_unique hother h)
    rw [String.toList_inj.mp hname, hrest]
  | none =>
    obtain ⟨raw, rfl, ⟨before, after, rfl, hbefore, hafter⟩, ⟨first, more, hname, -⟩, halphanum⟩ :=
      matchPlaceholder_eq_some_iff.mp h
    have hinner :
        (before ++ field.toList ++ (after ++ '\x7d' :: '\x7d' :: rest)).dropWhile isBlank =
          field.toList ++ (after ++ '\x7d' :: '\x7d' :: rest) :=
      inner_eq hbefore (by rw [hname]; exact List.cons_ne_nil _ _) halphanum
    simp only [List.cons_append, List.append_assoc, List.nil_append] at hinner hfound
    simp only [matchTemplatePlaceholder, hinner, List.findSome?_eq_none_iff] at hfound
    have hnone := hfound field hfield
    rw [afterName_eq_some_iff.mpr ⟨after, hafter, rfl⟩] at hnone
    cases hnone

/-- A placeholder is not empty. -/
lemma length_rest_lt (h : matchPlaceholder (c :: body) = some (name, rest)) :
    rest.length ≤ body.length := by
  obtain ⟨raw, hbody, ⟨before, after, rfl, -⟩, -⟩ := matchPlaceholder_eq_some_iff.mp h
  have hlength := congrArg List.length hbody
  simp only [List.length_cons, List.length_append] at hlength
  omega

/-- The check reads a text as placeholders and other characters. -/
lemma exists_splits (hfuel : body.length ≤ fuel) :
    ∃ pieces, Splits body pieces ∧ scanPlaceholders fuel body =
      (pieces.filterMap Piece.name?, pieces.filterMap Piece.plain?) := by
  induction fuel generalizing body with
  | zero =>
    cases List.eq_nil_of_length_eq_zero (Nat.le_zero.mp hfuel)
    exact ⟨[], .nil, rfl⟩
  | succ fuel ih =>
    cases body with
    | nil => exact ⟨[], .nil, rfl⟩
    | cons c body =>
      have hbody : body.length ≤ fuel := Nat.le_of_succ_le_succ hfuel
      cases hmatch : matchPlaceholder (c :: body) with
      | none =>
        obtain ⟨pieces, hsplits, hscan⟩ := ih hbody
        refine ⟨.plain c :: pieces, .plain ?_ hsplits, ?_⟩
        · intro raw name after hplaceholder hraw
          rw [matchPlaceholder_eq_some_iff.mpr ⟨raw, hraw, hplaceholder⟩] at hmatch
          cases hmatch
        · rw [scanPlaceholders, hmatch]
          rw [hscan]
          rfl
      | some found =>
        obtain ⟨name, rest⟩ := found
        obtain ⟨pieces, hsplits, hscan⟩ := ih ((length_rest_lt hmatch).trans hbody)
        obtain ⟨raw, hraw, hplaceholder⟩ := matchPlaceholder_eq_some_iff.mp hmatch
        refine ⟨.placeholder raw name :: pieces, ?_, ?_⟩
        · rw [hraw]
          exact .placeholder hplaceholder hsplits
        · rw [scanPlaceholders, hmatch]
          dsimp only
          rw [hscan]
          rfl

/-- The rendering fills the placeholders the check finds when they name fields. -/
lemma replacePlaceholders_eq {values : String → String} (hsplits : Splits body pieces)
    (hknown : ∀ name ∈ pieces.filterMap Piece.name?, String.ofList name ∈ templateNames)
    (hfuel : body.length ≤ fuel) :
    replacePlaceholders values fuel body = pieces.flatMap (Piece.filled values) := by
  induction hsplits generalizing fuel with
  | nil => cases fuel <;> rfl
  | @placeholder raw name rest pieces hplaceholder hrest ih =>
    have hname : String.ofList name ∈ templateNames := hknown name List.mem_cons_self
    have hmatch : matchTemplatePlaceholder (raw ++ rest) = some (String.ofList name, rest) := by
      refine matchTemplatePlaceholder_of_known hname ?_
      rw [String.toList_ofList]
      exact matchPlaceholder_eq_some_iff.mpr ⟨raw, rfl, hplaceholder⟩
    have hrestKnown : ∀ name ∈ pieces.filterMap Piece.name?, String.ofList name ∈ templateNames :=
      fun other hother => hknown other (List.mem_cons_of_mem _ hother)
    obtain ⟨before, after, rfl, -⟩ := hplaceholder.shape
    cases fuel with
    | zero => cases hfuel
    | succ fuel =>
      have hlength : rest.length ≤ fuel := by
        simp only [List.length_append, List.length_cons] at hfuel
        omega
      rw [List.flatMap_cons, ← ih hrestKnown hlength, List.cons_append, replacePlaceholders,
        ← List.cons_append, hmatch]
      rfl
  | @plain c rest pieces hplain hrest ih =>
    have hmatch : matchTemplatePlaceholder (c :: rest) = none := by
      cases hfound : matchTemplatePlaceholder (c :: rest) with
      | none => rfl
      | some found =>
        obtain ⟨-, hother⟩ := matchPlaceholder_of_template hfound
        obtain ⟨raw, hraw, hplaceholder⟩ := matchPlaceholder_eq_some_iff.mp hother
        exact absurd hraw (hplain raw _ _ hplaceholder)
    cases fuel with
    | zero => cases hfuel
    | succ fuel =>
      rw [List.flatMap_cons, ← ih hknown (Nat.le_of_succ_le_succ hfuel), replacePlaceholders,
        hmatch]
      rfl

/-- Two braces in a row are seen. -/
lemma doubles_append {brace : Char} (front back : List Char) :
    doubles brace (front ++ brace :: brace :: back) = true := by
  induction front with
  | nil => simp [doubles]
  | cons c front ih =>
    cases front with
    | nil => simp [doubles]
    | cons d front =>
      rw [List.cons_append, List.cons_append, doubles, ← List.cons_append, ih, Bool.or_true]

end Match

/-! ## What is rendered -/

/-- How a template is rendered: the parts of its text, which of them the check found, and what they
become. -/
structure Rendering {S : Type} [DecidableEq S] [GoString S] (template : Template S)
    (pieces : List Piece) : Prop where
  splits : Splits (text template.body).toList pieces
  found : placeholders (text template.body).toList =
    (pieces.filterMap Piece.name?, pieces.filterMap Piece.plain?)
  known : ∀ name ∈ pieces.filterMap Piece.name?, String.ofList name ∈ templateNames
  apart : ∀ front back brace, brace = '\x7b' ∨ brace = '\x7d' →
    pieces ≠ front ++ .plain brace :: .plain brace :: back
  valued : ∀ (format : Time → String) (input : TemplateInput S),
    ∀ name ∈ pieces.filterMap Piece.name?, ∃ value,
      (String.ofList name, value) ∈ input.values format ∧
        input.value format (String.ofList name) = text value
  rendered : ∀ (format : Time → String) (input : TemplateInput S) (output : String),
    render format template input = .ok output ↔
      validString template.body = true ∧ input.occurredAt ≠ 0 ∧
      (∀ field ∈ input.values format, validString field.2 = true) ∧
      output = String.ofList (pieces.flatMap (Piece.filled (input.value format))) ∧
      output.utf8ByteSize ≤ maximumOutputBytes

/-- A name of a list of values has the first value listed for it. -/
lemma exists_lookup {α : Type} {fields : List (String × α)} (h : name ∈ fields.map Prod.fst) :
    ∃ value, fields.lookup name = some value ∧ (name, value) ∈ fields := by
  induction fields with
  | nil => cases h
  | cons field fields ih =>
    obtain ⟨other, value⟩ := field
    by_cases hname : name = other
    · subst hname
      exact ⟨value, List.lookup_cons_self, List.mem_cons_self⟩
    · obtain ⟨found, hfound, hmem⟩ := ih ((List.mem_cons.mp h).resolve_left hname)
      refine ⟨found, ?_, List.mem_cons_of_mem _ hmem⟩
      rw [List.lookup_cons, beq_eq_false_iff_ne.mpr hname]
      exact hfound

/-- The names in the pattern of the rendering have values. -/
lemma TemplateInput.exists_value {S : Type} [GoString S] (format : Time → String)
    (input : TemplateInput S) (hname : name ∈ templateNames) :
    ∃ value, (name, value) ∈ input.values format ∧ input.value format name = text value := by
  have hnames : name ∈ (input.values format).map Prod.fst := hname
  obtain ⟨value, hlookup, hmem⟩ := exists_lookup hnames
  refine ⟨value, hmem, ?_⟩
  rw [TemplateInput.value, hlookup]
  rfl

section Rendered

variable {S : Type} [DecidableEq S] [GoString S] {template : Template S}

lemma validateValues_eq_ok_iff {fields : List (String × S)} :
    validateValues fields = .ok () ↔ ∀ field ∈ fields, validString field.2 = true := by
  induction fields with
  | nil => exact ⟨fun _ field hfield => (nomatch hfield), fun _ => rfl⟩
  | cons field fields ih =>
    simp only [validateValues, bind_eq_ok, failIf_eq_ok, not_not, exists_const, ih,
      List.forall_mem_cons]

/-- The placeholders of an accepted template name fields, and the rest has no double braces. -/
lemma placeholders_of_validate (h : template.validate = .ok ()) :
    size template.body ≤ maximumTemplateBytes ∧
      (∀ name ∈ (placeholders (text template.body).toList).1, String.ofList name ∈ templateNames) ∧
      ∀ brace, brace = '\x7b' ∨ brace = '\x7d' →
        doubles brace (placeholders (text template.body).toList).2 = false := by
  simp only [Template.validate, bind_eq_ok, failIf_eq_ok, validatePlaceholders] at h
  obtain ⟨_, -, _, -, _, hsize, h⟩ := h
  refine ⟨Nat.not_lt.mp hsize, ?_⟩
  split at h
  · cases h
  · rename_i hnone
    rw [failIf_eq_ok, not_or] at h
    refine ⟨fun name hname => ?_, ?_⟩
    · have hfiltered := List.getLast?_eq_none_iff.mp hnone
      have hall := List.filter_eq_nil_iff.mp hfiltered name hname
      rw [decide_eq_true_eq, not_not] at hall
      exact List.contains_iff_mem.mp hall
    · rintro brace (rfl | rfl)
      · exact Bool.eq_false_iff.mpr h.1
      · exact Bool.eq_false_iff.mpr h.2

/-- The rendering of an accepted template replaces the placeholders that the check found, each with
the value of a field, and copies every other character; a double brace is never copied. -/
theorem rendering_of_validate (h : template.validate = .ok ()) :
    ∃ pieces, Rendering template pieces := by
  obtain ⟨hsize, hknown, hdoubles⟩ := placeholders_of_validate h
  obtain ⟨pieces, hsplits, hfound⟩ : ∃ pieces, Splits (text template.body).toList pieces ∧
      placeholders (text template.body).toList =
        (pieces.filterMap Piece.name?, pieces.filterMap Piece.plain?) :=
    exists_splits (le_refl _)
  rw [hfound] at hknown hdoubles
  dsimp only at hknown hdoubles
  refine ⟨pieces, hsplits, hfound, hknown, ?_, ?_, ?_⟩
  · rintro front back brace hbrace rfl
    have hdouble := hdoubles brace hbrace
    rw [List.filterMap_append] at hdouble
    have htrue : doubles brace (front.filterMap Piece.plain? ++
        (Piece.plain brace :: Piece.plain brace :: back).filterMap Piece.plain?) = true :=
      doubles_append _ _
    rw [htrue] at hdouble
    cases hdouble
  · intro format input name hname
    exact input.exists_value format (hknown name hname)
  · intro format input output
    simp only [render, h, bind_eq_ok, failIf_eq_ok, not_not, exists_const,
      replacePlaceholders_eq hsplits hknown (le_refl _), pure, Except.pure, Except.ok.injEq,
      Nat.not_lt, Time.isZero, decide_eq_true_eq, hsize, true_and]
    constructor
    · rintro ⟨hvalid, htime, _, hvalues, hsmall, rfl⟩
      exact ⟨hvalid, htime, validateValues_eq_ok_iff.mp hvalues, rfl, hsmall⟩
    · rintro ⟨hvalid, htime, hvalues, rfl, hsmall⟩
      exact ⟨hvalid, htime, (), validateValues_eq_ok_iff.mpr hvalues, hsmall, rfl⟩

end Rendered

/-- A template that has a brace before a placeholder. -/
def bracedTemplate : Template String :=
  ⟨"braced", "\x7b\x7b\x7bevent\x7d\x7d in \x7b\x7b project \x7d\x7d"⟩

theorem bracedTemplate_rendering : ∃ pieces, Rendering bracedTemplate pieces :=
  rendering_of_validate (by decide +kernel)

/-- A value that looks like a placeholder is copied as it is. -/
example : render (fun _ => "") bracedTemplate
    ⟨"", "\x7b\x7bstatus\x7d\x7d", "done", "shop", "", 1, "", ""⟩ =
      .ok "\x7b\x7b\x7bstatus\x7d\x7d in shop" := by
  decide +kernel

end AgentBell.Policy
