import AgentBell.Event
import AgentBell.Upgrade.Files
import AgentBell.Upgrade.SidecarAcceptance

/-!
# The active state as the bridge reads it

The bridge decodes `active.json` and checks it before it locates the Core.  A field that is absent
is an empty text to it.  Its versions are those of the bootstrap in which no numeric identifier of
the prerelease has a leading zero.
-/

namespace AgentBell.Installstate

open Upgrade (leadingNumber withoutDot isPlainNumber isVersion optionalPart isIdentifiers)

open RemoteConfig (isVersionChar)

open Relay (isLowerHex)

/-! ## Versions -/

/-- Whether a text matches `baseVersionPattern`. -/
def isBaseVersion (text : List Char) : Bool :=
  (do
    let (major, rest) ← leadingNumber text
    let (minor, rest) ← leadingNumber (← withoutDot rest)
    let (patch, rest) ← leadingNumber (← withoutDot rest)
    if isPlainNumber major ∧ isPlainNumber minor ∧ isPlainNumber patch ∧ rest = [] then some ()
    else none).isSome

/-- The characters of an identifier. -/
def isIdentifierChar (c : Char) : Bool := c.isAlphanum || c = '-'

/-- Whether a text matches `identifierPattern`. -/
def isIdentifier (text : List Char) : Bool := text ≠ [] && text.all isIdentifierChar

/-- Whether an identifier is a number with a leading zero. -/
def isPadded (identifier : List Char) : Bool :=
  identifier.all Char.isDigit && 1 < identifier.length && identifier.head? = some '0'

/-- The part of a version before the first hyphen. -/
def baseOf (text : String) : List Char := text.toList.takeWhile fun c => c ≠ '-'

/-- The part of a version after the first hyphen, if there is one. -/
def prereleaseOf (text : String) : Option (List Char) :=
  (text.toList.dropWhile fun c => c ≠ '-').tail?

/-- The identifiers of a prerelease. -/
def identifiersOf (prerelease : List Char) : List (List Char) :=
  prerelease.splitOnP fun c => c = '.'

/-- Whether a text is a version of AgentBell. -/
def validVersion (value : String) : Bool :=
  isBaseVersion (baseOf value) &&
    match prereleaseOf value with
    | none => true
    | some prerelease => prerelease ≠ [] &&
        (identifiersOf prerelease).all fun identifier =>
          isIdentifier identifier && !isPadded identifier

/-- Whether a numeric identifier of the prerelease of a version has a leading zero. -/
def hasPaddedNumber (value : String) : Bool :=
  (prereleaseOf value).any fun prerelease => (identifiersOf prerelease).any isPadded

/-! ## The active state -/

/-- The schema version of the active state. -/
def schemaVersion : Int := 1

/-- The platforms there are releases for. -/
def allowedTargets : List String :=
  ["windows-amd64", "windows-arm64", "darwin-amd64", "darwin-arm64", "linux-amd64", "linux-arm64"]

/-- Whether a text matches `transactionPattern`. -/
def isTransactionID (text : String) : Bool :=
  match text.toList with
  | [] => false
  | first :: rest => first.isAlphanum && rest.length ≤ 127 &&
      rest.all fun c => c.isAlphanum || c = '.' || c = '_' || c = '-'

/-- The active state as it is decoded. -/
structure ActiveState where
  schemaVersion : Int
  generation : Nat
  activeVersion : String
  previousVersion : String
  serviceVersion : String
  target : String
  checksum : String
  serviceChecksum : String
  bridgeChecksum : String
  serviceBridgeChecksum : String
  transactionID : String
  deriving DecidableEq, Repr

/-- The check of the version before the active one. -/
def validatePrevious (state : ActiveState) : Except String Unit :=
  if state.previousVersion = "" then .ok ()
  else do
    failIf (¬ validVersion state.previousVersion)
      "previousVersion must be a valid AgentBell semantic version"
    failIf (state.previousVersion = state.activeVersion)
      "previousVersion must differ from activeVersion"

/-- The check of the version the service runs from. -/
def validateService (state : ActiveState) : Except String Unit :=
  if state.serviceVersion = "" then .ok ()
  else do
    failIf (¬ validVersion state.serviceVersion)
      "serviceVersion must be a valid AgentBell semantic version"
    failIf (¬ isLowerHex 64 state.serviceChecksum)
      "serviceChecksum must be a lowercase SHA-256 digest"

/-- The check of an active state. -/
def ActiveState.validate (state : ActiveState) : Except String Unit := do
  failIf (state.schemaVersion ≠ Installstate.schemaVersion)
    ("unsupported active-state schema version " ++ toString state.schemaVersion)
  failIf (state.generation = 0) "active-state generation must be greater than zero"
  failIf (¬ validVersion state.activeVersion)
    "activeVersion must be a valid AgentBell semantic version"
  validatePrevious state
  failIf (¬ (state.serviceVersion = "" ↔ state.serviceChecksum = ""))
    "serviceVersion and serviceChecksum must be set together"
  validateService state
  failIf (¬ allowedTargets.contains state.target)
    ("unsupported active-state target " ++ quoted state.target)
  failIf (¬ isLowerHex 64 state.checksum)
    "active-state checksum must be a lowercase SHA-256 digest"
  failIf (¬ isLowerHex 64 state.bridgeChecksum)
    "active-state bridgeChecksum must be a lowercase SHA-256 digest"
  failIf (state.serviceBridgeChecksum ≠ "" ∧ ¬ isLowerHex 64 state.serviceBridgeChecksum)
    "active-state serviceBridgeChecksum must be a lowercase SHA-256 digest"
  failIf (¬ isTransactionID state.transactionID)
    "active-state transactionId contains unsupported characters"

/-- What the bridge decodes from a document of the bootstrap. -/
def decode (state : Upgrade.ActiveState) : ActiveState where
  schemaVersion := 1
  generation := state.generation
  activeVersion := state.activeVersion
  previousVersion := state.previousVersion.getD ""
  serviceVersion := state.serviceVersion.getD ""
  target := state.target
  checksum := state.checksum
  serviceChecksum := state.serviceChecksum.getD ""
  bridgeChecksum := state.bridgeChecksum
  serviceBridgeChecksum := state.serviceBridgeChecksum.getD ""
  transactionID := state.transactionID

/-- Whether the bridge accepts a document of the bootstrap. -/
def Accepts (state : Upgrade.ActiveState) : Prop := (decode state).validate = .ok ()

/-! ## The two grammars of versions -/

/-- A number without a leading zero. -/
structure PlainNumber (digits : List Char) : Prop where
  ne_nil : digits ≠ []
  isDigit : ∀ c ∈ digits, c.isDigit = true
  plain : isPlainNumber digits = true

/-- Three numbers with dots between them. -/
def IsBase (base : List Char) : Prop :=
  ∃ major minor patch, PlainNumber major ∧ PlainNumber minor ∧ PlainNumber patch ∧
    base = major ++ '.' :: (minor ++ '.' :: patch)

/-- What a leading number is. -/
lemma leadingNumber_iff {text number rest : List Char} : leadingNumber text = some (number, rest) ↔
      text = number ++ rest ∧ number ≠ [] ∧ (∀ c ∈ number, c.isDigit = true) ∧
        ∀ c, rest.head? = some c → c.isDigit = false := by
  constructor
  · intro h
    obtain ⟨htext, hdigits⟩ := Upgrade.leadingNumber_eq_some h
    unfold leadingNumber at h
    split at h
    · cases h
    · rename_i hne
      obtain ⟨rfl, rfl⟩ := Prod.mk.inj (Option.some.inj h)
      refine ⟨htext, hne, hdigits, fun c hc => ?_⟩
      have hhead := List.head?_dropWhile_not Char.isDigit text
      rw [hc] at hhead
      simpa using hhead
  · rintro ⟨rfl, hne, hdigits, hrest⟩
    have hstop : rest.takeWhile Char.isDigit = [] ∧ rest.dropWhile Char.isDigit = rest := by
      cases rest with
      | nil => exact ⟨rfl, rfl⟩
      | cons c rest =>
        have hc := hrest c rfl
        simp [hc]
    have htake : (number ++ rest).takeWhile Char.isDigit = number := by
      rw [List.takeWhile_append_of_pos hdigits, hstop.1, List.append_nil]
    have hdrop : (number ++ rest).dropWhile Char.isDigit = rest := by
      rw [List.dropWhile_append_of_pos hdigits, hstop.2]
    unfold leadingNumber
    rw [htake, hdrop, if_neg hne]

/-- The three numbers a text starts with, as both sides match them. -/
def StartsWithNumbers (text tail : List Char) : Prop :=
  ∃ major r1 r2 minor r3 r4 patch, leadingNumber text = some (major, r1) ∧
    withoutDot r1 = some r2 ∧ leadingNumber r2 = some (minor, r3) ∧ withoutDot r3 = some r4 ∧
    leadingNumber r4 = some (patch, tail) ∧ isPlainNumber major = true ∧
    isPlainNumber minor = true ∧ isPlainNumber patch = true

lemma startsWithNumbers_iff {text tail : List Char} : StartsWithNumbers text tail ↔
    ∃ base, IsBase base ∧ text = base ++ tail ∧ ∀ c, tail.head? = some c → c.isDigit = false := by
  constructor
  · rintro ⟨major, r1, r2, minor, r3, r4, patch, h1, h2, h3, h4, h5, p1, p2, p3⟩
    obtain ⟨rfl, hne1, hd1, -⟩ := leadingNumber_iff.mp h1
    obtain rfl := Upgrade.withoutDot_eq_some h2
    obtain ⟨rfl, hne2, hd2, -⟩ := leadingNumber_iff.mp h3
    obtain rfl := Upgrade.withoutDot_eq_some h4
    obtain ⟨rfl, hne3, hd3, htail⟩ := leadingNumber_iff.mp h5
    exact ⟨_, ⟨major, minor, patch, ⟨hne1, hd1, p1⟩, ⟨hne2, hd2, p2⟩, ⟨hne3, hd3, p3⟩, rfl⟩,
      by simp, htail⟩
  · rintro ⟨_, ⟨major, minor, patch, hmajor, hminor, hpatch, rfl⟩, rfl, htail⟩
    have hdot : ∀ rest : List Char, ∀ c, ('.' :: rest).head? = some c → c.isDigit = false := by
      rintro rest c ⟨⟩
      decide
    refine ⟨major, '.' :: (minor ++ '.' :: (patch ++ tail)), _, minor, '.' :: (patch ++ tail), _,
      patch, ?_, rfl, ?_, rfl, ?_, hmajor.plain, hminor.plain, hpatch.plain⟩
    · exact leadingNumber_iff.mpr ⟨by simp, hmajor.ne_nil, hmajor.isDigit, hdot _⟩
    · exact leadingNumber_iff.mpr ⟨rfl, hminor.ne_nil, hminor.isDigit, hdot _⟩
    · exact leadingNumber_iff.mpr ⟨rfl, hpatch.ne_nil, hpatch.isDigit, htail⟩

lemma isBaseVersion_iff {base : List Char} : isBaseVersion base = true ↔ IsBase base := by
  have hmatch : isBaseVersion base = true ↔ StartsWithNumbers base [] := by
    simp only [isBaseVersion, Option.isSome_iff_exists, Option.bind_eq_bind,
      Option.bind_eq_some_iff, Prod.exists, Option.ite_none_right_eq_some]
    constructor
    · rintro ⟨-, major, r1, h1, r2, h2, minor, r3, h3, r4, h4, patch, tail, h5,
        ⟨p1, p2, p3, rfl⟩, -⟩
      exact ⟨major, r1, r2, minor, r3, r4, patch, h1, h2, h3, h4, h5, p1, p2, p3⟩
    · rintro ⟨major, r1, r2, minor, r3, r4, patch, h1, h2, h3, h4, h5, p1, p2, p3⟩
      exact ⟨(), major, r1, h1, r2, h2, minor, r3, h3, r4, h4, patch, [], h5,
        ⟨p1, p2, p3, rfl⟩, trivial⟩
  rw [hmatch, startsWithNumbers_iff]
  constructor
  · rintro ⟨base, hbase, rfl, -⟩
    rwa [List.append_nil]
  · exact fun hbase => ⟨base, hbase, (List.append_nil base).symm, nofun⟩

/-- What may follow the numbers of a version of the bootstrap. -/
def IsTail (tail : List Char) : Prop :=
  tail = [] ∨ ∃ prerelease, tail = '-' :: prerelease ∧
    (∀ c ∈ prerelease, isVersionChar c = true) ∧ isIdentifiers prerelease = true

lemma optionalPart_iff {tail : List Char} :
    (∃ part, optionalPart '-' tail = some (part, [])) ↔ IsTail tail := by
  cases tail with
  | nil => simp [optionalPart, IsTail]
  | cons c rest =>
    constructor
    · rintro ⟨part, h⟩
      simp only [optionalPart] at h
      split at h
      · rename_i hc
        split at h
        · rename_i hident
          have hdrop := (Prod.mk.inj (Option.some.inj h)).2
          have hall := List.dropWhile_eq_nil_iff.mp hdrop
          rw [List.takeWhile_eq_self_iff.mpr hall] at hident
          exact .inr ⟨rest, by rw [hc], hall, hident⟩
        · cases h
      · cases h
    · rintro (h | ⟨prerelease, h, hall, hident⟩)
      · cases h
      · obtain ⟨rfl, rfl⟩ := List.cons.inj h
        have hpart := Upgrade.optionalPart_mark '-' [] hall rfl
        rw [List.append_nil, if_pos hident] at hpart
        exact ⟨rest, hpart⟩

lemma isVersion_iff {text : String} :
    isVersion text = true ↔ ∃ base tail, IsBase base ∧ text.toList = base ++ tail ∧
      IsTail tail := by
  have hmatch : isVersion text = true ↔ ∃ tail, StartsWithNumbers text.toList tail ∧
      ∃ part, optionalPart '-' tail = some (part, []) := by
    simp only [isVersion, Option.isSome_iff_exists, Option.bind_eq_bind,
      Option.bind_eq_some_iff, Prod.exists, Option.ite_none_right_eq_some]
    constructor
    · rintro ⟨-, major, r1, h1, r2, h2, minor, r3, h3, r4, h4, patch, tail, h5, part, rest, h6,
        ⟨p1, p2, p3, rfl⟩, -⟩
      exact ⟨tail, ⟨major, r1, r2, minor, r3, r4, patch, h1, h2, h3, h4, h5, p1, p2, p3⟩, part, h6⟩
    · rintro ⟨tail, ⟨major, r1, r2, minor, r3, r4, patch, h1, h2, h3, h4, h5, p1, p2, p3⟩, part, h6⟩
      exact ⟨(), major, r1, h1, r2, h2, minor, r3, h3, r4, h4, patch, tail, h5, part, [], h6,
        ⟨p1, p2, p3, rfl⟩, trivial⟩
  simp only [hmatch, startsWithNumbers_iff, optionalPart_iff]
  constructor
  · rintro ⟨tail, ⟨base, hbase, htext, -⟩, htail⟩
    exact ⟨base, tail, hbase, htext, htail⟩
  · rintro ⟨base, tail, hbase, htext, htail⟩
    refine ⟨tail, ⟨base, hbase, htext, fun c hc => ?_⟩, htail⟩
    rcases htail with rfl | ⟨prerelease, rfl, -, -⟩
    · cases hc
    · obtain rfl := Option.some.inj hc
      decide

/-- There is no hyphen in the numbers of a version. -/
lemma IsBase.no_hyphen {base : List Char} (h : IsBase base) : ∀ c ∈ base, c ≠ '-' := by
  obtain ⟨major, minor, patch, hmajor, hminor, hpatch, rfl⟩ := h
  have hdigit : ∀ c : Char, c.isDigit = true → c ≠ '-' := by
    rintro _ hc rfl
    exact absurd hc (by decide)
  intro c hc
  simp only [List.mem_append, List.mem_cons] at hc
  rcases hc with hc | rfl | hc | rfl | hc
  · exact hdigit c (hmajor.isDigit c hc)
  · decide
  · exact hdigit c (hminor.isDigit c hc)
  · decide
  · exact hdigit c (hpatch.isDigit c hc)

/-- A version is cut where its tail begins. -/
lemma cut_of_isTail {text : String} {base tail : List Char} (hbase : ∀ c ∈ base, c ≠ '-')
    (htext : text.toList = base ++ tail) (htail : tail = [] ∨ ∃ rest, tail = '-' :: rest) :
    baseOf text = base ∧ prereleaseOf text = tail.tail? := by
  have hpos : ∀ c ∈ base, (fun c : Char => decide (c ≠ '-')) c = true := by
    intro c hc
    simpa using hbase c hc
  unfold baseOf prereleaseOf
  rw [htext, List.takeWhile_append_of_pos hpos, List.dropWhile_append_of_pos hpos]
  rcases htail with rfl | ⟨rest, rfl⟩
  · simp
  · simp

/-- All pieces of a text consist of such characters if all that are no separators are such. -/
lemma forall_splitOnP {separator allowed : Char → Bool} (text : List Char) :
    (∀ piece ∈ text.splitOnP separator, ∀ c ∈ piece, allowed c = true) ↔
      ∀ c ∈ text, separator c = true ∨ allowed c = true := by
  induction text with
  | nil => simp
  | cons c text ih =>
    rw [List.splitOnP_cons_eq_if_modifyHead]
    split
    · rename_i hc
      simp [ih, hc]
    · rename_i hc
      obtain ⟨piece, pieces, hpieces⟩ :=
        List.exists_cons_of_ne_nil (List.splitOnP_ne_nil separator text)
      rw [hpieces] at ih ⊢
      simp only [List.modifyHead_cons, List.mem_cons, forall_eq_or_imp, hc, Bool.false_eq_true,
        false_or] at ih ⊢
      tauto

/-- The prereleases the bridge accepts are those of the bootstrap without padded numbers. -/
lemma identifiers_iff {prerelease : List Char} :
    (prerelease ≠ [] ∧ ∀ identifier ∈ identifiersOf prerelease,
      isIdentifier identifier = true ∧ isPadded identifier = false) ↔
    ((∀ c ∈ prerelease, isVersionChar c = true) ∧ isIdentifiers prerelease = true) ∧
      ∀ identifier ∈ identifiersOf prerelease, isPadded identifier = false := by
  have hchars : (∀ identifier ∈ identifiersOf prerelease,
      ∀ c ∈ identifier, isIdentifierChar c = true) ↔
      ∀ c ∈ prerelease, isVersionChar c = true := by
    rw [identifiersOf, forall_splitOnP]
    refine forall₂_congr fun c _ => ?_
    simp only [isIdentifierChar, isVersionChar, Bool.or_eq_true, decide_eq_true_eq]
    tauto
  have hident : isIdentifiers prerelease = true ↔
      ∀ identifier ∈ identifiersOf prerelease, identifier ≠ [] := by
    simp [isIdentifiers, identifiersOf]
  rw [← hchars]
  constructor
  · rintro ⟨-, h⟩
    simp only [isIdentifier, Bool.and_eq_true, decide_eq_true_eq, List.all_eq_true] at h
    exact ⟨⟨fun identifier hmem => (h identifier hmem).1.2,
      hident.mpr fun identifier hmem => (h identifier hmem).1.1⟩,
      fun identifier hmem => (h identifier hmem).2⟩
  · rintro ⟨⟨hall, hne⟩, hpadded⟩
    refine ⟨Upgrade.isIdentifiers_ne_nil hne, fun identifier hmem => ⟨?_, hpadded _ hmem⟩⟩
    simp only [isIdentifier, Bool.and_eq_true, decide_eq_true_eq, List.all_eq_true]
    exact ⟨hident.mp hne identifier hmem, hall identifier hmem⟩

/-- A version is what is before its first hyphen and what is after it. -/
lemma toList_eq_cut (text : String) :
    text.toList = baseOf text ++ ((prereleaseOf text).map ('-' :: ·)).getD [] := by
  have hsplit : text.toList = baseOf text ++ text.toList.dropWhile (fun c => c ≠ '-') :=
    List.takeWhile_append_dropWhile.symm
  have hhead := List.head?_dropWhile_not (fun c : Char => decide (c ≠ '-')) text.toList
  unfold prereleaseOf
  cases hrest : text.toList.dropWhile (fun c => c ≠ '-') with
  | nil => rwa [hrest] at hsplit
  | cons c rest =>
    rw [hrest] at hsplit hhead
    obtain rfl : c = '-' := by simpa using hhead
    exact hsplit

/-- The versions of the bridge are those of the bootstrap without padded numbers. -/
theorem validVersion_iff {text : String} :
    validVersion text = true ↔ isVersion text = true ∧ hasPaddedNumber text = false := by
  have hvalid : validVersion text = true ↔ IsBase (baseOf text) ∧
      ∀ prerelease, prereleaseOf text = some prerelease →
        prerelease ≠ [] ∧ ∀ identifier ∈ identifiersOf prerelease,
          isIdentifier identifier = true ∧ isPadded identifier = false := by
    rw [validVersion, Bool.and_eq_true, isBaseVersion_iff]
    cases prereleaseOf text <;> simp
  have hunpadded : hasPaddedNumber text = false ↔
      ∀ prerelease, prereleaseOf text = some prerelease →
        ∀ identifier ∈ identifiersOf prerelease, isPadded identifier = false := by
    unfold hasPaddedNumber
    cases prereleaseOf text <;> simp
  rw [hvalid, isVersion_iff, hunpadded]
  simp only [identifiers_iff]
  constructor
  · rintro ⟨hbase, hrest⟩
    refine ⟨⟨_, _, hbase, toList_eq_cut text, ?_⟩, fun prerelease h => (hrest prerelease h).2⟩
    cases h : prereleaseOf text with
    | none => exact .inl rfl
    | some prerelease => exact .inr ⟨prerelease, rfl, (hrest prerelease h).1⟩
  · rintro ⟨⟨base, tail, hbase, htext, htail⟩, hrest⟩
    have hshape : tail = [] ∨ ∃ rest, tail = '-' :: rest := by
      rcases htail with h | ⟨prerelease, h, -⟩
      · exact .inl h
      · exact .inr ⟨prerelease, h⟩
    obtain ⟨hbaseOf, hprerelease⟩ := cut_of_isTail hbase.no_hyphen htext hshape
    refine ⟨hbaseOf ▸ hbase, fun prerelease h => ⟨?_, hrest prerelease h⟩⟩
    rw [hprerelease] at h
    rcases htail with rfl | ⟨part, rfl, hpart⟩
    · cases h
    · obtain rfl := Option.some.inj h
      exact hpart

/-! ## What is accepted -/

/-- What the check of an active state comes to. -/
lemma validate_eq_ok {state : ActiveState} : state.validate = .ok () ↔
      state.schemaVersion = schemaVersion ∧ state.generation ≠ 0 ∧
      validVersion state.activeVersion = true ∧
      (state.previousVersion ≠ "" → validVersion state.previousVersion = true ∧
        state.previousVersion ≠ state.activeVersion) ∧
      (state.serviceVersion = "" ↔ state.serviceChecksum = "") ∧
      (state.serviceVersion ≠ "" → validVersion state.serviceVersion = true ∧
        isLowerHex 64 state.serviceChecksum = true) ∧
      state.target ∈ allowedTargets ∧ isLowerHex 64 state.checksum = true ∧
      isLowerHex 64 state.bridgeChecksum = true ∧
      (state.serviceBridgeChecksum ≠ "" → isLowerHex 64 state.serviceBridgeChecksum = true) ∧
      isTransactionID state.transactionID = true := by
  have hprevious : validatePrevious state = .ok () ↔ (state.previousVersion ≠ "" →
      validVersion state.previousVersion = true ∧
        state.previousVersion ≠ state.activeVersion) := by
    unfold validatePrevious
    split
    · simp [*]
    · simp [bind_eq_ok, *]
  have hservice : validateService state = .ok () ↔ (state.serviceVersion ≠ "" →
      validVersion state.serviceVersion = true ∧ isLowerHex 64 state.serviceChecksum = true) := by
    unfold validateService
    split
    · simp [*]
    · simp [bind_eq_ok, *]
  simp only [ActiveState.validate, bind_eq_ok, failIf_eq_ok, exists_const, hprevious, hservice,
    not_not, List.contains_iff_mem, not_and]

/-- A document has the form the bootstrap checks, its target, the digest of its service bridge and
its id aside. -/
structure Shaped (state : Upgrade.ActiveState) : Prop where
  generation : 1 ≤ state.generation
  activeVersion : isVersion state.activeVersion = true
  previousVersion : ∀ version, state.previousVersion = some version → isVersion version = true
  together : state.serviceVersion.isNone = state.serviceChecksum.isNone
  serviceVersion : ∀ version, state.serviceVersion = some version → isVersion version = true
  serviceChecksum : ∀ digest, state.serviceChecksum = some digest → isLowerHex 64 digest = true
  checksum : isLowerHex 64 state.checksum = true
  bridgeChecksum : isLowerHex 64 state.bridgeChecksum = true

lemma ne_empty_of_isVersion {version : String} (h : isVersion version = true) : version ≠ "" := by
  rintro rfl
  exact absurd h (by decide)

lemma ne_empty_of_isLowerHex {digest : String} (h : isLowerHex 64 digest = true) : digest ≠ "" := by
  rintro rfl
  exact absurd h (by decide)

/-- What the bridge asks of a document beyond its form. -/
structure Suits (state : Upgrade.ActiveState) : Prop where
  activeVersion : hasPaddedNumber state.activeVersion = false
  previousVersion : ∀ version, state.previousVersion = some version →
    hasPaddedNumber version = false ∧ version ≠ state.activeVersion
  serviceVersion : ∀ version, state.serviceVersion = some version →
    hasPaddedNumber version = false
  target : state.target ∈ allowedTargets
  serviceBridgeChecksum : ∀ digest, state.serviceBridgeChecksum = some digest → digest ≠ "" →
    isLowerHex 64 digest = true
  transactionID : isTransactionID state.transactionID = true

/-- A document of the form the bootstrap checks is accepted if it is as the bridge asks. -/
theorem Shaped.accepts_iff {state : Upgrade.ActiveState} (h : Shaped state) :
    Accepts state ↔ Suits state := by
  have hprevious : ((decode state).previousVersion ≠ "" →
      validVersion (decode state).previousVersion = true ∧
        (decode state).previousVersion ≠ (decode state).activeVersion) ↔
      ∀ version, state.previousVersion = some version →
        hasPaddedNumber version = false ∧ version ≠ state.activeVersion := by
    cases hversion : state.previousVersion with
    | none => simp [decode, hversion]
    | some version =>
      have hvalid := h.previousVersion version hversion
      simp [decode, hversion, ne_empty_of_isVersion hvalid, validVersion_iff, hvalid]
  have hservice : (((decode state).serviceVersion = "" ↔ (decode state).serviceChecksum = "") ∧
      ((decode state).serviceVersion ≠ "" → validVersion (decode state).serviceVersion = true ∧
        isLowerHex 64 (decode state).serviceChecksum = true)) ↔
      ∀ version, state.serviceVersion = some version → hasPaddedNumber version = false := by
    have htogether := h.together
    cases hversion : state.serviceVersion with
    | none =>
      rw [hversion] at htogether
      have hnone : state.serviceChecksum = none := Option.isNone_iff_eq_none.mp htogether.symm
      simp [decode, hversion, hnone]
    | some version =>
      have hvalid := h.serviceVersion version hversion
      rw [hversion] at htogether
      obtain ⟨digest, hdigest⟩ : ∃ digest, state.serviceChecksum = some digest := by
        cases hsome : state.serviceChecksum with
        | none => simp [hsome] at htogether
        | some digest => exact ⟨digest, rfl⟩
      have hhex := h.serviceChecksum digest hdigest
      simp [decode, hversion, hdigest, ne_empty_of_isVersion hvalid, ne_empty_of_isLowerHex hhex,
        validVersion_iff, hvalid, hhex]
  have hbridge : ((decode state).serviceBridgeChecksum ≠ "" →
      isLowerHex 64 (decode state).serviceBridgeChecksum = true) ↔
      ∀ digest, state.serviceBridgeChecksum = some digest → digest ≠ "" →
        isLowerHex 64 digest = true := by
    cases hdigest : state.serviceBridgeChecksum with
    | none => simp [decode, hdigest]
    | some digest => simp [decode, hdigest]
  have hactive : validVersion (decode state).activeVersion = true ↔
      hasPaddedNumber state.activeVersion = false := by
    simp [decode, validVersion_iff, h.activeVersion]
  have hgeneration : (decode state).generation ≠ 0 := by
    have := h.generation
    simp only [decode]
    omega
  unfold Accepts
  rw [validate_eq_ok]
  constructor
  · rintro ⟨-, -, h1, h2, h3, h4, h5, -, -, h6, h7⟩
    exact ⟨hactive.mp h1, hprevious.mp h2, hservice.mp ⟨h3, h4⟩, h5, hbridge.mp h6, h7⟩
  · intro hsuits
    have hpair := hservice.mpr hsuits.serviceVersion
    exact ⟨rfl, hgeneration, hactive.mpr hsuits.activeVersion,
      hprevious.mpr hsuits.previousVersion, hpair.1, hpair.2, hsuits.target, h.checksum,
      h.bridgeChecksum, hbridge.mpr hsuits.serviceBridgeChecksum, hsuits.transactionID⟩

end AgentBell.Installstate
