import AgentBell.Json.GoString
import AgentBell.Upgrade.SidecarScan
import Mathlib.Data.List.TakeWhile

/-!
# Which configurations the preflight accepts

The versions the bootstrap reads are those of the Core without an empty identifier, and the shapes
it accepts are those of configurations without enrolled peers.  With the scan for duplicate keys,
which passes over every text the Core prints, this decides which files the preflight accepts.
-/

namespace AgentBell.Upgrade

open Json (Value quote render texts distinct distinctFields distinctItems utf8ByteSize_ofList_le)

open RemoteConfig (Libraries RelayConfig ListenerTLS Listener Peer isVersionChar dropV
  isSemanticVersion afterNumber afterDot afterPart)

variable {text number rest tail part : List Char} {next : List Char → Bool}
  {allowed required : List String} {label : String} {u : Unit} {object : Fields} {peers : List Peer}
  {listener : Listener} {J : Script} {config : RelayConfig} {L : Libraries}

/-! ## Versions -/

/-- The characters that separate identifiers. -/
def separates (c : Char) : Bool := c = '.' || c = '+'

/-- The rest of a version after its numbers. -/
def versionTail (text : String) : List Char :=
  (dropV text.toList).dropWhile fun c => c.isDigit || c = '.'

/-- No identifier of the prerelease and the build of a version is empty. -/
def NoEmptyIdentifier (text : String) : Prop :=
  versionTail text = [] ∨ [] ∉ ((versionTail text).drop 1).splitOnP separates

instance (text : String) : Decidable (NoEmptyIdentifier text) := inferInstanceAs (Decidable (_ ∨ _))

lemma leadingNumber_eq_some (h : leadingNumber text = some (number, rest)) :
    text = number ++ rest ∧ ∀ c ∈ number, c.isDigit = true := by
  unfold leadingNumber at h
  split at h
  · cases h
  · obtain ⟨rfl, rfl⟩ := Prod.mk.inj (Option.some.inj h)
    exact ⟨List.takeWhile_append_dropWhile.symm,
      fun c hc => List.all_eq_true.mp List.all_takeWhile c hc⟩

lemma withoutDot_eq_some (h : withoutDot text = some rest) : text = '.' :: rest := by
  unfold withoutDot at h
  split at h
  · obtain rfl := Option.some.inj h
    rfl
  · cases h

lemma afterNumber_eq_true : afterNumber next text = true ↔
      ∃ number rest, leadingNumber text = some (number, rest) ∧ next rest = true := by
  unfold afterNumber leadingNumber
  by_cases h : text.takeWhile Char.isDigit = []
  · simp [h]
  · simp [h]

lemma afterDot_eq_true :
    afterDot next text = true ↔ ∃ rest, withoutDot text = some rest ∧ next rest = true := by
  unfold afterDot withoutDot
  split <;> simp

lemma dropWhile_leadingNumber (h : leadingNumber text = some (number, rest)) :
    text.dropWhile (fun c => c.isDigit || c = '.') =
      rest.dropWhile fun c => c.isDigit || c = '.' := by
  obtain ⟨rfl, hdigits⟩ := leadingNumber_eq_some h
  exact List.dropWhile_append_of_pos fun c hc => by simp [hdigits c hc]

lemma dropWhile_withoutDot (h : withoutDot text = some rest) :
    text.dropWhile (fun c => c.isDigit || c = '.') =
      rest.dropWhile fun c => c.isDigit || c = '.' := by
  rw [withoutDot_eq_some h]
  rfl

/-- The text has three numbers with dots between them, and the tail follows them. -/
def Numbered (text : String) (tail : List Char) : Prop :=
  ∃ major afterMajor minorOn minor afterMinor patchOn patch,
    leadingNumber (dropV text.toList) = some (major, afterMajor) ∧
    withoutDot afterMajor = some minorOn ∧ leadingNumber minorOn = some (minor, afterMinor) ∧
    withoutDot afterMinor = some patchOn ∧ leadingNumber patchOn = some (patch, tail)

lemma dropWhile_of_numbered {text : String} (h : Numbered text tail) :
    versionTail text = tail.dropWhile fun c => c.isDigit || c = '.' := by
  obtain ⟨major, afterMajor, minorOn, minor, afterMinor, patchOn, patch, h1, h2, h3, h4, h5⟩ := h
  unfold versionTail
  rw [dropWhile_leadingNumber h1, dropWhile_withoutDot h2, dropWhile_leadingNumber h3,
    dropWhile_withoutDot h4, dropWhile_leadingNumber h5]

lemma isSemanticVersion_iff {text : String} : isSemanticVersion text = true ↔
    ∃ tail, Numbered text tail ∧ afterPart '-' (afterPart '+' List.isEmpty) tail = true := by
  simp only [isSemanticVersion, afterNumber_eq_true, afterDot_eq_true, Numbered]
  constructor
  · rintro ⟨major, r1, h1, r2, h2, minor, r3, h3, r4, h4, patch, tail, h5, htail⟩
    exact ⟨tail, ⟨major, r1, r2, minor, r3, r4, patch, h1, h2, h3, h4, h5⟩, htail⟩
  · rintro ⟨tail, ⟨major, r1, r2, minor, r3, r4, patch, h1, h2, h3, h4, h5⟩, htail⟩
    exact ⟨major, r1, h1, r2, h2, minor, r3, h3, r4, h4, patch, tail, h5, htail⟩

/-- The tail of a version as the bootstrap matches it. -/
def MatchedTail (tail : List Char) : Prop :=
  ∃ prerelease rest build, optionalPart '-' tail = some (prerelease, rest) ∧
    optionalPart '+' rest = some (build, [])

lemma matchVersion_isSome {text : String} : (∃ version, matchVersion text = some version) ↔
      ∃ tail, Numbered text tail ∧ MatchedTail tail := by
  simp only [matchVersion, Option.bind_eq_bind, Option.bind_eq_some_iff, Prod.exists,
    Option.ite_none_right_eq_some, Option.some.injEq, Numbered, MatchedTail]
  constructor
  · rintro ⟨version, major, r1, h1, r2, h2, minor, r3, h3, r4, h4, patch, tail, h5, pre, rest, h6,
      build, last, h7, rfl, -⟩
    exact ⟨tail, ⟨major, r1, r2, minor, r3, r4, patch, h1, h2, h3, h4, h5⟩, pre, rest, build,
      h6, h7⟩
  · rintro ⟨tail, ⟨major, r1, r2, minor, r3, r4, patch, h1, h2, h3, h4, h5⟩, pre, rest, build,
      h6, h7⟩
    exact ⟨_, major, r1, h1, r2, h2, minor, r3, h3, r4, h4, patch, tail, h5, pre, rest, h6,
      build, [], h7, rfl, rfl⟩

lemma splitOnP_separates (h : ∀ c ∈ part, isVersionChar c = true) :
    part.splitOnP separates = part.splitOnP fun c => c = '.' := by
  induction part with
  | nil => rfl
  | cons c part ih =>
    have hplus : c ≠ '+' := by
      rintro rfl
      exact absurd (h '+' List.mem_cons_self) (by decide)
    rw [List.splitOnP_cons_eq_if_modifyHead, List.splitOnP_cons_eq_if_modifyHead,
      ih fun d hd => h d (List.mem_cons_of_mem _ hd)]
    simp [separates, hplus]

lemma isIdentifiers_iff (h : ∀ c ∈ part, isVersionChar c = true) :
    isIdentifiers part = true ↔ [] ∉ part.splitOnP separates := by
  rw [splitOnP_separates h, isIdentifiers, List.all_eq_true]
  constructor
  · intro hall hmem
    simpa using hall [] hmem
  · intro hnot identifier hmem
    simp only [ne_eq, decide_not, Bool.not_eq_true', decide_eq_false_iff_not]
    rintro rfl
    exact hnot hmem

lemma isIdentifiers_ne_nil (h : isIdentifiers part = true) : part ≠ [] := by
  rintro rfl
  exact absurd h (by decide)

lemma afterPart_of_optionalPart {mark : Char} (h : optionalPart mark text = some (part, rest))
    (hnext : next rest = true) : afterPart mark next text = true := by
  cases text with
  | nil =>
    obtain ⟨-, rfl⟩ := Prod.mk.inj (Option.some.inj h)
    exact hnext
  | cons c text =>
    simp only [optionalPart, afterPart] at h ⊢
    split at h
    · split at h
      · rename_i hident
        obtain ⟨-, rfl⟩ := Prod.mk.inj (Option.some.inj h)
        simp [*, isIdentifiers_ne_nil hident]
      · cases h
    · obtain ⟨-, rfl⟩ := Prod.mk.inj (Option.some.inj h)
      simp [*]

/-- What follows the numbers of a version of the Core. -/
lemma tail_cases (h : afterPart '-' (afterPart '+' List.isEmpty) tail = true) :
    tail = [] ∨ (∃ build, tail = '+' :: build ∧ ∀ c ∈ build, isVersionChar c = true) ∨
      ∃ prerelease, (∀ c ∈ prerelease, isVersionChar c = true) ∧ (tail = '-' :: prerelease ∨
          ∃ build, tail = '-' :: (prerelease ++ '+' :: build) ∧
            ∀ c ∈ build, isVersionChar c = true) := by
  have hplus : ∀ rest, afterPart '+' List.isEmpty rest = true → rest = [] ∨
      ∃ build, rest = '+' :: build ∧ ∀ c ∈ build, isVersionChar c = true := by
    intro rest hrest
    cases rest with
    | nil => exact .inl rfl
    | cons c rest =>
      simp only [afterPart] at hrest
      split at hrest
      · rename_i hc
        simp only [Bool.and_eq_true, List.isEmpty_iff] at hrest
        exact .inr ⟨rest, by rw [hc], List.dropWhile_eq_nil_iff.mp hrest.2⟩
      · simp at hrest
  cases tail with
  | nil => exact .inl rfl
  | cons c rest =>
    simp only [afterPart] at h
    split at h
    · rename_i hc
      subst hc
      simp only [Bool.and_eq_true] at h
      have hchars : ∀ c ∈ rest.takeWhile isVersionChar, isVersionChar c = true :=
        fun c hc => List.all_eq_true.mp List.all_takeWhile c hc
      have hsplit : rest = rest.takeWhile isVersionChar ++ rest.dropWhile isVersionChar :=
        List.takeWhile_append_dropWhile.symm
      refine .inr (.inr ⟨rest.takeWhile isVersionChar, hchars, ?_⟩)
      rcases hplus _ h.2 with hend | ⟨build, hbuild, hall⟩
      · left
        rw [hend, List.append_nil] at hsplit
        rw [← hsplit]
      · right
        rw [hbuild] at hsplit
        exact ⟨build, by rw [← hsplit], hall⟩
    · rcases hplus (c :: rest) h with hend | ⟨build, hbuild, hall⟩
      · cases hend
      · exact .inr (.inl ⟨build, hbuild, hall⟩)

lemma optionalPart_mark (mark : Char) (rest : List Char)
    (hpart : ∀ c ∈ part, isVersionChar c = true) (hrest : rest.takeWhile isVersionChar = []) :
    optionalPart mark (mark :: (part ++ rest)) =
      if isIdentifiers part then some (part, rest) else none := by
  have htake : (part ++ rest).takeWhile isVersionChar = part := by
    rw [List.takeWhile_append_of_pos hpart, hrest, List.append_nil]
  have hdrop : (part ++ rest).dropWhile isVersionChar = rest := by
    rw [List.dropWhile_append_of_pos hpart]
    cases rest with
    | nil => rfl
    | cons c rest =>
      rw [List.takeWhile_cons] at hrest
      split at hrest
      · cases hrest
      · rename_i hc
        rw [List.dropWhile_cons_of_neg hc]
  simp only [optionalPart, if_true, htake, hdrop]

lemma matchedTail_iff (h : afterPart '-' (afterPart '+' List.isEmpty) tail = true) :
    MatchedTail tail ↔ tail = [] ∨ [] ∉ (tail.drop 1).splitOnP separates := by
  unfold MatchedTail
  rcases tail_cases h with
    rfl | ⟨build, rfl, hbuild⟩ | ⟨prerelease, hpre, rfl | ⟨build, rfl, hbuild⟩⟩
  · simp [optionalPart]
  · have hplus := optionalPart_mark '+' [] hbuild rfl
    rw [List.append_nil] at hplus
    have hminus : optionalPart '-' ('+' :: build) = some ([], '+' :: build) := rfl
    simp [hminus, hplus, isIdentifiers_iff hbuild]
  · have hminus := optionalPart_mark '-' [] hpre rfl
    rw [List.append_nil] at hminus
    have hplus : optionalPart '+' [] = some ([], []) := rfl
    simp [hminus, hplus, isIdentifiers_iff hpre]
  · have hminus := optionalPart_mark '-' ('+' :: build) hpre rfl
    have hplus := optionalPart_mark '+' [] hbuild rfl
    rw [List.append_nil] at hplus
    have hsplit : (prerelease ++ '+' :: build).splitOnP separates =
        prerelease.splitOnP separates ++ build.splitOnP separates :=
      List.splitOnP_append_cons prerelease build (by decide)
    simp [hminus, hplus, hsplit, isIdentifiers_iff hpre, isIdentifiers_iff hbuild]

lemma afterPart_of_matchedTail (h : MatchedTail tail) :
    afterPart '-' (afterPart '+' List.isEmpty) tail = true := by
  obtain ⟨prerelease, rest, build, hminus, hplus⟩ := h
  exact afterPart_of_optionalPart hminus (afterPart_of_optionalPart hplus rfl)

lemma versionTail_of_numbered {text : String} (h : Numbered text tail)
    (htail : afterPart '-' (afterPart '+' List.isEmpty) tail = true) : versionTail text = tail := by
  rw [dropWhile_of_numbered h]
  rcases tail_cases htail with
    rfl | ⟨build, rfl, -⟩ | ⟨prerelease, -, rfl | ⟨build, rfl, -⟩⟩ <;> rfl

/-- The bootstrap reads the versions the Core reads, those with an empty identifier apart. -/
theorem matchVersion_iff {text : String} : (∃ version, matchVersion text = some version) ↔
    isSemanticVersion text = true ∧ NoEmptyIdentifier text := by
  rw [matchVersion_isSome, isSemanticVersion_iff, NoEmptyIdentifier]
  constructor
  · rintro ⟨tail, hnumbered, hmatched⟩
    have htail := afterPart_of_matchedTail hmatched
    rw [versionTail_of_numbered hnumbered htail]
    exact ⟨⟨tail, hnumbered, htail⟩, (matchedTail_iff htail).mp hmatched⟩
  · rintro ⟨⟨tail, hnumbered, htail⟩, hidentifiers⟩
    rw [versionTail_of_numbered hnumbered htail] at hidentifiers
    exact ⟨tail, hnumbered, (matchedTail_iff htail).mpr hidentifiers⟩

/-! ## Shapes -/

lemma assertNames_eq_ok {names : List String} :
    assertNames allowed label names = .ok u ↔ ∀ name ∈ names, name ∈ allowed := by
  induction names with
  | nil => simp [assertNames]
  | cons name names ih =>
    simp [assertNames, bind_eq_ok, ih]

lemma assertRequired_eq_ok : assertRequired object label required = .ok u ↔
      ∀ name ∈ required, isPresent object name = true := by
  induction required with
  | nil => simp [assertRequired]
  | cons name names ih =>
    simp [assertRequired, bind_eq_ok, ih]

/-- An object passes when all its fields are known and all required ones are there. -/
lemma assertKnownFields_eq_ok {found : Fields} :
    assertKnownFields (some (.obj object)) allowed label required = .ok found ↔
      (∀ name ∈ object.map Prod.fst, name ∈ allowed) ∧
        (∀ name ∈ required, isPresent object name = true) ∧ object = found := by
  simp [assertKnownFields, assertObject, bind_eq_ok, assertNames_eq_ok, assertRequired_eq_ok, pure,
    Except.pure]

/-- The peers of an enrollment carry a field that the bootstrap does not know. -/
lemma validatePeerShape_peerDocument {peer : Peer} :
    validatePeerShape (peerDocument peer) label = .ok u ↔ peer.enrollmentID = "" := by
  have hempty : validatePeerShape (peerDocument peer) label = .ok u ↔
      ∀ name ∈ (omitEmpty (peer.enrollmentID = "") "enrollmentId"
        (.str peer.enrollmentID)).map Prod.fst, name ∈ peerFields := by
    simp [validatePeerShape, bind_eq_ok, peerDocument, assertKnownFields_eq_ok, or_imp,
      forall_and, peerFields, pure, Except.pure]
  rw [hempty]
  by_cases h : peer.enrollmentID = ""
  · simp [h, omitEmpty]
  · simp [h, omitEmpty, peerFields]

lemma forEachEntry_peerDocument {index : Nat} :
    forEachEntry label validatePeerShape index (peers.map peerDocument) = .ok u ↔
      ∀ peer ∈ peers, peer.enrollmentID = "" := by
  induction peers generalizing index with
  | nil => simp [forEachEntry]
  | cons peer peers ih =>
    simp only [List.map_cons, forEachEntry, bind_eq_ok, validatePeerShape_peerDocument, ih,
      List.forall_mem_cons, exists_const]

/-- The TLS files are the only optional field of the listener whose own fields are checked. -/
lemma field_tls (listener : Listener) : field (("enabled", .bool listener.enabled) ::
      (omitEmpty (listener.address = "") "address" (.str listener.address) ++
        (tlsDocument listener.tls ++
          omitEmpty (!listener.sshTunnel) "sshTunnel" (.bool listener.sshTunnel)))) "tls" =
      field (tlsDocument listener.tls) "tls" := by
  unfold omitEmpty field
  cases listener.tls <;> split <;> split <;> simp [tlsDocument]

lemma validateTLSShape_tlsDocument (tls : Option ListenerTLS) :
    validateTLSShape (field (tlsDocument tls) "tls") = .ok () := by
  cases tls <;> rfl

/-- The listener has a shape the bootstrap accepts, with or without its optional fields. -/
lemma validate_listenerDocument (listener : Listener) (label : String) :
    ∃ fields, assertKnownFields (some (listenerDocument listener))
      ["enabled", "address", "tls", "sshTunnel"] label = .ok fields ∧
      validateTLSShape (field fields "tls") = .ok () := by
  refine ⟨_, assertKnownFields_eq_ok.mpr ⟨?_, by simp, rfl⟩, ?_⟩
  · unfold omitEmpty
    cases listener.tls <;> split <;> split <;> simp [tlsDocument]
  · rw [field_tls, validateTLSShape_tlsDocument]

lemma parseSemanticVersion_str {text : String} {version : SemanticVersion} :
    parseSemanticVersion (some (.str text)) label = .ok version ↔
      matchVersion text = some version := by
  cases h : matchVersion text <;> simp [parseSemanticVersion, h]

lemma validateRelayShape_eq_ok
    (hlistener : field object "listener" = some (listenerDocument listener))
    (hpeers : field object "peers" = some (.arr (peers.map peerDocument))) :
    validateRelayShape object = .ok u ↔ ∀ peer ∈ peers, peer.enrollmentID = "" := by
  obtain ⟨fields, hfields, htls⟩ := validate_listenerDocument listener "relay.json listener"
  simp only [validateRelayShape, hlistener, hfields, hpeers, assertObjectArray]
  have hshape : validateTLSShape (field fields "tls") = .ok () := htls
  simp only [Except.ok.injEq, exists_eq_left', bind_eq_ok, hshape, forEachEntry_peerDocument]
  simp

lemma isPresent_listenerDocument {name : String}
    (h : field object name = some (listenerDocument listener)) : isPresent object name = true := by
  simp only [isPresent, h]
  rfl

/-- What the bootstrap asks of the document of a configuration. -/
lemma validateSidecar_relayDocument {minimum : SemanticVersion} (hversion : config.version = 1)
    (hpeers : config.slice = some peers) :
    validateSidecar J (relayDocument config) = .ok minimum ↔
      matchVersion config.minCoreVersion = some minimum ∧
        ∀ peer ∈ peers, peer.enrollmentID = "" := by
  simp only [validateSidecar, relayDocument, bind_eq_ok, assertKnownFields_eq_ok, hpeers,
    Option.elim_some, failIf_eq_ok, exists_const]
  constructor
  · rintro ⟨object, ⟨-, -, rfl⟩, -, found, hfound, _, hshape, hresult⟩
    obtain rfl := Except.ok.inj hresult
    exact ⟨parseSemanticVersion_str.mp hfound, (validateRelayShape_eq_ok rfl rfl).mp hshape⟩
  · rintro ⟨hmatch, hids⟩
    refine ⟨_, ⟨by simp [relayFields], ?_, rfl⟩, ?_, minimum, parseSemanticVersion_str.mpr hmatch,
      (), (validateRelayShape_eq_ok rfl rfl).mpr hids, rfl⟩
    · intro name hname
      simp only [relayFields, List.mem_cons, List.not_mem_nil, or_false] at hname
      rcases hname with rfl | rfl | rfl | rfl
      · rfl
      · rfl
      · exact isPresent_listenerDocument rfl
      · rfl
    · simp [isSupportedVersion, field, hversion]

/-! ## The preflight of what the Core writes -/

lemma distinct_stringsDocument (values : List String) : distinct (stringsDocument values) := by
  unfold stringsDocument
  induction values with
  | nil => trivial
  | cons value values ih => exact ⟨trivial, ih⟩

lemma distinct_peerDocument (peer : Peer) : distinct (peerDocument peer) := by
  have hstrings := distinct_stringsDocument
  unfold peerDocument omitEmpty
  split <;> simp [distinct, distinctFields, hstrings]

lemma distinct_listenerDocument (listener : Listener) : distinct (listenerDocument listener) := by
  unfold listenerDocument omitEmpty
  cases listener.tls <;> split <;> split <;>
    simp [tlsDocument, pathDocument, distinct, distinctFields]

/-- The Core writes no object with two fields of one name. -/
lemma distinct_relayDocument (config : RelayConfig) : distinct (relayDocument config) := by
  have hpeers : ∀ peers : List Peer, distinctItems (peers.map peerDocument) := by
    intro peers
    induction peers with
    | nil => trivial
    | cons peer peers ih => exact ⟨distinct_peerDocument peer, ih⟩
  have hlistener := distinct_listenerDocument config.listener
  unfold relayDocument
  cases config.slice <;> simp [distinct, distinctFields, hlistener, hpeers]

lemma levels_stringsDocument (values : List String) :
    (Json.treeOf (stringsDocument values)).levels ≤ 2 := by
  refine Json.levels_arr_le fun item hitem => ?_
  obtain ⟨value, -, rfl⟩ := List.mem_map.mp hitem
  exact le_refl 1

lemma levels_omitEmpty {omitted : Bool} {name : String} {value : Value} {n : Nat}
    (h : (Json.treeOf value).levels ≤ n) :
    ∀ field ∈ omitEmpty omitted name value, (Json.treeOf field.2).levels ≤ n := by
  unfold omitEmpty
  split
  · exact fun _ hfield => absurd hfield List.not_mem_nil
  · rintro _ hfield
    rwa [List.mem_singleton.mp hfield]

lemma levels_tlsDocument (tls : Option ListenerTLS) :
    ∀ field ∈ tlsDocument tls, (Json.treeOf field.2).levels ≤ 3 := by
  cases tls with
  | none => exact fun _ hfield => absurd hfield List.not_mem_nil
  | some tls =>
    rintro _ hfield
    rw [List.mem_singleton.mp hfield]
    exact le_refl 3

lemma levels_listenerDocument (listener : Listener) :
    (Json.treeOf (listenerDocument listener)).levels ≤ 4 := by
  refine Json.levels_obj_le ?_
  simp only [List.forall_mem_cons, List.forall_mem_append]
  have hword : ∀ value : Bool, (Json.treeOf (.bool value)).levels ≤ 3 := by decide
  have htext : (Json.treeOf (.str listener.address)).levels ≤ 3 := Nat.le_add_left 1 2
  exact ⟨hword _, levels_omitEmpty htext, levels_tlsDocument _, levels_omitEmpty (hword _)⟩

lemma levels_peerDocument (peer : Peer) : (Json.treeOf (peerDocument peer)).levels ≤ 3 := by
  refine Json.levels_obj_le ?_
  have htext : ∀ value : String, (Json.treeOf (.str value)).levels ≤ 2 :=
    fun _ => Nat.le_add_left 1 1
  simp only [List.forall_mem_cons, List.forall_mem_append, List.not_mem_nil, false_implies,
    implies_true, and_true]
  refine ⟨htext _, levels_omitEmpty (htext _), htext _, htext _, htext _,
    levels_stringsDocument _, levels_stringsDocument _, levels_stringsDocument _, ?_⟩
  cases peer.revoked <;> exact Nat.le_add_left 1 1

/-- The documents the Core writes have five levels at most. -/
lemma levels_relayDocument (config : RelayConfig) :
    (Json.treeOf (relayDocument config)).levels ≤ 5 := by
  have hpeers : (Json.treeOf
      (config.slice.elim .null fun peers => .arr (peers.map peerDocument))).levels ≤ 4 := by
    cases config.slice with
    | none => exact Nat.le_add_left 1 3
    | some peers =>
      refine Json.levels_arr_le fun item hitem => ?_
      obtain ⟨peer, -, rfl⟩ := List.mem_map.mp hitem
      exact levels_peerDocument peer
  refine Json.levels_obj_le ?_
  simp only [List.forall_mem_cons, List.not_mem_nil, false_implies, implies_true, and_true]
  exact ⟨Nat.le_add_left 1 3, Nat.le_add_left 1 3, levels_listenerDocument _, hpeers⟩

/-- The scan accepts every text the Core writes, on a stack with room for its levels. -/
lemma rejectDuplicateJSONKeys_render {value : Value} (hdistinct : distinct value)
    (hlevels : (Json.treeOf value).levels ≤ J.stack)
    (hliterals : ∀ text ∈ texts value, J.parseLiteral (quote text) = .ok text) :
    rejectDuplicateJSONKeys J (String.ofList (render 0 value ++ ['\n'])) label = .ok () := by
  have hreads : J.Reads (Json.Printed fun text => J.parseLiteral (quote text) = .ok text) := by
    rintro _ ⟨text, hread, rfl⟩
    exact ⟨Json.isLiteral_quote text, text, hread⟩
  refine (reject_spells hreads ?_ label).passed
    ⟨Json.noDuplicates_treeOf (fun _ _ => Except.ok.inj) value hdistinct hliterals, hlevels⟩
  rw [String.toList_ofList]
  exact ⟨[], _, ['\n'], Json.blank_nil, Json.spells_render value 0 hliterals,
    Json.blank_newline 0, rfl⟩

/-- What a saved configuration is. -/
lemma saveRelay_eq_ok {text : String} (h : saveRelay L config = .ok text) :
    config.version = 1 ∧ isSemanticVersion config.minCoreVersion = true ∧
      config.slice = some config.peers ∧ text.utf8ByteSize ≤ maximumSidecarBytes ∧
      text = String.ofList (render 0 (relayDocument config) ++ ['\n']) := by
  simp only [saveRelay, RelayConfig.validate, RemoteConfig.validateHeader, bind_eq_ok,
    failIf_eq_ok, exists_const, not_lt, not_not, ne_eq] at h
  obtain ⟨-, ⟨⟨hversion, hsemantic⟩, -, -, hslice, -⟩, hsize, htext⟩ := h
  obtain rfl := Except.ok.inj htext
  obtain ⟨peers, hpeers⟩ := Option.ne_none_iff_exists'.mp hslice
  exact ⟨hversion, hsemantic, by rw [RelayConfig.peers, hpeers, Option.getD_some], hsize, rfl⟩

section Saved

variable {J : Script} {L : Libraries} {config : RelayConfig} {text : String}
  {target : SemanticVersion}

/-- For a text the Core saved, the preflight comes down to the checks of the document. -/
lemma loadSidecarPreflight_saved (hsave : saveRelay L config = .ok text)
    (hparse : J.parse text = .ok (relayDocument config))
    (hliterals : ∀ value ∈ texts (relayDocument config),
      J.parseLiteral (quote value) = .ok value) (hstack : 5 ≤ J.stack) :
    loadSidecarPreflight J (some text) target =
      match validateSidecar J (relayDocument config) with
      | .error message => .error (invalidSidecar message)
      | .ok minimum =>
        if compareSemanticVersions minimum target = .gt then
          .error ⟨"relay.json requires AgentBell Core " ++ minimum.normalized ++
            ", but rollback target is " ++ target.normalized ++ ".",
            ⟨"relay.json", .incompatible, minimum.normalized, J.checksum text⟩⟩
        else .ok ⟨"relay.json", .compatible, minimum.normalized, J.checksum text⟩ := by
  obtain ⟨-, -, -, hsize, htext⟩ := saveRelay_eq_ok hsave
  have hscan : rejectDuplicateJSONKeys J text "relay.json" = .ok () := by
    rw [htext]
    exact rejectDuplicateJSONKeys_render (distinct_relayDocument config)
      (le_trans (levels_relayDocument config) hstack) hliterals
  cases hvalid : validateSidecar J (relayDocument config) with
  | error message =>
    simp only [loadSidecarPreflight, if_neg (not_lt.mpr hsize), hparse, hscan, hvalid]
  | ok minimum =>
    simp only [loadSidecarPreflight, if_neg (not_lt.mpr hsize), hparse, hscan, hvalid]

lemma exists_report_iff (hsave : saveRelay L config = .ok text)
    (hparse : J.parse text = .ok (relayDocument config))
    (hliterals : ∀ value ∈ texts (relayDocument config),
      J.parseLiteral (quote value) = .ok value) (hstack : 5 ≤ J.stack) :
    (∃ report, loadSidecarPreflight J (some text) target = .ok report) ↔
      ∃ minimum, validateSidecar J (relayDocument config) = .ok minimum ∧
        compareSemanticVersions minimum target ≠ .gt := by
  rw [loadSidecarPreflight_saved hsave hparse hliterals hstack]
  cases validateSidecar J (relayDocument config) with
  | error message => simp
  | ok minimum =>
    by_cases hgt : compareSemanticVersions minimum target = .gt
    · simp [hgt]
    · simp [hgt]

/-- Of the files the Core saves for a target that is recent enough, the preflight accepts exactly
those without enrolled peers and without an empty identifier in the smallest version. -/
theorem preflight_accepts_iff (hsave : saveRelay L config = .ok text)
    (hparse : J.parse text = .ok (relayDocument config))
    (hliterals : ∀ value ∈ texts (relayDocument config),
      J.parseLiteral (quote value) = .ok value) (hstack : 5 ≤ J.stack)
    (htarget : ∀ minimum, matchVersion config.minCoreVersion = some minimum →
      compareSemanticVersions minimum target ≠ .gt) :
    (∃ report, loadSidecarPreflight J (some text) target = .ok report) ↔
      (∀ peer ∈ config.peers, peer.enrollmentID = "") ∧
        NoEmptyIdentifier config.minCoreVersion := by
  obtain ⟨hversion, hsemantic, hslice, -, -⟩ := saveRelay_eq_ok hsave
  rw [exists_report_iff hsave hparse hliterals hstack]
  simp only [validateSidecar_relayDocument hversion hslice]
  constructor
  · rintro ⟨minimum, ⟨hmatch, hpeers⟩, -⟩
    exact ⟨hpeers, (matchVersion_iff.mp ⟨minimum, hmatch⟩).2⟩
  · rintro ⟨hpeers, hidentifiers⟩
    obtain ⟨minimum, hmatch⟩ := matchVersion_iff.mpr ⟨hsemantic, hidentifiers⟩
    exact ⟨minimum, ⟨hmatch, hpeers⟩, htarget minimum hmatch⟩

end Saved

/-! ### Samples -/

/-- A sample engine that has one document to read. -/
def sampleScript (document : Value) : Script :=
  { literalScript with parse := fun _ => .ok document }

/-- A sample target. -/
def sampleTarget : SemanticVersion := matchedVersion ['0'] ['2'] ['0'] []

/-- A sample configuration with a peer that was not enrolled with a code. -/
def configuredByHand : RelayConfig :=
  RemoteConfig.sampleConfig [RemoteConfig.sampleConfigured "peer" "origin" 65]

/-- A sample configuration with a peer as `enroll` adds it. -/
def configuredByPairing : RelayConfig :=
  RemoteConfig.sampleConfig [{ RemoteConfig.sampleConfigured "peer" "origin" 65 with
    enrollmentID := String.ofList (List.replicate 64 'a') }]

/-- The text of a sample configuration. -/
def sampleText (config : RelayConfig) : String :=
  String.ofList (render 0 (relayDocument config) ++ ['\n'])

/-- A valid configuration with a short text is saved. -/
lemma saveRelay_of_valid (hvalid : config.validate L = .ok ())
    (hlength : (render 0 (relayDocument config) ++ ['\n']).length ≤ 262144) :
    saveRelay L config = .ok (sampleText config) := by
  have hsize := utf8ByteSize_ofList_le (render 0 (relayDocument config) ++ ['\n'])
  have hfits : ¬ maximumSidecarBytes <
      (String.ofList (render 0 (relayDocument config) ++ ['\n'])).utf8ByteSize := by
    unfold maximumSidecarBytes
    omega
  rw [saveRelay, hvalid, bind_eq_ok]
  refine ⟨(), rfl, ?_⟩
  rw [bind_eq_ok]
  exact ⟨(), failIf_eq_ok.mpr hfits, rfl⟩

/-- A configuration without enrolled peers passes. -/
theorem preflight_accepts_configured_peer :
    ∃ report, loadSidecarPreflight (sampleScript (relayDocument configuredByHand))
      (some (sampleText configuredByHand)) sampleTarget = .ok report := by
  have hsave : saveRelay RemoteConfig.sampleLibraries configuredByHand =
      .ok (sampleText configuredByHand) :=
    saveRelay_of_valid (by decide +kernel) (by decide +kernel)
  refine (preflight_accepts_iff hsave rfl (by decide +kernel) (by decide) ?_).mpr
    (by decide +kernel)
  intro minimum hmatch
  have hminimum : matchVersion configuredByHand.minCoreVersion =
      some (matchedVersion ['0'] ['1'] ['0'] []) := by decide +kernel
  obtain rfl := Option.mem_unique hminimum hmatch
  decide +kernel

/-- A peer that was enrolled with a code blocks every upgrade, repair and rollback. -/
theorem preflight_rejects_enrolled_peer :
    saveRelay RemoteConfig.sampleLibraries configuredByPairing =
        .ok (sampleText configuredByPairing) ∧
      loadSidecarPreflight (sampleScript (relayDocument configuredByPairing))
        (some (sampleText configuredByPairing)) sampleTarget =
        .error ⟨"relay.json peers[0] has unknown field enrollmentId.",
          ⟨"relay.json", .invalid, "", ""⟩⟩ := by
  have hsave : saveRelay RemoteConfig.sampleLibraries configuredByPairing =
      .ok (sampleText configuredByPairing) :=
    saveRelay_of_valid (by decide +kernel) (by decide +kernel)
  have hinvalid : validateSidecar (sampleScript (relayDocument configuredByPairing))
      (relayDocument configuredByPairing) =
      .error "relay.json peers[0] has unknown field enrollmentId." := by decide +kernel
  have hliterals : ∀ value ∈ texts (relayDocument configuredByPairing),
      (sampleScript (relayDocument configuredByPairing)).parseLiteral (quote value) =
        .ok value := by decide +kernel
  refine ⟨hsave, ?_⟩
  rw [loadSidecarPreflight_saved hsave rfl hliterals (by decide), hinvalid]
  rfl

end AgentBell.Upgrade
