import AgentBell.Json.Text
import AgentBell.RemoteConfig.Relay

/-!
# The sidecar preflight of the npm bootstrap

Before an upgrade, a repair or a rollback the bootstrap reads `relay.json` with validators of its
own: a scan of the text for duplicate keys, the field lists of the objects, and the smallest Core
version the file asks for.  Next to them stands the document the Core writes for a relay
configuration.

`JSON.parse` is a parameter: it reads a text, and it reads one string literal.
-/

namespace AgentBell.Upgrade

open Json (Value render)

open RemoteConfig (Libraries RelayConfig PathRef ListenerTLS Listener isVersionChar dropV)

/-- What the bootstrap takes from the language; `stack` is how deep the calls of the scan for
duplicate keys can be nested. -/
structure Script where
  parse : String → Except String Value
  parseLiteral : List Char → Except String String
  stack : Nat
  text : Option Value → String
  checksum : String → String

/-! ## Versions -/

/-- The digits a text starts with, and what follows them. -/
def leadingNumber (text : List Char) : Option (List Char × List Char) :=
  if text.takeWhile Char.isDigit = [] then none
  else some (text.takeWhile Char.isDigit, text.dropWhile Char.isDigit)

/-- A text without the dot it starts with. -/
def withoutDot : List Char → Option (List Char)
  | '.' :: rest => some rest
  | _ => none

/-- Whether a part consists of identifiers with dots between them. -/
def isIdentifiers (part : List Char) : Bool :=
  (part.splitOnP fun c => c = '.').all fun identifier => identifier ≠ []

/-- The part that follows a mark, if the text starts with the mark, and what follows it. -/
def optionalPart (mark : Char) : List Char → Option (List Char × List Char)
  | [] => some ([], [])
  | c :: rest =>
    if c = mark then
      if isIdentifiers (rest.takeWhile isVersionChar) then
        some (rest.takeWhile isVersionChar, rest.dropWhile isVersionChar)
      else none
    else some ([], c :: rest)

/-- A version as the bootstrap compares it. -/
structure SemanticVersion where
  normalized : String
  core : List Nat
  prerelease : List String
  deriving DecidableEq, Repr

/-- The value of a sequence of digits. -/
def numberOf (digits : List Char) : Nat :=
  digits.foldl (fun value digit => 10 * value + (digit.toNat - '0'.toNat)) 0

/-- The version of what `sidecarSemverPattern` matches. -/
def matchedVersion (major minor patch prerelease : List Char) : SemanticVersion where
  normalized := String.ofList (major ++ '.' :: minor ++ '.' :: patch ++
    if prerelease = [] then [] else '-' :: prerelease)
  core := [numberOf major, numberOf minor, numberOf patch]
  prerelease := if prerelease = [] then []
    else (prerelease.splitOnP fun c => c = '.').map String.ofList

/-- Match a text with `sidecarSemverPattern`. -/
def matchVersion (text : String) : Option SemanticVersion := do
  let (major, rest) ← leadingNumber (dropV text.toList)
  let (minor, rest) ← leadingNumber (← withoutDot rest)
  let (patch, rest) ← leadingNumber (← withoutDot rest)
  let (prerelease, rest) ← optionalPart '-' rest
  let (_, rest) ← optionalPart '+' rest
  if rest = [] then some (matchedVersion major minor patch prerelease) else none

/-- Read a version. -/
def parseSemanticVersion (value : Option Value) (label : String) : Except String SemanticVersion :=
  match value with
  | some (.str text) =>
    match matchVersion text with
    | some version => .ok version
    | none => .error (label ++ " must be a semantic version.")
  | _ => .error (label ++ " must be a semantic version.")

/-- Compare two different identifiers of a prerelease. -/
def compareIdentifier (left right : String) : Ordering :=
  match left.toList.all Char.isDigit, right.toList.all Char.isDigit with
  | true, true =>
    if numberOf left.toList < numberOf right.toList then .lt else .gt
  | true, false => .lt
  | false, true => .gt
  | false, false => if left < right then .lt else .gt

/-- Compare two prereleases identifier by identifier. -/
def comparePrerelease : List String → List String → Ordering
  | [], [] => .eq
  | [], _ :: _ => .lt
  | _ :: _, [] => .gt
  | left :: lefts, right :: rights =>
    if left = right then comparePrerelease lefts rights else compareIdentifier left right

/-- Compare the numbers of two versions. -/
def compareCore : List Nat → List Nat → Ordering
  | left :: lefts, right :: rights =>
    if left < right then .lt else if right < left then .gt else compareCore lefts rights
  | _, _ => .eq

/-- Compare two versions.  A version without a prerelease comes after its prereleases. -/
def compareSemanticVersions (left right : SemanticVersion) : Ordering :=
  match compareCore left.core right.core with
  | .lt => .lt
  | .gt => .gt
  | .eq =>
    match left.prerelease, right.prerelease with
    | [], [] => .eq
    | [], _ :: _ => .gt
    | _ :: _, [] => .lt
    | lefts, rights => comparePrerelease lefts rights

/-! ## Duplicate keys -/

/-- Whether a character is white space to the bootstrap. -/
def isWhitespace (c : Char) : Bool :=
  c.toNat ∈ [0x9, 0xa, 0xb, 0xc, 0xd, 0x20, 0xa0, 0x1680, 0x2028, 0x2029, 0x202f, 0x205f, 0x3000,
    0xfeff] || (0x2000 ≤ c.toNat && c.toNat ≤ 0x200a)

/-- Whether a character ends a number or a word. -/
def endsToken (c : Char) : Bool := isWhitespace c || c = ',' || c = ']' || c = '\x7d'

/-- A text without the white space it starts with. -/
def skipWhitespace (text : List Char) : List Char := text.dropWhile isWhitespace

/-- The rest of a string literal, up to its closing quote, and what follows it.  The number counts
the characters of an escape that are still to be passed over. -/
def literalEnd : Nat → List Char → Option (List Char × List Char)
  | _, [] => none
  | escaped + 1, c :: rest => (literalEnd escaped rest).map fun found => (c :: found.1, found.2)
  | 0, c :: rest =>
    if c = '\\' then
      (literalEnd (if rest.head? = some 'u' then 5 else 1) rest).map fun found =>
        (c :: found.1, found.2)
    else if c = '"' then some ([c], rest)
    else (literalEnd 0 rest).map fun found => (c :: found.1, found.2)

/-- Read a string whose opening quote was passed. -/
def parseString (J : Script) (label : String) (text : List Char) :
    Except String (String × List Char) :=
  match literalEnd 0 text with
  | none => .error ("parse " ++ label ++ ": unterminated JSON string.")
  | some (literal, rest) =>
    match J.parseLiteral ('"' :: literal) with
    | .error message => .error message
    | .ok name => .ok (name, rest)

/-- What the engine throws when a call does not fit on its stack. -/
def stackMessage : String := "Maximum call stack size exceeded"

/-- The report of text after the document. -/
def trailingMessage (label : String) : String := "parse " ++ label ++ ": trailing JSON data."

/-- Step over the end of an object or an array.  At the end of the text this leads past it, which is
reported as text after the document. -/
def stepOver (label : String) : List Char → Except String (List Char)
  | [] => .error (trailingMessage label)
  | _ :: rest => .ok rest

mutual

/-- Pass over a value.  The first number is how many calls fit on the stack.  The second one bounds
the steps, each of which passes over a character, so that the length of the text is enough. -/
def parseValue (J : Script) (label : String) : Nat → Nat → List Char → Except String (List Char)
  | 0, _, _ => .error stackMessage
  | _ + 1, 0, _ => .error ""
  | stack + 1, fuel + 1, text =>
    match skipWhitespace text with
    | '\x7b' :: rest => parseFields J label stack fuel [] (skipWhitespace rest)
    | '[' :: rest => parseItems J label stack fuel (skipWhitespace rest)
    | '"' :: rest => (parseString J label rest).map Prod.snd
    | token =>
      if token.takeWhile (fun c => !endsToken c) = [] then
        .error ("parse " ++ label ++ ": invalid JSON value.")
      else .ok (token.dropWhile fun c => !endsToken c)

/-- Pass over the fields of an object, with the names seen so far. -/
def parseFields (J : Script) (label : String) :
    Nat → Nat → List String → List Char → Except String (List Char)
  | _, 0, _, _ => .error ""
  | stack, fuel + 1, seen, text =>
    match text with
    | '\x7d' :: rest => .ok rest
    | '"' :: rest =>
      match parseString J label rest with
      | .error message => .error message
      | .ok (name, rest) =>
        if seen.contains name then
          .error ("parse " ++ label ++ ": duplicate field " ++ name ++ ".")
        else
          match skipWhitespace rest with
          | ':' :: rest =>
            match parseValue J label stack fuel rest with
            | .error message => .error message
            | .ok rest =>
              match skipWhitespace rest with
              | ',' :: rest => parseFields J label stack fuel (name :: seen) (skipWhitespace rest)
              | other => stepOver label other
          | _ => .error ("parse " ++ label ++ ": missing object colon.")
    | _ => .error ("parse " ++ label ++ ": invalid object key.")

/-- Pass over the items of an array. -/
def parseItems (J : Script) (label : String) : Nat → Nat → List Char → Except String (List Char)
  | _, 0, _ => .error ""
  | stack, fuel + 1, text =>
    match text with
    | ']' :: rest => .ok rest
    | text =>
      match parseValue J label stack fuel text with
      | .error message => .error message
      | .ok rest =>
        match skipWhitespace rest with
        | ',' :: rest => parseItems J label stack fuel (skipWhitespace rest)
        | other => stepOver label other

end

/-- Reject a text in which an object has two fields of one name. -/
def rejectDuplicateJSONKeys (J : Script) (raw label : String) : Except String Unit :=
  match parseValue J label J.stack (raw.toList.length + 1) raw.toList with
  | .error message => .error message
  | .ok rest => failIf (skipWhitespace rest ≠ []) (trailingMessage label)

/-! ## Shapes -/

/-- The fields of an object. -/
abbrev Fields := List (String × Value)

/-- The value of a field. -/
def field (object : Fields) (name : String) : Option Value :=
  (object.find? fun entry => entry.1 = name).map Prod.snd

/-- Take a value as an object. -/
def assertObject (value : Option Value) (label : String) : Except String Fields :=
  match value with
  | some (.obj fields) => .ok fields
  | _ => .error (label ++ " must be an object.")

/-- Check that all names are known. -/
def assertNames (allowed : List String) (label : String) : List String → Except String Unit
  | [] => .ok ()
  | name :: names => do
    failIf (¬ allowed.contains name) (label ++ " has unknown field " ++ name ++ ".")
    assertNames allowed label names

/-- Whether a field is there and is not `null`. -/
def isPresent (object : Fields) (name : String) : Bool :=
  match field object name with
  | none => false
  | some .null => false
  | some _ => true

/-- Check that all required fields are there. -/
def assertRequired (object : Fields) (label : String) : List String → Except String Unit
  | [] => .ok ()
  | name :: names => do
    failIf (¬ isPresent object name) (label ++ " is missing required field " ++ name ++ ".")
    assertRequired object label names

/-- Take a value as an object with known and required fields. -/
def assertKnownFields (value : Option Value) (allowed : List String) (label : String)
    (required : List String := []) : Except String Fields := do
  let object ← assertObject value label
  assertNames allowed label (object.map Prod.fst)
  assertRequired object label required
  return object

/-- Check the entries of an array from an index on. -/
def forEachEntry (label : String) (callback : Value → String → Except String Unit) :
    Nat → List Value → Except String Unit
  | _, [] => .ok ()
  | index, entry :: entries => do
    callback entry (label ++ "[" ++ toString index ++ "]")
    forEachEntry label callback (index + 1) entries

/-- Check a value that must be an array, entry by entry. -/
def assertObjectArray (value : Option Value) (label : String)
    (callback : Value → String → Except String Unit) : Except String Unit :=
  match value with
  | some (.arr entries) => forEachEntry label callback 0 entries
  | _ => .error (label ++ " must be an array.")

/-- The shape of a path. -/
def validatePathRefShape (value : Value) (label : String) : Except String Unit := do
  let _ ← assertKnownFields (some value) ["platform", "value"] label
  return ()

/-- The shape of a path that may be missing. -/
def validateOptionalPath (value : Option Value) (label : String) : Except String Unit :=
  match value with
  | none => .ok ()
  | some path => validatePathRefShape path label

/-- The shape of the TLS files of a listener, which may be missing. -/
def validateTLSShape (value : Option Value) : Except String Unit :=
  match value with
  | none => .ok ()
  | some tls => do
    let tls ← assertKnownFields (some tls) ["certFile", "keyFile"] "relay.json listener.tls"
    validateOptionalPath (field tls "certFile") "relay.json listener.tls.certFile"
    validateOptionalPath (field tls "keyFile") "relay.json listener.tls.keyFile"

/-- The fields of a peer the bootstrap knows. -/
def peerFields : List String :=
  ["id", "teamId", "originId", "publicKey", "scopes", "allowedSources", "allowedRuntimes",
    "revoked"]

/-- The shape of a peer. -/
def validatePeerShape (entry : Value) (label : String) : Except String Unit := do
  let _ ← assertKnownFields (some entry) peerFields label
  return ()

/-- The shape of `relay.json`. -/
def validateRelayShape (value : Fields) : Except String Unit := do
  let listener ← assertKnownFields (field value "listener")
    ["enabled", "address", "tls", "sshTunnel"] "relay.json listener"
  validateTLSShape (field listener "tls")
  assertObjectArray (field value "peers") "relay.json peers" validatePeerShape

/-- The fields of `relay.json`. -/
def relayFields : List String := ["version", "minCoreVersion", "listener", "peers"]

/-- Whether a field is the version the bootstrap supports. -/
def isSupportedVersion : Option Value → Bool
  | some (.num version) => version = 1
  | _ => false

/-- Check a document that was read from `relay.json`. -/
def validateSidecar (J : Script) (value : Value) : Except String SemanticVersion := do
  let document ← assertKnownFields (some value) relayFields "relay.json" relayFields
  failIf (¬ isSupportedVersion (field document "version"))
    ("relay.json has unsupported sidecar version " ++ J.text (field document "version") ++ ".")
  let minimum ← parseSemanticVersion (field document "minCoreVersion") "relay.json minCoreVersion"
  validateRelayShape document
  return minimum

/-! ## The preflight -/

/-- What the preflight finds a sidecar to be. -/
inductive SidecarStatus where
  | absent
  | compatible
  | incompatible
  | invalid
  deriving DecidableEq, Repr

/-- What the preflight reports of a sidecar. -/
structure SidecarReport where
  name : String
  status : SidecarStatus
  minCoreVersion : String := ""
  checksum : String := ""
  deriving DecidableEq, Repr

/-- Why the preflight fails. -/
structure SidecarError where
  message : String
  sidecar : SidecarReport
  deriving DecidableEq, Repr

/-- The largest sidecar, in bytes. -/
def maximumSidecarBytes : Nat := 1048576

/-- The error for a file that cannot be used. -/
def invalidSidecar (message : String) : SidecarError := ⟨message, ⟨"relay.json", .invalid, "", ""⟩⟩

/-- The preflight of `relay.json` for a target version. -/
def loadSidecarPreflight (J : Script) (raw : Option String) (target : SemanticVersion) :
    Except SidecarError SidecarReport :=
  match raw with
  | none => .ok ⟨"relay.json", .absent, "", ""⟩
  | some raw =>
    if maximumSidecarBytes < raw.utf8ByteSize then
      .error (invalidSidecar "relay.json exceeds 1048576 bytes.")
    else
      match J.parse raw with
      | .error message => .error (invalidSidecar ("parse relay.json: " ++ message))
      | .ok document =>
        match rejectDuplicateJSONKeys J raw "relay.json" with
        | .error message => .error (invalidSidecar ("parse relay.json: " ++ message))
        | .ok () =>
          match validateSidecar J document with
          | .error message => .error (invalidSidecar message)
          | .ok minimum =>
            if compareSemanticVersions minimum target = .gt then
              .error ⟨"relay.json requires AgentBell Core " ++ minimum.normalized ++
                ", but rollback target is " ++ target.normalized ++ ".",
                ⟨"relay.json", .incompatible, minimum.normalized, J.checksum raw⟩⟩
            else .ok ⟨"relay.json", .compatible, minimum.normalized, J.checksum raw⟩

/-! ## What the Core writes -/

/-- A list of texts as a document. -/
def stringsDocument (values : List String) : Value := .arr (values.map .str)

/-- A path as a document. -/
def pathDocument (path : PathRef) : Value :=
  .obj [("platform", .str path.platform), ("value", .str path.value)]

/-- A field that is left out when its value is empty. -/
def omitEmpty (omitted : Bool) (name : String) (value : Value) : Fields :=
  if omitted then [] else [(name, value)]

/-- The TLS files as a field. -/
def tlsDocument : Option ListenerTLS → Fields
  | none => []
  | some tls =>
    [("tls", .obj [("certFile", pathDocument tls.certFile), ("keyFile", pathDocument tls.keyFile)])]

/-- A listener as a document. -/
def listenerDocument (listener : Listener) : Value :=
  .obj (("enabled", .bool listener.enabled) ::
    (omitEmpty (listener.address = "") "address" (.str listener.address) ++
      (tlsDocument listener.tls ++
        omitEmpty (!listener.sshTunnel) "sshTunnel" (.bool listener.sshTunnel))))

/-- A peer as a document. -/
def peerDocument (peer : RemoteConfig.Peer) : Value :=
  .obj (("id", .str peer.id) ::
    (omitEmpty (peer.enrollmentID = "") "enrollmentId" (.str peer.enrollmentID) ++
      [("teamId", .str peer.teamID), ("originId", .str peer.originID),
        ("publicKey", .str peer.publicKey), ("scopes", stringsDocument peer.scopes),
        ("allowedSources", stringsDocument peer.allowedSources),
        ("allowedRuntimes", stringsDocument peer.allowedRuntimes),
        ("revoked", .bool peer.revoked)]))

/-- The document of a configuration.  A slice that is `nil` is written as `null`. -/
def relayDocument (config : RelayConfig) : Value :=
  .obj [("version", .num config.version), ("minCoreVersion", .str config.minCoreVersion),
    ("listener", listenerDocument config.listener),
    ("peers", config.slice.elim .null fun peers => .arr (peers.map peerDocument))]

/-- Check a configuration and write it as the text of `relay.json`. -/
def saveRelay (L : Libraries) (config : RelayConfig) : Except String String := do
  config.validate L
  let encoded := String.ofList (render 0 (relayDocument config) ++ ['\n'])
  failIf (maximumSidecarBytes < encoded.utf8ByteSize) "sidecar exceeds 1048576 bytes"
  return encoded

end AgentBell.Upgrade
