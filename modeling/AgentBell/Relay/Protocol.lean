import AgentBell.Event
import AgentBell.Streams.Sha256
import Mathlib.Algebra.Group.Nat.Defs

/-!
# The relay protocol

The envelope a remote host sends, the checks of `Decode` and `Validate`, the keys and digests
derived from it, and `VerifyPeer`, which decides whether a request is signed by a peer that may
send it.

What the code takes from libraries is a parameter (`Primitives`): strict JSON decoding,
SHA-256, the Ed25519 check, upper case, and the RFC 3339 form of an instant.
-/

namespace AgentBell.Relay

/-- A byte string. -/
abbrev Bytes := List UInt8

/-- The bytes of a text. -/
def utf8 (text : String) : Bytes := text.toUTF8.data.toList

/-- Where a relayed notification comes from. -/
structure Origin where
  id : String
  runtime : String
  deriving DecidableEq, Repr

/-- The keys under which a notification is delivered once. -/
structure Delivery where
  key : String
  producerKey : String
  deriving DecidableEq, Repr

/-- The envelope a remote host sends. -/
structure Envelope where
  protocolVersion : String
  teamID : String
  origin : Origin
  delivery : Delivery
  sentAt : Time
  nonce : String
  hop : Int
  event : Notification
  deriving DecidableEq, Repr

/-- A peer as the ingress knows it. -/
structure Peer where
  id : String
  teamID : String
  originID : String
  publicKey : Bytes
  scopes : List String
  allowedSources : List String
  allowedRuntimes : List String
  revoked : Bool
  deriving DecidableEq, Repr

/-- What the code takes from libraries. -/
structure Primitives where
  decodeJSON : Bytes → Except String Envelope
  sha256 : Bytes → String
  verify : Bytes → Bytes → Bytes → Bool
  upper : String → String
  formatTime : Time → String

/-- The protocol version the relay speaks. -/
def protocolVersion : String := "1"

/-- The longest body, in bytes. -/
def maxBodyBytes : Nat := 64 * 1024

/-- The largest number of hops. -/
def maxHop : Int := 4

/-- The scope a peer needs to send events. -/
def scopeIngest : String := "relay:ingest"

/-- How far the clocks may differ when nothing else is configured. -/
def defaultMaxSkew : Duration := 5 * minute

/-! ## Texts -/

/-- Whether a character is white space. -/
def isSpace (c : Char) : Bool :=
  c.val ∈ [0x9, 0xa, 0xb, 0xc, 0xd, 0x20, 0x85, 0xa0, 0x1680, 0x2028, 0x2029, 0x202f, 0x205f,
    0x3000] || (0x2000 ≤ c.val && c.val ≤ 0x200a)

/-- A text without the white space around it. -/
def trimSpace (text : String) : String :=
  String.ofList ((text.toList.dropWhile isSpace).reverse.dropWhile isSpace).reverse

lemma trimSpace_of_forall {text : String} (h : ∀ c ∈ text.toList, isSpace c = false) :
    trimSpace text = text := by
  have hdrop : ∀ chars : List Char, (∀ c ∈ chars, isSpace c = false) →
      chars.dropWhile isSpace = chars := by
    intro chars hall
    cases chars with
    | nil => rfl
    | cons c rest => rw [List.dropWhile_cons, hall c List.mem_cons_self]; rfl
  have hreverse : ∀ c ∈ text.toList.reverse, isSpace c = false :=
    fun c hc => h c (List.mem_reverse.mp hc)
  rw [trimSpace, hdrop _ h, hdrop _ hreverse, List.reverse_reverse, String.ofList_toList]

/-- Whether a text consists of the given number of lowercase hexadecimal digits. -/
def isLowerHex (length : Nat) (text : String) : Bool :=
  text.toList.length = length &&
    text.toList.all fun c => "0123456789abcdef".toList.contains c

/-- Whether a character may stand in an identifier after its first character. -/
def isIdentifierChar (c : Char) : Bool :=
  c.isAlphanum || "._:-".toList.contains c

/-- Whether a text is an identifier: a letter or digit and up to 127 more characters. -/
def isIdentifier (text : String) : Bool :=
  match text.toList with
  | [] => false
  | first :: rest => first.isAlphanum && rest.length ≤ 127 && rest.all isIdentifierChar

/-- The check of an identifier. -/
def validateIdentifier (name value : String) : Except String Unit :=
  if isIdentifier value then .ok () else .error (name ++ " is invalid")

/-- The check of a nonce. -/
def validateNonce (value : String) : Except String Unit :=
  if isLowerHex 32 value then .ok ()
  else .error "nonce must be 16 bytes encoded as lowercase hexadecimal"

/-- Whether a text is a delivery key. -/
def isDeliveryKey (value : String) : Bool :=
  match value.toList with
  | 's' :: 'h' :: 'a' :: '2' :: '5' :: '6' :: ':' :: rest => isLowerHex 64 (String.ofList rest)
  | _ => false

/-! ## Derived keys -/

/-- One field of a hash: its length in four bytes and its bytes. -/
def hashField (value : String) : Bytes :=
  let length := (utf8 value).length
  [UInt8.ofNat (length / 2 ^ 24), UInt8.ofNat (length / 2 ^ 16), UInt8.ofNat (length / 2 ^ 8),
    UInt8.ofNat length] ++ utf8 value

/-- The bytes that are hashed for a label and three fields. -/
def hashInput (label first second third : String) : Bytes :=
  utf8 label ++ hashField first ++ hashField second ++ hashField third

/-- The hash of a label and three fields. -/
def hashFields (P : Primitives) (label first second third : String) : String :=
  P.sha256 (hashInput label first second third)

/-- The delivery key of a producer's key. -/
def deriveDeliveryKey (P : Primitives) (teamID originID producerKey : String) :
    Except String String := do
  validateIdentifier "teamId" teamID
  validateIdentifier "origin.id" originID
  failIf (producerKey = "" ∨ 512 < producerKey.utf8ByteSize)
    "producer key must contain 1 to 512 bytes"
  return "sha256:" ++ hashFields P "agentbell-relay-delivery-v1" teamID originID producerKey

/-- The id of the receipt of a delivery. -/
def receiptID (P : Primitives) (teamID originID deliveryKey : String) : String :=
  hashFields P "agentbell-relay-receipt-v1" teamID originID deliveryKey

/-- The id of the receipt of a delivery. -/
abbrev Envelope.receiptID (P : Primitives) (envelope : Envelope) : String :=
  Relay.receiptID P envelope.teamID envelope.origin.id envelope.delivery.key

/-- The digest of a body. -/
def bodyDigest (P : Primitives) (exactBody : Bytes) : String :=
  "sha256:" ++ P.sha256 exactBody

/-! ## Envelopes -/

/-- The checks on an envelope. -/
def Envelope.validate (P : Primitives) (envelope : Envelope) : Except String Unit := do
  failIf (envelope.protocolVersion ≠ Relay.protocolVersion)
    ("unsupported relay protocol version " ++ quoted envelope.protocolVersion)
  validateIdentifier "teamId" envelope.teamID
  validateIdentifier "origin.id" envelope.origin.id
  failIf (¬ Event.isKnownRuntime envelope.origin.runtime)
    ("unsupported origin runtime " ++ quoted envelope.origin.runtime)
  failIf (envelope.origin.runtime ≠ envelope.event.runtime)
    "origin runtime does not match event runtime"
  failIf (envelope.delivery.producerKey = "" ∨ 512 < envelope.delivery.producerKey.utf8ByteSize)
    "delivery producerKey must contain 1 to 512 bytes"
  let expected ← deriveDeliveryKey P envelope.teamID envelope.origin.id
    envelope.delivery.producerKey
  failIf (¬ isDeliveryKey envelope.delivery.key ∨ envelope.delivery.key ≠ expected)
    "delivery key does not match team, origin and producer key"
  failIf (envelope.delivery.producerKey ≠ envelope.event.idempotencyKey)
    "delivery producerKey does not match event idempotencyKey"
  failIf envelope.sentAt.isZero "sentAt is required"
  validateNonce envelope.nonce
  failIf (envelope.hop < 0 ∨ maxHop < envelope.hop) "hop must be between 0 and 4"
  match envelope.event.validate with
  | .error message => throw ("invalid relay event: " ++ message)
  | .ok () => return ()

/-- Decode and check a body. -/
def decode (P : Primitives) (body : Bytes) : Except String Envelope := do
  failIf (body.length = 0) "relay envelope is empty"
  failIf (maxBodyBytes < body.length) "relay envelope exceeds 65536 bytes"
  let envelope ← P.decodeJSON body
  envelope.validate P
  return envelope

/-- An identifier is not empty. -/
lemma ne_empty_of_validateIdentifier {name value : String}
    (h : validateIdentifier name value = .ok ()) : value ≠ "" := by
  rintro rfl
  simp [validateIdentifier, isIdentifier] at h

/-- What a decoded envelope has passed, as far as it is used later. -/
structure Envelope.Sane (envelope : Envelope) : Prop where
  teamID : envelope.teamID ≠ ""
  originID : envelope.origin.id ≠ ""
  deliveryKey : envelope.delivery.key ≠ ""
  event : envelope.event.validate = .ok ()

/-- A decoded envelope has passed its checks. -/
lemma sane_of_decode {P : Primitives} {body : Bytes} {envelope : Envelope}
    (h : decode P body = .ok envelope) : envelope.Sane := by
  simp only [decode, bind_eq_ok] at h
  obtain ⟨-, -, -, -, decoded, -, ⟨⟩, hvalid, ⟨⟩⟩ := h
  simp only [Envelope.validate, bind_eq_ok, failIf_eq_ok, not_or, not_not] at hvalid
  obtain ⟨-, -, ⟨⟩, hteam, ⟨⟩, horigin, -, -, -, -, -, -, expected, -, ⟨⟩, ⟨hkey, -⟩, -, -, -, -,
    -, -, -, -, hevent⟩ := hvalid
  refine ⟨ne_empty_of_validateIdentifier hteam, ne_empty_of_validateIdentifier horigin, ?_, ?_⟩
  · intro hempty
    rw [hempty] at hkey
    simp [isDeliveryKey] at hkey
  · split at hevent
    · cases hevent
    · assumption

/-! ## Signatures -/

/-- Whether a text has a character that would break the lines of the signed material. -/
def breaksLine (text : String) : Bool :=
  text.toList.any fun c => c = '\x00' || c = '\r' || c = '\n'

/-- The bytes a request is signed over. -/
def signingMaterial (P : Primitives) (method target : String) (sentAt : Time) (nonce : String)
    (exactBody : Bytes) : Except String Bytes := do
  let method := P.upper (trimSpace method)
  failIf (method = "" ∨ breaksLine method) "signature method is invalid"
  failIf (target = "" ∨ 2048 < target.utf8ByteSize ∨ breaksLine target)
    "signature target is invalid"
  failIf sentAt.isZero "signature sentAt is required"
  validateNonce nonce
  failIf (exactBody.length = 0 ∨ maxBodyBytes < exactBody.length)
    "signature body must contain 1 to 65536 bytes"
  return utf8 (String.intercalate "\n"
    ["AGENTBELL-RELAY-SIGNATURE-V1", method, target, P.formatTime sentAt, nonce,
      P.sha256 exactBody])

/-- The check of a signature. -/
def verify (P : Primitives) (publicKey : Bytes) (method target : String) (sentAt : Time)
    (nonce : String) (exactBody signature : Bytes) : Except String Unit := do
  failIf (publicKey.length ≠ 32) "invalid Ed25519 public key"
  failIf (signature.length ≠ 64) "invalid Ed25519 signature"
  let material ← signingMaterial P method target sentAt nonce exactBody
  failIf (¬ P.verify publicKey material signature) "relay signature verification failed"

/-- Check the values of a list one after the other. -/
def validateEach (check : String → Except String Unit) : List String → Except String Unit
  | [] => .ok ()
  | value :: rest =>
    match check value with
    | .error message => .error message
    | .ok () => validateEach check rest

/-- The checks on a peer. -/
def Peer.validate (peer : Peer) : Except String Unit := do
  validateIdentifier "peer id" peer.id
  validateIdentifier "peer teamId" peer.teamID
  validateIdentifier "peer originId" peer.originID
  failIf (peer.publicKey.length ≠ 32) "relay peer has invalid Ed25519 public key"
  failIf (peer.scopes = []) "relay peer requires at least one scope"
  validateEach (validateIdentifier "peer scope") peer.scopes
  failIf (peer.allowedSources = [] ∨ peer.allowedRuntimes = [])
    "relay peer source and runtime allowlists cannot be empty"
  validateEach
    (fun source => if Event.isKnownSource source then .ok ()
      else .error ("relay peer has unsupported source " ++ quoted source))
    peer.allowedSources
  validateEach
    (fun runtime => if Event.isKnownRuntime runtime then .ok ()
      else .error ("relay peer has unsupported runtime " ++ quoted runtime))
    peer.allowedRuntimes

/-- Decide whether a peer may send a request, and decode its body. -/
def verifyPeer (P : Primitives) (peer : Peer) (requiredScope method target : String)
    (exactBody signature : Bytes) (now : Time) (maxSkew : Duration) : Except String Envelope := do
  let envelope ← decode P exactBody
  peer.validate
  failIf peer.revoked "relay peer is revoked"
  failIf (requiredScope = "" ∨ ¬ peer.scopes.contains requiredScope)
    ("relay peer lacks scope " ++ quoted requiredScope)
  failIf (peer.teamID ≠ envelope.teamID) "relay peer team does not match envelope"
  failIf (peer.originID ≠ envelope.origin.id) "relay peer origin does not match envelope"
  failIf (¬ peer.allowedSources.contains envelope.event.source)
    ("relay peer cannot submit source " ++ quoted envelope.event.source)
  failIf (¬ peer.allowedRuntimes.contains envelope.event.runtime)
    ("relay peer cannot submit runtime " ++ quoted envelope.event.runtime)
  failIf now.isZero "verification time is required"
  let maxSkew := if maxSkew ≤ 0 then defaultMaxSkew else maxSkew
  failIf (envelope.sentAt < now - maxSkew) "relay envelope timestamp is expired"
  failIf (now + maxSkew < envelope.sentAt) "relay envelope timestamp is too far in the future"
  verify P peer.publicKey method target envelope.sentAt envelope.nonce exactBody signature
  return envelope

/-- Libraries for sample runs, with SHA-256 as it is.  A signature stands for an Ed25519 one: it
repeats the key and the end of the message. -/
def hashingPrimitives : Primitives where
  decodeJSON := fun _ => .error "no relay envelope"
  sha256 := Streams.Sha256.hash
  verify := fun key message signature => signature = key ++ message.drop (message.length - 32)
  upper := fun text => String.ofList (text.toList.map Char.toUpper)
  formatTime := fun t => toString t

end AgentBell.Relay
