import AgentBell.Json.GoString
import AgentBell.Relay.Ingress
import AgentBell.Streams.Text

/-!
# What is signed and what is hashed

The bytes a request is signed over, and the bytes that the delivery key, the receipt id and the path
of a nonce record are hashes of.  Each of these encodings can be taken apart again: the lines of the
signed material by the line breaks their checks exclude, the fields of a hash by their lengths, and
a peer and its nonce by the zero byte between them.  The method of a request is signed in its
normalised form, so it is known up to blanks around it and to case only.
-/

namespace AgentBell.Relay

open Streams (append_cons_inj_left sized sized_append_inj textBytes textBytes_injective)

/-- The method as it is signed. -/
def normalizedMethod (P : Primitives) (method : String) : String := P.upper (trimSpace method)

/-- What is assumed about the libraries: SHA-256 has no collisions, and the RFC 3339 form of an
instant is one line that tells the instant. -/
structure Primitives.Faithful (P : Primitives) : Prop where
  sha256 : Function.Injective P.sha256
  instant : Function.Injective P.formatTime
  line : ∀ t, '\n' ∉ (P.formatTime t).toList

/-! ## Signed material -/

section Signed

variable {P : Primitives} {method method' target target' nonce nonce' : String}
  {sentAt sentAt' : Time} {body body' material : Bytes}

lemma newline_of_breaksLine {text : String} (h : ¬ breaksLine text = true) :
    '\n' ∉ text.toList := by
  intro hmem
  refine h (List.any_eq_true.mpr ⟨'\n', hmem, ?_⟩)
  decide

lemma newline_of_isLowerHex {length : Nat} {text : String} (h : isLowerHex length text = true) :
    '\n' ∉ text.toList := by
  intro hmem
  have hall := (Bool.and_eq_true_iff.mp h).2
  exact absurd (List.all_eq_true.mp hall '\n' hmem) (by decide +kernel)

/-- The lines of a text that starts with a line and goes on. -/
lemma lines_inj {line line' rest rest' : String} (hline : '\n' ∉ line.toList)
    (hline' : '\n' ∉ line'.toList) (h : line ++ "\n" ++ rest = line' ++ "\n" ++ rest') :
    line = line' ∧ rest = rest' := by
  have hchars := congrArg String.toList h
  simp only [String.toList_append, List.append_assoc] at hchars
  obtain ⟨hfirst, hrest⟩ := append_cons_inj_left hline hline' hchars
  exact ⟨String.toList_inj.mp hfirst, String.toList_inj.mp hrest⟩

/-- What the checks of signed material find out, and the material. -/
lemma signingMaterial_inv (h : signingMaterial P method target sentAt nonce body = .ok material) :
    '\n' ∉ (normalizedMethod P method).toList ∧ '\n' ∉ target.toList ∧ '\n' ∉ nonce.toList ∧
      material = utf8 ("AGENTBELL-RELAY-SIGNATURE-V1" ++ "\n" ++
        (normalizedMethod P method ++ "\n" ++ (target ++ "\n" ++
          (P.formatTime sentAt ++ "\n" ++ (nonce ++ "\n" ++ P.sha256 body))))) := by
  simp only [signingMaterial, bind_eq_ok, failIf_eq_ok, not_or] at h
  obtain ⟨_, hmethod, _, htarget, _, -, _, hnonce, _, -, h⟩ := h
  refine ⟨newline_of_breaksLine hmethod.2, newline_of_breaksLine htarget.2.2, ?_, ?_⟩
  · unfold validateNonce at hnonce
    split at hnonce
    · rename_i hhex
      exact newline_of_isLowerHex hhex
    · cases hnonce
  · rw [← Except.ok.inj h]
    simp only [String.intercalate_cons_cons, String.intercalate_singleton, normalizedMethod]

/-- Requests with the same signed material are the same, up to the form of the method. -/
lemma signingMaterial_inj (hP : P.Faithful)
    (h : signingMaterial P method target sentAt nonce body = .ok material)
    (h' : signingMaterial P method' target' sentAt' nonce' body' = .ok material) :
    normalizedMethod P method = normalizedMethod P method' ∧ target = target' ∧
      sentAt = sentAt' ∧ nonce = nonce' ∧ body = body' := by
  obtain ⟨hmethod, htarget, hnonce, hmaterial⟩ := signingMaterial_inv h
  obtain ⟨hmethod', htarget', hnonce', hmaterial'⟩ := signingMaterial_inv h'
  have htext := textBytes_injective (hmaterial.symm.trans hmaterial')
  obtain ⟨-, htext⟩ := lines_inj (by decide +kernel) (by decide +kernel) htext
  obtain ⟨heqMethod, htext⟩ := lines_inj hmethod hmethod' htext
  obtain ⟨heqTarget, htext⟩ := lines_inj htarget htarget' htext
  obtain ⟨heqTime, htext⟩ := lines_inj (hP.line sentAt) (hP.line sentAt') htext
  obtain ⟨heqNonce, heqDigest⟩ := lines_inj hnonce hnonce' htext
  exact ⟨heqMethod, heqTarget, hP.instant heqTime, heqNonce, hP.sha256 heqDigest⟩

end Signed

/-! ## Hashed fields -/

section Hashed

variable {P : Primitives} {label a b c a' b' c' key : String}

/-- A text short enough for a length of four bytes. -/
def Short (text : String) : Prop := text.utf8ByteSize < 2 ^ 32

lemma hashInput_inj (ha : Short a) (hb : Short b) (hc : Short c) (ha' : Short a') (hb' : Short b')
    (hc' : Short c') (h : hashInput label a b c = hashInput label a' b' c') :
    a = a' ∧ b = b' ∧ c = c' := by
  have hbytes : sized (textBytes a) ++ (sized (textBytes b) ++ (sized (textBytes c) ++ [])) =
      sized (textBytes a') ++ (sized (textBytes b') ++ (sized (textBytes c') ++ [])) := by
    simp only [hashInput, List.append_assoc] at h
    rw [List.append_nil, List.append_nil]
    exact List.append_cancel_left h
  obtain ⟨hfirst, hbytes⟩ := sized_append_inj ha ha' hbytes
  obtain ⟨hsecond, hbytes⟩ := sized_append_inj hb hb' hbytes
  obtain ⟨hthird, -⟩ := sized_append_inj hc hc' hbytes
  exact ⟨textBytes_injective hfirst, textBytes_injective hsecond, textBytes_injective hthird⟩

lemma isIdentifier_of_validate {name value : String} (h : validateIdentifier name value = .ok ()) :
    isIdentifier value = true := by
  unfold validateIdentifier at h
  split at h
  · assumption
  · cases h

lemma short_of_isIdentifier {value : String} (h : isIdentifier value = true) : Short value := by
  have hlength : value.length ≤ 128 := by
    rw [← String.length_toList]
    unfold isIdentifier at h
    split at h
    · cases h
    · rename_i first rest hchars
      rw [hchars, List.length_cons]
      simp only [Bool.and_eq_true, decide_eq_true_eq] at h
      omega
  have hsize := Json.utf8ByteSize_le value
  unfold Short
  omega

/-- The parts of a delivery key that is derived are short. -/
lemma short_of_deriveDeliveryKey (h : deriveDeliveryKey P a b c = .ok key) :
    Short a ∧ Short b ∧ Short c := by
  simp only [deriveDeliveryKey, bind_eq_ok, failIf_eq_ok, not_or, Nat.not_lt] at h
  obtain ⟨_, hteam, _, horigin, _, hproducer, -⟩ := h
  refine ⟨short_of_isIdentifier (isIdentifier_of_validate hteam),
    short_of_isIdentifier (isIdentifier_of_validate horigin), ?_⟩
  have hsize := hproducer.2
  unfold Short
  omega

/-- An identifier has no zero byte. -/
lemma zero_of_isIdentifier {value : String} (h : isIdentifier value = true) :
    '\x00' ∉ value.toList := by
  intro hmem
  unfold isIdentifier at h
  split at h
  · cases h
  · rename_i first rest hchars
    rw [hchars] at hmem
    simp only [Bool.and_eq_true] at h
    rcases List.mem_cons.mp hmem with rfl | hrest
    · exact absurd h.1.1 (by decide)
    · exact absurd (List.all_eq_true.mp h.2 '\x00' hrest) (by decide +kernel)

lemma nonceInput_inj {peerID peerID' nonce nonce' : String} (hpeer : isIdentifier peerID = true)
    (hpeer' : isIdentifier peerID' = true)
    (h : nonceInput peerID nonce = nonceInput peerID' nonce') :
    peerID = peerID' ∧ nonce = nonce' := by
  have htext := congrArg String.toList (textBytes_injective h)
  simp only [String.toList_append, List.append_assoc] at htext
  obtain ⟨hfirst, hrest⟩ := append_cons_inj_left (zero_of_isIdentifier hpeer)
    (zero_of_isIdentifier hpeer') htext
  exact ⟨String.toList_inj.mp hfirst, String.toList_inj.mp hrest⟩

end Hashed

/-! ## One request cannot stand for another -/

/-- The signed material of a request tells the normalised method, the target, the instant, the nonce
and the body. -/
def MaterialTells (P : Primitives) : Prop :=
  ∀ method target sentAt nonce body method' target' sentAt' nonce' body' material,
    signingMaterial P method target sentAt nonce body = .ok material →
    signingMaterial P method' target' sentAt' nonce' body' = .ok material →
      normalizedMethod P method = normalizedMethod P method' ∧ target = target' ∧
        sentAt = sentAt' ∧ nonce = nonce' ∧ body = body'

/-- What the delivery key is a hash of tells its three parts. -/
def DeliveryTells (P : Primitives) : Prop :=
  ∀ team origin producer team' origin' producer' key key',
    deriveDeliveryKey P team origin producer = .ok key →
    deriveDeliveryKey P team' origin' producer' = .ok key' →
    hashInput "agentbell-relay-delivery-v1" team origin producer =
      hashInput "agentbell-relay-delivery-v1" team' origin' producer' →
      team = team' ∧ origin = origin' ∧ producer = producer'

/-- What the receipt id is a hash of tells its three parts. -/
def ReceiptTells : Prop :=
  ∀ team origin key team' origin' key', Short team → Short origin → Short key → Short team' →
    Short origin' → Short key' →
    hashInput "agentbell-relay-receipt-v1" team origin key =
      hashInput "agentbell-relay-receipt-v1" team' origin' key' →
      team = team' ∧ origin = origin' ∧ key = key'

/-- What the path of a nonce record is a hash of tells the peer and the nonce. -/
def NonceTells : Prop :=
  ∀ peerID nonce peerID' nonce' retention now now',
    checkNonce peerID nonce retention now = .ok () →
    checkNonce peerID' nonce' retention now' = .ok () →
    nonceInput peerID nonce = nonceInput peerID' nonce' → peerID = peerID' ∧ nonce = nonce'

lemma isIdentifier_of_checkNonce {peerID nonce : String} {retention : Duration} {now : Time}
    (h : checkNonce peerID nonce retention now = .ok ()) : isIdentifier peerID = true := by
  unfold checkNonce at h
  split at h
  · cases h
  · rename_i hpeer
    exact isIdentifier_of_validate hpeer

/-- Neither signed material nor what a delivery key, a receipt id or the path of a nonce record is a
hash of can come from two different requests. -/
theorem encodings_tell_requests {P : Primitives} (hP : P.Faithful) :
    MaterialTells P ∧ DeliveryTells P ∧ ReceiptTells ∧ NonceTells := by
  refine ⟨?_, ?_, ?_, ?_⟩
  · intro method target sentAt nonce body method' target' sentAt' nonce' body' material h h'
    exact signingMaterial_inj hP h h'
  · intro team origin producer team' origin' producer' key key' h h' hinput
    obtain ⟨hteam, horigin, hproducer⟩ := short_of_deriveDeliveryKey h
    obtain ⟨hteam', horigin', hproducer'⟩ := short_of_deriveDeliveryKey h'
    exact hashInput_inj hteam horigin hproducer hteam' horigin' hproducer' hinput
  · intro team origin key team' origin' key' hteam horigin hkey hteam' horigin' hkey' hinput
    exact hashInput_inj hteam horigin hkey hteam' horigin' hkey' hinput
  · intro peerID nonce peerID' nonce' retention now now' h h' hinput
    exact nonceInput_inj (isIdentifier_of_checkNonce h) (isIdentifier_of_checkNonce h') hinput

/-- Sample libraries that spell out what they hash and count the nanoseconds of an instant. -/
def spellingPrimitives : Primitives :=
  { hashingPrimitives with
    sha256 := Streams.spell
    formatTime := fun t =>
      String.ofList (List.replicate t.toNat '+' ++ List.replicate (-t).toNat '-') }

lemma spellingPrimitives_faithful : spellingPrimitives.Faithful := by
  refine ⟨Streams.spell_injective, ?_, ?_⟩
  · intro t t' h
    have hchars := congrArg String.toList h
    simp only [spellingPrimitives, String.toList_ofList] at hchars
    have hplus := congrArg (List.count '+') hchars
    have hminus := congrArg (List.count '-') hchars
    rw [List.count_append, List.count_append] at hplus hminus
    simp only [List.count_replicate, Char.reduceBEq, if_true, Bool.false_eq_true, if_false]
      at hplus hminus
    have hsame : @Eq Int t t' := by omega
    exact hsame
  · intro t
    simp only [spellingPrimitives, String.toList_ofList, List.mem_append, not_or]
    exact ⟨fun h => absurd (List.eq_of_mem_replicate h) (by decide),
      fun h => absurd (List.eq_of_mem_replicate h) (by decide)⟩

theorem encodings_tell_spelled_requests :
    MaterialTells spellingPrimitives ∧ DeliveryTells spellingPrimitives ∧ ReceiptTells ∧
      NonceTells :=
  encodings_tell_requests spellingPrimitives_faithful

/-- A request with another spelling of its method is signed over the same bytes. -/
theorem method_spelling_unsigned : "post" ≠ "POST" ∧
      signingMaterial spellingPrimitives "post" "/relay" 1 "00112233445566778899aabbccddeeff" [1] =
        signingMaterial spellingPrimitives "POST" "/relay" 1 "00112233445566778899aabbccddeeff"
          [1] ∧
      (signingMaterial spellingPrimitives "POST" "/relay" 1 "00112233445566778899aabbccddeeff"
        [1]).isOk = true := by
  refine ⟨by decide, by decide +kernel, by decide +kernel⟩

end AgentBell.Relay
