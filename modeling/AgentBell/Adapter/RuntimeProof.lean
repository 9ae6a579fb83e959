import AgentBell.Event
import AgentBell.Relay.Protocol

/-!
# Runtime proofs

A hook that reached the Core leaves a proof, with the generation of the active state it ran under.
A diagnosis accepts the proof for the generation that is active only.  A file that is missing or
cannot be decoded is `none`.
-/

namespace AgentBell.Adapter

open Relay (trimSpace)

/-- A recorded proof. -/
structure RuntimeProof where
  version : Int
  adapter : String
  event : String := ""
  lastSeen : Time
  bridgeProtocol : Int := 0
  coreVersion : String := ""
  activationGeneration : Nat := 0
  deriving DecidableEq, Repr

/-- What a hook says about the bridge it came through. -/
structure RuntimeProofContext where
  bridgeProtocol : Int := 0
  coreVersion : String := ""
  activationGeneration : Nat := 0
  deriving DecidableEq, Repr

/-- The adapters that record proofs. -/
def proofAdapters : List String :=
  ["codex", "claude-code", "kimi-code", "opencode", "qoder", "qoder-work", "trae"]

/-- The protocol of the stable bridge. -/
def stableBridgeProtocol : Int := 1

/-- The check of a context; without a bridge it is empty. -/
def RuntimeProofContext.validate (context : RuntimeProofContext) : Except String Unit := do
  if context.bridgeProtocol = 0 ∧ context.coreVersion = "" ∧ context.activationGeneration = 0 then
    return ()
  else do
    failIf (context.bridgeProtocol ≠ 1) "runtime proof bridge protocol must be 1"
    failIf (context.activationGeneration = 0) "runtime proof activation generation is required"
    failIf (trimSpace context.coreVersion = "" ∨ 128 < context.coreVersion.utf8ByteSize ∨
      context.coreVersion.toList.any fun c => ['\x00', '\r', '\n'].contains c)
      "runtime proof Core version is invalid"

/-- The document that is written to the file of the event and to that of the adapter. -/
def recordRuntimeProofWithContext (adapterID eventName : String) (seenAt : Time)
    (context : RuntimeProofContext) : Except String RuntimeProof := do
  failIf (¬ proofAdapters.contains adapterID) "unsupported adapter runtime proof"
  failIf (eventName = "") "runtime proof event is required"
  context.validate
  return {
    version := if context.bridgeProtocol ≠ 0 then 3 else 2
    adapter := adapterID
    event := eventName
    lastSeen := seenAt
    bridgeProtocol := context.bridgeProtocol
    coreVersion := context.coreVersion
    activationGeneration := context.activationGeneration }

/-- The check of a proof that was read; an empty event is any. -/
def readRuntimeProofPath (file : Option RuntimeProof) (adapterID eventName : String) :
    Except String RuntimeProof := do
  match file with
  | none => .error "no adapter runtime proof"
  | some proof => do
    failIf ((proof.version ≠ 1 ∧ proof.version ≠ 2 ∧ proof.version ≠ 3) ∨
      proof.adapter ≠ adapterID ∨ proof.lastSeen.isZero ∨
      (eventName ≠ "" ∧ (proof.version < 2 ∨ proof.event ≠ eventName)))
      "invalid adapter runtime proof"
    if proof.version = 3 then
      match RuntimeProofContext.validate ⟨proof.bridgeProtocol, proof.coreVersion,
          proof.activationGeneration⟩ with
      | .error _ => .error "invalid adapter runtime proof"
      | .ok () => return proof
    else do
      failIf (proof.bridgeProtocol ≠ 0 ∨ proof.coreVersion ≠ "" ∨ proof.activationGeneration ≠ 0)
        "invalid adapter runtime proof"
      return proof

/-- Whether a proof is not older than the configuration. -/
def proofAfterConfig (file : Option RuntimeProof) (adapterID eventName : String)
    (config : Option Time) : Option RuntimeProof × Bool :=
  match readRuntimeProofPath file adapterID eventName, config with
  | .error _, _ => (none, false)
  | .ok proof, none => (some proof, false)
  | .ok proof, some changed => (some proof, ¬ proof.lastSeen < changed)

/-- The diagnosis by the proof of the adapter. -/
def runtimeProofAfterConfig (file : Option RuntimeProof) (adapterID : String)
    (config : Option Time) : Option RuntimeProof × Bool :=
  proofAfterConfig file adapterID "" config

/-- The diagnosis by the proof of an event. -/
def runtimeEventProofAfterConfig (file : Option RuntimeProof) (adapterID eventName : String)
    (config : Option Time) : Option RuntimeProof × Bool :=
  proofAfterConfig file adapterID eventName config

/-- The diagnosis by the proof of an event under the active generation. -/
def runtimeEventProofAfterConfigAndGeneration (file : Option RuntimeProof)
    (adapterID eventName : String) (config : Option Time) (generation : Nat) :
    Option RuntimeProof × Bool :=
  if generation = 0 then (none, false)
  else
    let (proof, verified) := runtimeEventProofAfterConfig file adapterID eventName config
    (proof, verified && proof.any fun proof =>
      proof.version = 3 && proof.activationGeneration = generation)

/-- The diagnosis by the proof of the adapter under the active generation. -/
def runtimeProofAfterConfigAndGeneration (file : Option RuntimeProof) (adapterID : String)
    (config : Option Time) (generation : Nat) : Option RuntimeProof × Bool :=
  if generation = 0 then (none, false)
  else
    let (proof, verified) := runtimeProofAfterConfig file adapterID config
    (proof, verified && proof.any fun proof =>
      proof.version = 3 && proof.bridgeProtocol = stableBridgeProtocol &&
        proof.activationGeneration = generation)

/-! ## Acceptance -/

variable {adapterID eventName : String} {file : Option RuntimeProof} {proof : RuntimeProof}

/-- A recorded proof has the generation of its context. -/
lemma generation_of_record {seenAt : Time} {context : RuntimeProofContext}
    (h : recordRuntimeProofWithContext adapterID eventName seenAt context = .ok proof) :
    proof.activationGeneration = context.activationGeneration := by
  obtain ⟨_, -, h⟩ := bind_eq_ok.mp h
  obtain ⟨_, -, h⟩ := bind_eq_ok.mp h
  obtain ⟨_, -, h⟩ := bind_eq_ok.mp h
  cases h
  rfl

/-- What is read is what is in the file. -/
lemma file_of_read (h : readRuntimeProofPath file adapterID eventName = .ok proof) :
    file = some proof := by
  cases file with
  | none => cases h
  | some stored =>
    obtain ⟨_, -, h⟩ := bind_eq_ok.mp h
    split at h
    · split at h
      · cases h
      · cases h
        rfl
    · obtain ⟨_, -, h⟩ := bind_eq_ok.mp h
      cases h
      rfl

lemma file_of_proofAfterConfig {config : Option Time} {verified : Bool}
    (h : proofAfterConfig file adapterID eventName config = (some proof, verified)) :
    file = some proof := by
  unfold proofAfterConfig at h
  split at h
  · cases h
  · rename_i hread
    cases h
    exact file_of_read hread
  · rename_i hread
    cases h
    exact file_of_read hread

/-- A test of the proof that is accepted is one of the proof in the file. -/
lemma test_of_proofAfterConfig {config : Option Time} {test : RuntimeProof → Bool}
    (h : ((proofAfterConfig (some proof) adapterID eventName config).2 &&
      (proofAfterConfig (some proof) adapterID eventName config).1.any test) = true) :
    test proof = true := by
  cases hresult : proofAfterConfig (some proof) adapterID eventName config with
  | mk found verified =>
    rw [hresult] at h
    cases found with
    | none => simp at h
    | some stored =>
      cases file_of_proofAfterConfig hresult
      exact (Bool.and_eq_true_iff.mp h).2

/-- A proof is accepted under the generation it was recorded with only. -/
theorem generation_of_accepted {seenAt : Time} {context : RuntimeProofContext}
    {config : Option Time} {generation : Nat}
    (hrecord : recordRuntimeProofWithContext adapterID eventName seenAt context = .ok proof)
    (haccepted : (runtimeEventProofAfterConfigAndGeneration (some proof) adapterID eventName config
        generation).2 = true ∨
      (runtimeProofAfterConfigAndGeneration (some proof) adapterID config generation).2 = true) :
    context.activationGeneration = generation := by
  rw [← generation_of_record hrecord]
  rcases haccepted with h | h
  · unfold runtimeEventProofAfterConfigAndGeneration at h
    split at h
    · cases h
    · have htest := test_of_proofAfterConfig h
      exact of_decide_eq_true (Bool.and_eq_true_iff.mp htest).2
  · unfold runtimeProofAfterConfigAndGeneration at h
    split at h
    · cases h
    · have htest := test_of_proofAfterConfig h
      exact of_decide_eq_true (Bool.and_eq_true_iff.mp htest).2

end AgentBell.Adapter
