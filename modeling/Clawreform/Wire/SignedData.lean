import Clawreform.Lib.Infix
import Clawreform.Lib.Utf8
import Clawreform.Wire.Peer

namespace Clawreform.Wire.SignedData

open Clawreform.Lib.Text Clawreform.Lib.Infix

section Signing

/-- The bytes a handshake signs. -/
def signedBytes (nonce nodeId : Str) : List UInt8 := Lib.Utf8.encode (nonce ++ nodeId)

/-- Handshakes with these nonces are told apart by what they sign: by the bytes, and for a hash
without collisions by the signature. -/
structure ToldApart (nonce nonce' : Str) : Prop where
  bytes : ∀ nodeId nodeId', signedBytes nonce nodeId = signedBytes nonce' nodeId' →
    nonce = nonce' ∧ nodeId = nodeId'
  signature : ∀ (hmacSign : Hmac) (secret : Str), Function.Injective (hmacSign secret) →
    ∀ nodeId nodeId' mac, hmacVerify hmacSign secret (nonce ++ nodeId) mac = true →
      hmacVerify hmacSign secret (nonce' ++ nodeId') mac = true →
      nonce = nonce' ∧ nodeId = nodeId'

theorem signedBytes_eq_iff {nonce nonce' nodeId nodeId' : Str} :
    signedBytes nonce nodeId = signedBytes nonce' nodeId' ↔ nonce ++ nodeId = nonce' ++ nodeId' :=
  ⟨Lib.Utf8.encode_injective, fun h => congrArg Lib.Utf8.encode h⟩

/-- Two nonces are told apart when neither is the beginning of a longer other one. -/
theorem toldApart_iff (nonce nonce' : Str) : ToldApart nonce nonce' ↔
    (nonce <+: nonce' ∨ nonce' <+: nonce → nonce = nonce') := by
  rw [← append_inj_iff]
  constructor
  · intro h nodeId nodeId' heq
    exact h.bytes nodeId nodeId' (signedBytes_eq_iff.mpr heq)
  · intro h
    refine ⟨fun nodeId nodeId' heq => h nodeId nodeId' (signedBytes_eq_iff.mp heq), ?_⟩
    intro hmacSign secret hinj nodeId nodeId' mac hmac hmac'
    have hsame : hmacSign secret (nonce ++ nodeId) = hmacSign secret (nonce' ++ nodeId') :=
      (of_decide_eq_true hmac).trans (of_decide_eq_true hmac').symm
    exact h nodeId nodeId' (hinj hsame)

/-- A signature made for one node is accepted for another one whose name ends the same, whatever
the secret and the hash are. -/
theorem signature_reused : signedBytes ['7', 'a'] ['b'] = signedBytes ['7'] ['a', 'b'] ∧
    (∀ (hmacSign : Hmac) (config : PeerConfig) (agents : List RemoteAgentInfo),
      let mac := hmacSign config.sharedSecret (['7', 'a'] ++ ['b'])
      Introduces hmacSign config
        ⟨['m'], .request (.handshake ['b'] ['n'] protocolVersion agents ['7', 'a'] mac)⟩ ['b'] ∧
      Introduces hmacSign config
        ⟨['m'], .request (.handshake ['a', 'b'] ['n'] protocolVersion agents ['7'] mac)⟩
        ['a', 'b']) ∧
    ¬ ∀ nonce nonce' nodeId nodeId', signedBytes nonce nodeId = signedBytes nonce' nodeId' →
      nonce = nonce' ∧ nodeId = nodeId' := by
  refine ⟨rfl, fun hmacSign config agents => ?_, fun h => ?_⟩
  · exact ⟨⟨_, _, _, _, rfl, decide_eq_true rfl⟩, ⟨_, _, _, _, rfl, decide_eq_true rfl⟩⟩
  · have hnonce := (h ['7', 'a'] ['7'] ['b'] ['a', 'b'] rfl).1
    revert hnonce
    decide

end Signing

end Clawreform.Wire.SignedData
