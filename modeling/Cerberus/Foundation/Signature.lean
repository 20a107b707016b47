import Mathlib

/-!
# Signature schemes

A signature scheme, as far as the code that uses it can tell: keys, signing and verification. The
one law is correctness, that a signature made with a key verifies under the public half of that key.
-/

namespace Foundation

structure SignatureScheme (Secret Public Message Signature : Type*) where
  publicKey : Secret → Public
  isKey : Public → Bool
  sign : Secret → Message → Signature
  verify : Public → Message → Signature → Bool
  isKey_publicKey : ∀ s, isKey (publicKey s) = true
  verify_sign : ∀ s m, verify (publicKey s) m (sign s m) = true

namespace SignatureScheme

def constant {Key Message : Type*} {n : ℕ} :
    SignatureScheme Key Key Message (Vector UInt8 n) where
  publicKey := id
  isKey := fun _ => true
  sign := fun _ _ => Vector.replicate n 0
  verify := fun _ _ sig => sig == Vector.replicate n 0
  isKey_publicKey := fun _ => rfl
  verify_sign := fun _ _ => beq_self_eq_true _

variable {Secret Public Message : Type*} {n : ℕ}
  (S : SignatureScheme Secret Public Message (Vector UInt8 n))

def verifyBytes (pub : Public) (msg : Message) (sig : List UInt8) : Bool :=
  if h : sig.length = n then S.verify pub msg ⟨sig.toArray, h⟩ else false

@[simp] lemma verifyBytes_sign (s : Secret) (msg : Message) :
    S.verifyBytes (S.publicKey s) msg (S.sign s msg).toList = true := by
  have hvec : (⟨(S.sign s msg).toList.toArray, by simp⟩ : Vector UInt8 n) = S.sign s msg :=
    Vector.toArray_inj.mp Array.toArray_toList
  rw [verifyBytes, dif_pos (by simp), hvec, S.verify_sign]

end SignatureScheme

end Foundation
