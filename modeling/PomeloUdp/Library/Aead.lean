import Mathlib.Tactic.TypeStar

/-!
# Ideal authenticated encryption

A ciphertext is either what encryption returned for a key, a nonce, associated
data and a plaintext, or a string nobody encrypted, of which only the length is
known. Decryption succeeds exactly on the ciphertexts of the same key, nonce and
associated data, which is the ideal form of an AEAD: nothing but encryption
makes a ciphertext that decrypts.
-/

namespace Aead

variable {κ ν α π : Type*}

/-- A ciphertext of an AEAD with keys `κ`, nonces `ν`, associated data `α` and
plaintexts `π`. -/
inductive Sealed (κ ν α π : Type*) where
  /-- The result of encrypting. -/
  | encrypted (key : κ) (nonce : ν) (ad : α) (plain : π)
  /-- A string of the given length which no encryption returned; `tag` tells such
  strings apart. -/
  | forged (tag length : Nat)
  deriving DecidableEq

namespace Sealed

variable [DecidableEq κ] [DecidableEq ν] [DecidableEq α]

/-- Decryption. -/
def open? (key : κ) (nonce : ν) (ad : α) : Sealed κ ν α π → Option π
  | encrypted key' nonce' ad' plain =>
      if key' = key ∧ nonce' = nonce ∧ ad' = ad then some plain else none
  | forged _ _ => none

@[simp] theorem open?_encrypted_self (key : κ) (nonce : ν) (ad : α) (plain : π) :
    open? key nonce ad (encrypted key nonce ad plain) = some plain := by
  simp [open?]

@[simp] theorem open?_forged (key : κ) (nonce : ν) (ad : α) (tag length : Nat) :
    open? key nonce ad (forged tag length : Sealed κ ν α π) = none := rfl

/-- Only the ciphertext of the same key, nonce and associated data decrypts. -/
theorem open?_eq_some_iff {key : κ} {nonce : ν} {ad : α} {c : Sealed κ ν α π} {plain : π} :
    open? key nonce ad c = some plain ↔ c = encrypted key nonce ad plain := by
  cases c with
  | encrypted key' nonce' ad' plain' =>
      simp [open?, and_assoc]
  | forged tag length => simp

end Sealed

/-- The functions of an AEAD on byte strings, with keys `κ`, nonces `ν` and a tag of
the given length: decryption inverts encryption. -/
structure Cipher (κ ν : Type*) (tagBytes : Nat) where
  encrypt : (message ad : List UInt8) → (nonce : ν) → (key : κ) → List UInt8
  decrypt : (ciphertext ad : List UInt8) → (nonce : ν) → (key : κ) → Option (List UInt8)
  length_encrypt : ∀ message ad nonce key,
    (encrypt message ad nonce key).length = message.length + tagBytes
  decrypt_encrypt : ∀ message ad nonce key,
    decrypt (encrypt message ad nonce key) ad nonce key = some message

/-- The cipher that hides nothing: it appends a tag of zeros. -/
def Cipher.plain (κ ν : Type*) (tagBytes : Nat) : Cipher κ ν tagBytes where
  encrypt message _ _ _ := message ++ List.replicate tagBytes 0
  decrypt ciphertext _ _ _ := some (ciphertext.take (ciphertext.length - tagBytes))
  length_encrypt := by simp
  decrypt_encrypt := by simp

end Aead
