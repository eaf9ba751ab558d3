/-
# The ratchet's primitives, symbolically

The `CryptoSuite` whose keys are the terms of `DolevYao`.  It satisfies what the
agreement of the ratchet asks of its primitives, so it serves as a concrete instance,
and it is the suite in which forging is defined.
-/
import Ephemera.DolevYao
import Ephemera.Ratchet

open DolevYao

/-- The symbolic primitives. -/
abbrev symbolicSuite : CryptoSuite where
  Key := Term
  Secret := Name
  Public := PublicKey
  Nonce := ℕ
  Sealed := Ciphertext
  decPublic := inferInstance
  zeroKey := .zero
  publicOf := .of
  diffieHellman := Term.agree
  hkdfSha256 := fun ikm info => .kdf (.ofList ikm) info
  sealBytes := fun key nonce plaintext => .ok (.enc key nonce plaintext)
  openBytes := fun key c =>
    match c.open? key with
    | some p => .ok p
    | none => .error "XChaCha20-Poly1305 decryption failed: aead::Error"

namespace SymbolicSuite

/-- The secrets that `X25519KeyPair::generate` draws in a run. -/
def honestSecret (i : ℕ) : symbolicSuite.Secret := Name.honest i

theorem publicOf_honestSecret_injective {i j : ℕ}
    (h : symbolicSuite.publicOf (honestSecret i) = symbolicSuite.publicOf (honestSecret j)) :
    i = j := by
  have hn : PublicKey.of (.honest i) = PublicKey.of (.honest j) := h
  simpa using hn

/-- A ciphertext opens exactly when it was sealed under the key. -/
theorem openBytes_eq_ok {key : symbolicSuite.Key} {c : symbolicSuite.Sealed} {p : List UInt8} :
    symbolicSuite.openBytes key c = .ok p ↔ ∃ n, c = Ciphertext.enc key n p := by
  rw [← Ciphertext.open?_eq_some]
  show (match Ciphertext.open? key c with
    | some p => Except.ok p
    | none => .error _) = .ok p ↔ Ciphertext.open? key c = some p
  cases Ciphertext.open? key c <;> simp

end SymbolicSuite
