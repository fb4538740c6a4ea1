/-
Module: GitZero.ControlPlane.ManagedSecrets
Purpose: How the value of a managed secret is encrypted under its binding and decrypted.
Trusted boundary: AES-GCM, a parameter that is assumed to be a correct AEAD
Main exports: JsString, SecretBinding, Aead, secretAdditionalData, encryptManagedSecret,
  decryptManagedSecret
-/
import GitZero.ControlPlane.EventChunks
import GitZero.Lib.Base64

namespace GitZero.ControlPlane

open Base64

def maxManagedSecretBytes : Nat := 48 * 1024

abbrev Bytes := List UInt8

/-- A string of JavaScript, read from left to right: a high and a low surrogate side by side
are one scalar value. -/
@[ext]
structure JsString where
  chars : List JsChar
  wellFormed : ∀ char ∈ chars, char.WellFormed
  unpaired : ∀ high low, [JsChar.lone high, JsChar.lone low] <:+: chars →
    ¬ (Utf16.isHigh high = true ∧ Utf16.isLow low = true)

def JsString.ofScalars (text : List Char) : JsString where
  chars := text.map .scalar
  wellFormed char member := by
    obtain ⟨scalar, _, rfl⟩ := List.mem_map.mp member
    trivial
  unpaired high low inside := by
    have member := inside.subset List.mem_cons_self
    obtain ⟨scalar, _, impossible⟩ := List.mem_map.mp member
    cases impossible

/-! ### Text as bytes -/

/-- An unpaired surrogate becomes U+FFFD. -/
def JsChar.scalarValue : JsChar → Char
  | .scalar char => char
  | .lone _ => Utf16.replacement

/-- `new TextEncoder().encode(value)` for the scalar values of a string -/
def encodeUtf8 (text : List Char) : Bytes := text.flatMap String.utf8EncodeChar

def JsString.encode (value : JsString) : Bytes := encodeUtf8 (value.chars.map JsChar.scalarValue)

def byteOrderMark : Char := '\uFEFF'

def stripByteOrderMark : List Char → List Char
  | [] => []
  | first :: rest => if first = byteOrderMark then rest else first :: rest

/-- `new TextDecoder("utf-8", { fatal: true, ignoreBOM: false }).decode(bytes)`; `none` where it
throws. -/
def decodeUtf8 (bytes : Bytes) : Option JsString :=
  (ByteArray.mk bytes.toArray).utf8Decode?.map fun text =>
    .ofScalars (stripByteOrderMark text.toList)

/-- The check of a secret's value in `managedSecretInputSchema`. -/
def acceptsSecretValue (value : JsString) : Bool := value.encode.length ≤ maxManagedSecretBytes

/-! ### Encryption -/

/-- The column `scope`. -/
inductive ManagedSecretScope where
  | organization
  | repository
  | environment
deriving Repr, DecidableEq

def ManagedSecretScope.text : ManagedSecretScope → String
  | .organization => "organization"
  | .repository => "repository"
  | .environment => "environment"

/-- What the ciphertext of a secret is bound to by its additional data. -/
structure SecretBinding where
  workspaceId : JsString
  scope : ManagedSecretScope
  owner : JsString
  repository : JsString
  environment : JsString
  name : JsString

/-- Ciphertext and nonce as they are stored, in Base64. -/
structure EncryptedSecret where
  ciphertext : List Char
  nonce : List Char

/-- `crypto.subtle` with AES-GCM: what is encrypted is decrypted under the same key, nonce and
additional data, and refused under other additional data. -/
structure Aead where
  Key : Type
  encrypt : Key → Bytes → Bytes → Bytes → Bytes
  decrypt : Key → Bytes → Bytes → Bytes → Option Bytes
  correct : ∀ key iv additionalData plaintext,
    decrypt key iv additionalData (encrypt key iv additionalData plaintext) = some plaintext
  authentic : ∀ key iv additionalData other plaintext, additionalData ≠ other →
    decrypt key iv other (encrypt key iv additionalData plaintext) = none

def jsonLiteral (text : String) : Json := .string (text.toList.map .scalar)

def jsonOne : Json := .number { text := ['1'], ascii := Utf16.plain_of_all (by decide) }

/-- The binding as the text of a JSON array. -/
def secretAdditionalData (binding : SecretBinding) : Bytes :=
  encodeUtf8 (Json.array [jsonLiteral "gitzero-managed-secret", jsonOne,
    .string binding.workspaceId.chars, jsonLiteral binding.scope.text,
    .string binding.owner.chars, .string binding.repository.chars,
    .string binding.environment.chars, .string binding.name.chars]).stringify

section Cipher

variable (aes : Aead)

/-- The nonce is random. -/
def encryptManagedSecret (key : aes.Key) (binding : SecretBinding) (nonce : Bytes)
    (plaintext : JsString) : EncryptedSecret where
  ciphertext := btoa (aes.encrypt key nonce (secretAdditionalData binding) plaintext.encode)
  nonce := btoa nonce

/-- `none` where the function throws. -/
def decryptManagedSecret (key : aes.Key) (binding : SecretBinding) (encrypted : EncryptedSecret) :
    Option JsString := do
  let nonce ← atob encrypted.nonce
  let ciphertext ← atob encrypted.ciphertext
  let plaintext ← aes.decrypt key nonce (secretAdditionalData binding) ciphertext
  decodeUtf8 plaintext

end Cipher

end GitZero.ControlPlane
