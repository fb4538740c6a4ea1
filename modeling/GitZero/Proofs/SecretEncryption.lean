/-
Module: GitZero.Proofs.SecretEncryption
Purpose: When a managed secret is decrypted to the value that was encrypted, and that it is
  decrypted under no other binding.
Trusted boundary: AES-GCM, as `Aead` describes it
Main exports: secretAdditionalData_injective, SecretKept, secret_kept_iff
-/
import GitZero.ControlPlane.ManagedSecrets
import GitZero.Proofs.JsonTexts

namespace GitZero.ControlPlane

open Base64

/-! ### Text as bytes -/

theorem decode_encodeUtf8 (text : List Char) :
    (ByteArray.mk (encodeUtf8 text).toArray).utf8Decode? = some text.toArray := by
  have whole : ByteArray.mk (encodeUtf8 text).toArray = text.utf8Encode := by
    rw [List.utf8Encode, ← encodeUtf8, ← List.data_toByteArray]
  rw [whole, List.utf8Decode?_utf8Encode]

theorem encodeUtf8_injective : Function.Injective encodeUtf8 := by
  intro left right same
  have read := decode_encodeUtf8 left
  rw [same, decode_encodeUtf8, Option.some.injEq] at read
  exact (List.toArray_inj read).symm

theorem decodeUtf8_encode (value : JsString) :
    decodeUtf8 value.encode =
      some (.ofScalars (stripByteOrderMark (value.chars.map JsChar.scalarValue))) := by
  rw [decodeUtf8, JsString.encode, decode_encodeUtf8, Option.map_some]

/-- The string has only scalar values and no byte order mark first. -/
def Plain (value : JsString) : Prop :=
  (∀ char ∈ value.chars, ∃ scalar, char = .scalar scalar) ∧
    value.chars.head? ≠ some (.scalar byteOrderMark)

theorem decodeUtf8_encode_iff (value : JsString) :
    decodeUtf8 value.encode = some value ↔ Plain value := by
  rw [decodeUtf8_encode, Option.some.injEq]
  constructor
  · intro same
    have chars : value.chars =
        (stripByteOrderMark (value.chars.map JsChar.scalarValue)).map .scalar :=
      congrArg JsString.chars same.symm
    constructor
    · intro char member
      rw [chars] at member
      obtain ⟨scalar, _, isScalar⟩ := List.mem_map.mp member
      exact ⟨scalar, isScalar.symm⟩
    · intro marked
      obtain ⟨rest, isRest⟩ := List.head?_eq_some_iff.mp marked
      -- The mark is dropped and the text gets shorter.
      have lengths := congrArg List.length chars
      simp [isRest, JsChar.scalarValue, stripByteOrderMark] at lengths
  · rintro ⟨scalars, unmarked⟩
    apply JsString.ext
    have back : ∀ chars : List JsChar, (∀ char ∈ chars, ∃ scalar, char = .scalar scalar) →
        (chars.map JsChar.scalarValue).map .scalar = chars := by
      intro chars every
      rw [List.map_map]
      refine (List.map_congr_left fun char member => ?_).trans (List.map_id chars)
      obtain ⟨scalar, rfl⟩ := every char member
      rfl
    have kept : stripByteOrderMark (value.chars.map JsChar.scalarValue) =
        value.chars.map JsChar.scalarValue := by
      cases isChars : value.chars with
      | nil => rfl
      | cons first rest =>
          obtain ⟨scalar, rfl⟩ := scalars first (isChars ▸ List.mem_cons_self)
          rw [isChars, List.head?_cons] at unmarked
          rw [List.map_cons, stripByteOrderMark, if_neg]
          exact fun mark => unmarked (congrArg (some ∘ JsChar.scalar) mark)
    change (stripByteOrderMark (value.chars.map JsChar.scalarValue)).map .scalar = value.chars
    rw [kept, back value.chars scalars]

/-! ### The additional data -/

theorem jsonLiteral_flat (text : String) : Flat (jsonLiteral text) := scalars_flat text.toList

theorem jsonOne_flat : Flat jsonOne :=
  .number (List.cons_ne_nil _ _) fun char member => by
    cases List.mem_singleton.mp member
    decide

theorem ManagedSecretScope.literal_injective {left right : ManagedSecretScope}
    (same : jsonLiteral left.text = jsonLiteral right.text) : left = right := by
  have texts := List.map_injective_iff.mpr (fun _ _ equal => JsChar.scalar.inj equal)
    (Json.string.inj same)
  cases left <;> cases right <;> first | rfl | exact absurd texts (by decide)

/-- Different bindings have different additional data. -/
theorem secretAdditionalData_injective : Function.Injective secretAdditionalData := by
  intro left right same
  have flat : ∀ binding : SecretBinding, ∀ item ∈ [jsonLiteral "gitzero-managed-secret", jsonOne,
      .string binding.workspaceId.chars, jsonLiteral binding.scope.text,
      .string binding.owner.chars, .string binding.repository.chars,
      .string binding.environment.chars, .string binding.name.chars], Flat item := by
    intro binding
    simp only [List.forall_mem_cons, List.not_mem_nil, false_imp_iff, implies_true, and_true,
      jsonLiteral_flat, jsonOne_flat, true_and]
    exact ⟨.string binding.workspaceId.wellFormed, .string binding.owner.wellFormed,
      .string binding.repository.wellFormed, .string binding.environment.wellFormed,
      .string binding.name.wellFormed⟩
  have items := stringify_array_inj (flat left) (flat right) (encodeUtf8_injective same)
  simp only [List.cons.injEq, and_true, Json.string.injEq] at items
  obtain ⟨_, _, workspaceId, scope, owner, repository, environment, name⟩ := items
  cases left
  cases right
  rw [SecretBinding.mk.injEq]
  exact ⟨JsString.ext workspaceId, ManagedSecretScope.literal_injective scope, JsString.ext owner,
    JsString.ext repository, JsString.ext environment, JsString.ext name⟩

/-! ### Encryption and decryption -/

section Cipher

variable (aes : Aead)

/-- The secret comes back under its binding, under no other one, and bindings have distinct
additional data. -/
structure SecretKept (key : aes.Key) (binding : SecretBinding) (nonce : Bytes) (value : JsString) :
    Prop where
  returned : decryptManagedSecret aes key binding
    (encryptManagedSecret aes key binding nonce value) = some value
  refused : ∀ other, other ≠ binding → decryptManagedSecret aes key other
    (encryptManagedSecret aes key binding nonce value) = none
  injective : Function.Injective secretAdditionalData

theorem decrypt_encrypt (key : aes.Key) (binding other : SecretBinding) (nonce : Bytes)
    (value : JsString) :
    decryptManagedSecret aes key other (encryptManagedSecret aes key binding nonce value) =
      (aes.decrypt key nonce (secretAdditionalData other)
        (aes.encrypt key nonce (secretAdditionalData binding) value.encode)).bind decodeUtf8 := by
  simp only [decryptManagedSecret, encryptManagedSecret, atob_btoa, Option.bind_eq_bind,
    Option.bind_some]

theorem decrypt_encrypt_self (key : aes.Key) (binding : SecretBinding) (nonce : Bytes)
    (value : JsString) :
    decryptManagedSecret aes key binding (encryptManagedSecret aes key binding nonce value) =
      decodeUtf8 value.encode := by
  rw [decrypt_encrypt, aes.correct, Option.bind_some]

/-- A secret comes back as it was stored, and under no other binding, exactly when its value has
no unpaired surrogate and does not begin with a byte order mark. -/
theorem secret_kept_iff (key : aes.Key) (binding : SecretBinding) (nonce : Bytes)
    (value : JsString) : SecretKept aes key binding nonce value ↔ Plain value := by
  constructor
  · intro kept
    rw [← decodeUtf8_encode_iff, ← decrypt_encrypt_self aes key binding nonce]
    exact kept.returned
  · intro plain
    refine ⟨?_, fun other differs => ?_, secretAdditionalData_injective⟩
    · rw [decrypt_encrypt_self, decodeUtf8_encode_iff]
      exact plain
    · rw [decrypt_encrypt, aes.authentic _ _ _ _ _ fun same =>
        differs (secretAdditionalData_injective same).symm, Option.bind_none]

end Cipher

namespace Sample

/-- The additional data, so written that it ends where it ends. -/
def frame (additionalData : Bytes) : Bytes := additionalData.flatMap (fun byte => [1, byte]) ++ [0]

theorem eq_of_frame_start {left right rest : Bytes} (start : frame left <+: frame right ++ rest) :
    left = right := by
  induction left generalizing right with
  | nil =>
      cases right with
      | nil => rfl
      | cons byte right => exact absurd (List.cons_prefix_cons.mp start).1 (by decide)
  | cons first left inductionHypothesis =>
      cases right with
      | nil => exact absurd (List.cons_prefix_cons.mp start).1 (by decide)
      | cons byte right =>
          obtain ⟨rfl, more⟩ := List.cons_prefix_cons.mp (List.cons_prefix_cons.mp start).2
          rw [inductionHypothesis more]

/-- A cipher that hides nothing and still is tied to the additional data. -/
def framed : Aead where
  Key := Unit
  encrypt _ _ additionalData plaintext := frame additionalData ++ plaintext
  decrypt _ _ additionalData ciphertext :=
    if frame additionalData <+: ciphertext then some (ciphertext.drop (frame additionalData).length)
    else none
  correct _ _ additionalData plaintext := by
    rw [if_pos (List.prefix_append _ _), List.drop_left]
  authentic _ _ additionalData other plaintext differs := by
    rw [if_neg]
    exact fun start => differs (eq_of_frame_start start).symm

def organizationBinding : SecretBinding where
  workspaceId := .ofScalars ['w']
  scope := .organization
  owner := .ofScalars ['o']
  repository := .ofScalars []
  environment := .ofScalars []
  name := .ofScalars ['N']

/-- A value that begins with a byte order mark comes back without it. -/
theorem byte_order_mark_is_lost :
    ¬ ∀ (aes : Aead) (key : aes.Key) (binding : SecretBinding) (nonce : Bytes) (value : JsString),
      acceptsSecretValue value = true → SecretKept aes key binding nonce value := by
  intro law
  have accepted : acceptsSecretValue (.ofScalars [byteOrderMark, 'x']) = true := by decide
  have kept := (law framed () organizationBinding [] _ accepted).returned
  have plain := (decodeUtf8_encode_iff _).mp
    ((decrypt_encrypt_self framed () organizationBinding [] _).symm.trans kept)
  exact plain.2 rfl

end Sample

end GitZero.ControlPlane
