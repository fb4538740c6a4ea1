/-
Module: GitZero.Proofs.SecretGrants
Purpose: The agent accepts every answer that the control plane gives it about managed secrets.
Trusted boundary: AES-GCM, as `Aead` describes it
Main exports: Acceptable, Vault.Valid, granted_accepted
-/
import GitZero.Proofs.SecretDelivery
import Mathlib

namespace GitZero.ControlPlane

/-- What the agent checks of one secret, before the value is encrypted. -/
structure Acceptable (name : String) (value : JsString) : Prop where
  name : Agent.validManagedSecretName name = true
  value : value.encode.length ≤ maxManagedSecretBytes

/-! ### Names -/

theorem upperName_upperName (name : List Char) : upperName (upperName name) = upperName name := by
  rw [upperName, upperName, List.map_map]
  exact List.map_congr_left fun char _ => Char.toUpper_toUpper_eq_toUpper char

theorem isUpper_toUpper_of_isNameStart {char : Char} (start : isNameStart char = true) :
    (char.toUpper.isUpper || char.toUpper = '_') = true := by
  simp only [isNameStart, Bool.or_eq_true, decide_eq_true_eq] at start
  rcases start with letter | rfl
  · simp [letter]
  · rfl

theorem valid_toUpper_of_isNameChar {char : Char} (isName : isNameChar char = true) :
    (char.toUpper.isUpper || char.toUpper.isDigit || char.toUpper = '_') = true := by
  simp only [isNameChar, Char.isAlphanum, Bool.or_eq_true, decide_eq_true_eq] at isName
  rcases isName with (letter | digit) | rfl
  · simp [letter]
  · have small : ¬ char.isLower = true := by
      intro lower
      simp only [Char.isDigit, Char.isLower, Bool.and_eq_true, decide_eq_true_eq, ge_iff_le,
        UInt32.le_iff_toNat_le] at digit lower
      exact absurd (lower.1.trans digit.2) (by decide)
    rw [Char.toUpper_eq_of_not_isLower small]
    simp [digit]
  · rfl

theorem secretName_valid {name upper : String} (accepted : secretName name = some upper) :
    Agent.validManagedSecretName (String.ofList (upperName upper.toList)) = true := by
  rw [secretName] at accepted
  split at accepted
  · cases accepted
  · next first rest _ =>
      split at accepted
      · next valid =>
          simp only [Bool.and_eq_true, List.all_eq_true, Bool.not_eq_true'] at valid
          obtain ⟨⟨⟨start, others⟩, _⟩, unreserved⟩ := valid
          cases accepted
          rw [String.toList_ofList, upperName_upperName, Agent.validManagedSecretName,
            String.toList_ofList, upperName, List.map_cons]
          simp only [Bool.and_eq_true, Bool.not_eq_true', List.all_eq_true]
          refine ⟨⟨isUpper_toUpper_of_isNameStart start, fun char member => ?_⟩, unreserved⟩
          obtain ⟨source, isSource, rfl⟩ := List.mem_map.mp member
          exact valid_toUpper_of_isNameChar (others source isSource)
      · cases accepted

/-! ### The vault -/

/-- Everything in the vault is acceptable to the agent. -/
structure Vault.Valid (vault : Vault) : Prop where
  secrets : ∀ identity secret, vault.secrets identity = some secret →
    Acceptable identity.name secret.value
  given : ∀ jobId identity value, vault.given jobId identity = some value →
    Acceptable identity.name value

theorem Vault.Valid.empty : Vault.empty.Valid where
  secrets _ _ present := nomatch present
  given _ _ _ present := nomatch present

theorem Vault.Valid.enter {vault entered : Vault} {workspaceId : String} (valid : vault.Valid)
    (isEntered : vault.enter workspaceId = some entered) : entered.Valid := by
  rw [Vault.enter] at isEntered
  split at isEntered
  · cases isEntered
    exact ⟨valid.secrets, valid.given⟩
  · cases isEntered

theorem Vault.Valid.hold {vault : Vault} {identity : SecretIdentity} {secret : PlainSecret}
    (valid : vault.Valid) (acceptable : Acceptable identity.name secret.value) :
    (vault.hold identity secret).Valid := by
  rw [Vault.hold]
  split
  · refine ⟨fun other held isHeld => ?_, valid.given⟩
    dsimp only at isHeld
    rw [Function.update_apply] at isHeld
    split at isHeld
    · next same =>
        cases isHeld
        exact same ▸ acceptable
    · exact valid.secrets other held isHeld
  · exact valid

theorem Vault.Valid.forget {vault : Vault} (valid : vault.Valid) (identity : SecretIdentity) :
    (vault.forget identity).Valid := by
  refine ⟨fun other held isHeld => ?_, valid.given⟩
  rw [Vault.secrets_forget] at isHeld
  split at isHeld
  · cases isHeld
  · exact valid.secrets other held isHeld

theorem Vault.Valid.drop {vault : Vault} (valid : vault.Valid) (completed : List JobId) :
    (vault.drop completed).Valid := by
  refine ⟨valid.secrets, fun jobId identity value isValue => ?_⟩
  rw [Vault.given_drop] at isValue
  split at isValue
  · cases isValue
  · exact valid.given jobId identity value isValue

/-! ### Values -/

theorem lookup_of_mem {secrets : List (String × JsString)}
    (distinct : (secrets.map Prod.fst).Nodup) {name : String} {value : JsString}
    (member : (name, value) ∈ secrets) : secrets.lookup name = some value := by
  induction secrets with
  | nil => nomatch member
  | cons entry secrets inductionHypothesis =>
      obtain ⟨first, rest⟩ := List.nodup_cons.mp distinct
      obtain ⟨other, held⟩ := entry
      rw [lookup_cons_pair]
      rcases List.mem_cons.mp member with same | present
      · cases same
        exact if_pos rfl
      · rw [if_neg]
        · exact inductionHypothesis rest present
        · rintro rfl
          exact first (List.mem_map.mpr ⟨_, present, rfl⟩)

theorem utf8ByteSize_ofList (text : List Char) :
    (String.ofList text).utf8ByteSize = (encodeUtf8 text).length := by
  have whole : ByteArray.mk (encodeUtf8 text).toArray = text.utf8Encode := by
    rw [List.utf8Encode, encodeUtf8, ← List.data_toByteArray]
  change text.utf8Encode.size = _
  rw [← whole]
  rfl

theorem stripByteOrderMark_suffix (text : List Char) : stripByteOrderMark text <:+ text := by
  cases text with
  | nil => exact List.suffix_rfl
  | cons first rest =>
      rw [stripByteOrderMark]
      split
      · exact List.suffix_cons first rest
      · exact List.suffix_rfl

/-- What the agent receives is no longer than what was put. -/
theorem receivedSecret_delivered_size (value : JsString) :
    (Agent.receivedSecret value.delivered).utf8ByteSize ≤ value.encode.length := by
  have scalars : value.delivered.chars.map JsChar.scalarValue =
      stripByteOrderMark (value.chars.map JsChar.scalarValue) := by
    rw [JsString.delivered, JsString.ofScalars, List.map_map]
    exact List.map_id _
  obtain ⟨mark, whole⟩ := stripByteOrderMark_suffix (value.chars.map JsChar.scalarValue)
  rw [Agent.receivedSecret, scalars, utf8ByteSize_ofList, JsString.encode, ← whole, encodeUtf8,
    encodeUtf8, List.flatMap_append, List.length_append, whole]
  exact Nat.le_add_left _ _

section Texts

variable [JsText]

/-! ### The checks of the control plane -/

theorem managedSecretIdentitySchema_valid {untrusted identity : ManagedSecretIdentity}
    (accepted : managedSecretIdentitySchema untrusted = some identity) :
    Agent.validManagedSecretName (normalizedSecretIdentity identity).name = true := by
  cases untrusted <;>
    simp only [managedSecretIdentitySchema, Option.bind_eq_bind, Option.bind_eq_some_iff,
      Option.pure_def, Option.some.injEq] at accepted
  case organization =>
    obtain ⟨_, _, _, name, rfl⟩ := accepted
    exact secretName_valid name
  case repository =>
    obtain ⟨_, _, _, _, _, name, rfl⟩ := accepted
    exact secretName_valid name
  case environment =>
    obtain ⟨_, _, _, _, _, _, _, name, rfl⟩ := accepted
    exact secretName_valid name

theorem managedSecretInputSchema_acceptable {untrusted input : ManagedSecretInput}
    (accepted : managedSecretInputSchema untrusted = some input) :
    Acceptable (normalizedSecretIdentity input.identity).name input.value := by
  simp only [managedSecretInputSchema, Option.bind_eq_bind, Option.bind_eq_some_iff] at accepted
  obtain ⟨identity, named, _, fits, rest⟩ := accepted
  have valid := managedSecretIdentitySchema_valid named
  have small : untrusted.value.encode.length ≤ maxManagedSecretBytes := by
    simpa [guard, acceptsSecretValue] using fits
  split at rest
  · simp only [Option.bind_eq_some_iff] at rest
    obtain ⟨_, _, _, _, same⟩ := rest
    cases same
    exact ⟨valid, small⟩
  · cases rest
    exact ⟨valid, small⟩
  · cases rest
    exact ⟨valid, small⟩
  · cases rest

theorem Vault.Valid.queue {vault : Vault} (valid : vault.Valid) (job : QueuedJob)
    (event : EventPayload) (privateRepository : Bool) :
    (vault.queue job event privateRepository).Valid := by
  by_cases taken : job.id ∈ vault.queued
  · rw [Vault.queue, if_pos taken]
    exact valid
  · constructor
    · rw [Vault.queue, if_neg taken]
      exact valid.secrets
    · intro jobId identity value isValue
      rw [Vault.given_queue vault job event privateRepository taken] at isValue
      split at isValue
      · rw [Vault.gift] at isValue
        split at isValue
        · obtain ⟨secret, isSecret, rfl⟩ := Option.map_eq_some_iff.mp isValue
          exact valid.secrets identity secret isSecret
        · cases isValue
      · exact valid.given jobId identity value isValue

theorem vaultStep_valid {vault : Vault} (valid : vault.Valid) (event : SecretEvent) :
    (vaultStep vault event).Valid := by
  cases event with
  | put workspaceId untrustedInput nonce =>
      rw [vaultStep]
      split
      · next isEntered isInput =>
          split
          · exact valid.enter isEntered
          · exact (valid.enter isEntered).hold (managedSecretInputSchema_acceptable isInput)
      · next isEntered _ => exact valid.enter isEntered
      · exact valid
  | delete workspaceId untrustedIdentity =>
      rw [vaultStep]
      split
      · next isEntered _ => exact (valid.enter isEntered).forget _
      · next isEntered _ => exact valid.enter isEntered
      · exact valid
  | enqueue workspaceId job event privateRepository =>
      rw [vaultStep]
      split
      · next isEntered => exact (valid.enter isEntered).queue job event privateRepository
      · exact valid
  | prune completed => exact valid.drop completed

theorem Vault.Valid.delivers {vault : Vault} {job : QueuedJob} {environment : Option String}
    {name : String} {value : JsString} (valid : vault.Valid)
    (told : vault.delivers job environment name = some value) : Acceptable name value := by
  simp only [Vault.delivers, Option.orElse_eq_orElse, Option.orElse_eq_or, Option.or_eq_some_iff,
    Option.bind_eq_some_iff, Option.map_eq_some_iff] at told
  rcases told with ⟨_, _, secret, isSecret, rfl⟩ | ⟨_, isGiven | ⟨_, isGiven⟩⟩
  · exact valid.secrets _ secret isSecret
  · exact valid.given _ _ _ isGiven
  · exact valid.given _ _ _ isGiven

/-! ### The agent -/

theorem Told.accepted {aes : Aead} {key : aes.Key} {store : SecretStore} {vault : Vault}
    {row : SecretJob} {environment : Option String} {secrets : List (String × JsString)}
    (told : Told aes key store vault row environment secrets) (valid : vault.Valid) :
    Agent.managedSecrets secrets =
      .ok (secrets.map fun entry => (entry.1, Agent.receivedSecret entry.2)) := by
  have few : ¬ Agent.maxManagedSecretsPerJob < secrets.length := Nat.not_lt.mpr told.few
  rw [Agent.managedSecrets, List.length_map, if_neg few, if_pos]
  simp only [List.all_eq_true, List.mem_map, Bool.and_eq_true, decide_eq_true_eq]
  rintro _ ⟨⟨name, value⟩, member, rfl⟩
  have known := told.lookup name
  rw [lookup_of_mem told.names member] at known
  obtain ⟨source, isSource, rfl⟩ := Option.map_eq_some_iff.mp known.symm
  have acceptable := valid.delivers isSource
  exact ⟨acceptable.name, (receivedSecret_delivered_size source).trans acceptable.value⟩

/-- Whatever secrets are put, replaced and deleted, and whatever jobs are queued and pruned: the
control plane can answer for every job that is still there, and the agent accepts the answer. -/
theorem granted_accepted (aes : Aead) (key : aes.Key) (events : List SecretEvent) :
    let store := Machine.run (secretStep aes key) {} events
    ∀ row ∈ store.jobs, ∀ environment, ∃ secrets,
      managedSecretsForJob aes key store row environment = some secrets ∧
        Agent.managedSecrets secrets =
          .ok (secrets.map fun entry => (entry.1, Agent.receivedSecret entry.2)) := by
  intro store row queued environment
  have keeps : ∀ vault event, vault.Valid → (vaultStep vault event).Valid :=
    fun _ event valid => vaultStep_valid valid event
  have valid := Machine.run_invariant keeps .empty events
  obtain ⟨secrets, told⟩ := (secretRun_represents events).told
    (secretRun_bounded aes key events) queued environment
  exact ⟨secrets, told.granted, told.accepted valid⟩

end Texts

namespace Sample

open Ascii

theorem replacedSecret_accepted : ∃ secrets,
    managedSecretsForJob framed () (Machine.run (secretStep framed ()) {} replacedSecret)
        replacedSecretJob none = some secrets ∧
      Agent.managedSecrets secrets =
        .ok (secrets.map fun entry => (entry.1, Agent.receivedSecret entry.2)) :=
  granted_accepted framed () replacedSecret _ replacedSecret_queued none

end Sample

end GitZero.ControlPlane
