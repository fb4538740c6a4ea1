/-
Module: GitZero.Proofs.ActionPaths
Purpose: Where the directories of an accepted reference lie when their paths are normalized.
Trusted boundary: none
Main exports: normalize, Inside, Accepted, Contained, Apart, references_contained_iff
-/
import GitZero.Agent.ActionReferences

namespace GitZero.Agent.ActionReferences

open RemoteRepositories (RemoteRepositoryMaterializationScope)

/-! ### Normalized paths -/

/-- A component that names an entry of a directory. -/
def IsName (part : Text) : Prop := part ≠ [] ∧ part ≠ ['.'] ∧ part ≠ ['.', '.']

instance : DecidablePred IsName := fun part =>
  inferInstanceAs (Decidable (part ≠ [] ∧ part ≠ ['.'] ∧ part ≠ ['.', '.']))

def normalizeStep (parts : FilePath) (part : Text) : FilePath :=
  if part = [] ∨ part = ['.'] then parts
  else if part = ['.', '.'] then parts.dropLast
  else parts ++ [part]

/-- The path without `.`, and with each `..` taken back. -/
def normalize (path : FilePath) : FilePath := path.foldl normalizeStep []

/-- The path lies under the base, as deep as given. -/
def Inside (base path : FilePath) (depth : Nat) : Prop :=
  ∃ parts, parts.length = depth ∧ normalize path = normalize base ++ parts

theorem normalizeStep_name {part : Text} (isName : IsName part) (parts : FilePath) :
    normalizeStep parts part = parts ++ [part] := by
  rw [normalizeStep, if_neg (not_or.mpr ⟨isName.1, isName.2.1⟩), if_neg isName.2.2]

theorem normalizeStep_other {part : Text} (other : ¬ IsName part) (parts : FilePath) :
    (normalizeStep parts part).length ≤ parts.length := by
  rw [normalizeStep]
  split
  · exact Nat.le_refl _
  · rename_i shown
    rw [not_or] at shown
    split
    · rw [List.length_dropLast]
      omega
    · rename_i up
      exact absurd ⟨shown.1, shown.2, up⟩ other

theorem normalizeStep_length (parts : FilePath) (part : Text) :
    (normalizeStep parts part).length ≤ parts.length + 1 := by
  by_cases isName : IsName part
  · rw [normalizeStep_name isName, List.length_append, List.length_singleton]
  · exact Nat.le_succ_of_le (normalizeStep_other isName parts)

theorem normalize_append (base parts : FilePath) :
    normalize (base ++ parts) = parts.foldl normalizeStep (normalize base) := List.foldl_append

theorem foldl_normalize_length (parts before : FilePath) :
    (parts.foldl normalizeStep before).length ≤ before.length + parts.length := by
  induction parts generalizing before with
  | nil => exact Nat.le_refl _
  | cons part parts inductionHypothesis =>
      have step := normalizeStep_length before part
      have later := inductionHypothesis (normalizeStep before part)
      rw [List.foldl_cons, List.length_cons]
      omega

/-- Only names lead as deep as there are components. -/
theorem names_of_length {parts before : FilePath}
    (deep : (parts.foldl normalizeStep before).length = before.length + parts.length) :
    ∀ part ∈ parts, IsName part := by
  induction parts generalizing before with
  | nil => exact fun part member => absurd member List.not_mem_nil
  | cons part parts inductionHypothesis =>
      rw [List.foldl_cons, List.length_cons] at deep
      have later := foldl_normalize_length parts (normalizeStep before part)
      have isName : IsName part := by
        by_contra other
        have short := normalizeStep_other other before
        omega
      refine List.forall_mem_cons.mpr
        ⟨isName, @inductionHypothesis (normalizeStep before part) ?_⟩
      rw [normalizeStep_name isName, List.length_append, List.length_singleton] at *
      omega

theorem normalize_names {parts : FilePath} (names : ∀ part ∈ parts, IsName part)
    (base : FilePath) : normalize (base ++ parts) = normalize base ++ parts := by
  rw [normalize_append]
  generalize normalize base = before
  induction parts generalizing before with
  | nil => rw [List.foldl_nil, List.append_nil]
  | cons part parts inductionHypothesis =>
      obtain ⟨first, others⟩ := List.forall_mem_cons.mp names
      rw [List.foldl_cons, normalizeStep_name first, inductionHypothesis others, List.append_assoc,
        List.singleton_append]

theorem inside_iff {base parts : FilePath} :
    Inside base (base ++ parts) parts.length ↔ ∀ part ∈ parts, IsName part := by
  constructor
  · rintro ⟨rest, length, same⟩
    rw [normalize_append] at same
    refine @names_of_length _ (normalize base) ?_
    rw [same, List.length_append, length]
  · intro names
    exact ⟨parts, rfl, normalize_names names base⟩

/-! ### References -/

/-- A reference to an action or to a reusable workflow with this owner, repository and ref was
accepted. -/
def Accepted (owner repository gitRef : Text) : Prop :=
  (∃ source path, ActionReference.parse source = .ok (.remote owner repository path gitRef)) ∨
    ∃ source path, RemoteReusableWorkflowReference.parse source =
      .ok { owner, repository, path, gitRef }

/-- What the parser lets pass. -/
structure Checked (owner repository gitRef : Text) : Prop where
  owner : owner ≠ [] ∧ ∀ char ∈ owner, isComponentChar char = true
  repository : repository ≠ [] ∧ ∀ char ∈ repository, isComponentChar char = true
  gitRef : gitRef ≠ []

theorem checked_of_validate {value : Text} {name : String}
    (valid : validateRepositoryComponent value name = .ok ()) :
    value ≠ [] ∧ ∀ char ∈ value, isComponentChar char = true := by
  rw [validateRepositoryComponent] at valid
  split at valid
  · cases valid
  · rename_i fits
    rw [Bool.or_eq_true, not_or, Bool.not_eq_true, List.isEmpty_eq_false_iff, Bool.not_eq_true,
      Bool.not_eq_false', List.all_eq_true] at fits
    exact fits

theorem checked_of_parseRemote {source owner repository path gitRef : Text}
    (parsed : parseRemote source = .ok (.remote owner repository path gitRef)) :
    Checked owner repository gitRef := by
  rw [parseRemote] at parsed
  dsimp only at parsed
  split at parsed
  · cases parsed
  · rename_i location found _
    split at parsed
    · cases parsed
    · rename_i fits
      cases isOwner : validateRepositoryComponent ((location.splitOn '/').head?.getD [])
        "owner" with
      | error error =>
          rw [isOwner] at parsed
          cases parsed
      | ok _ =>
          cases isRepository : validateRepositoryComponent
              (((location.splitOn '/').drop 1).head?.getD []) "repository" with
          | error error =>
              rw [isOwner, isRepository] at parsed
              cases parsed
          | ok _ =>
              rw [isOwner, isRepository] at parsed
              have same : ActionReference.remote ((location.splitOn '/').head?.getD [])
                  (((location.splitOn '/').drop 1).head?.getD [])
                  (['/'].intercalate ((location.splitOn '/').drop 2)) found =
                  .remote owner repository path gitRef := by
                dsimp only [bind, Except.bind] at parsed
                split at parsed
                · split at parsed
                  · cases parsed
                  · exact Except.ok.inj parsed
                · exact Except.ok.inj parsed
              cases same
              refine ⟨checked_of_validate isOwner, checked_of_validate isRepository, ?_⟩
              rintro rfl
              exact fits rfl

theorem Accepted.checked {owner repository gitRef : Text}
    (accepted : Accepted owner repository gitRef) : Checked owner repository gitRef := by
  have action {source path : Text}
      (parsed : ActionReference.parse source = .ok (.remote owner repository path gitRef)) :
      Checked owner repository gitRef := by
    rw [ActionReference.parse] at parsed
    split at parsed
    · dsimp only [bind, Except.bind] at parsed
      split at parsed
      · cases parsed
      · cases parsed
    · split at parsed
      · dsimp only [bind, Except.bind] at parsed
        split at parsed
        · cases parsed
        · cases parsed
      · split at parsed
        · cases parsed
        · exact checked_of_parseRemote parsed
  rcases accepted with ⟨source, path, parsed⟩ | ⟨source, path, parsed⟩
  · exact action parsed
  · rw [RemoteReusableWorkflowReference.parse] at parsed
    cases isAction : ActionReference.parse source with
    | error error =>
        rw [isAction] at parsed
        cases parsed
    | ok reference =>
        rw [isAction] at parsed
        cases reference with
        | localAction => cases parsed
        | selfRepository => cases parsed
        | remote owner' repository' path' gitRef' =>
            dsimp only [bind, Except.bind] at parsed
            split at parsed
            · cases parsed
            · split at parsed
              · cases parsed
              · cases parsed
                exact action isAction

/-! ### The directories -/

theorem urlSafeSymbol_ne_dot {sextet : Nat} (small : sextet < 64) : urlSafeSymbol sextet ≠ '.' := by
  have dotless : '.' ∉ Base64.alphabet := by
    rw [Base64.alphabet_eq]
    decide
  unfold urlSafeSymbol
  split
  · decide
  · decide
  · exact fun same => dotless (same ▸ Base64.symbol_mem small)

theorem isName_encodeRef {gitRef : Text} (some : gitRef ≠ []) :
    IsName (encodeRef gitRef) := by
  have bytes : gitRef.flatMap String.utf8EncodeChar ≠ [] := by
    obtain ⟨first, rest, same⟩ := List.exists_cons_of_ne_nil some
    have positive : 0 < (String.utf8EncodeChar first).length := by
      rw [String.length_utf8EncodeChar]
      exact first.utf8Size_pos
    intro empty
    rw [same, List.flatMap_cons] at empty
    rw [(List.append_eq_nil_iff.mp empty).1] at positive
    exact absurd positive (Nat.lt_irrefl 0)
  have dotless : '.' ∉ encodeRef gitRef := by
    intro member
    obtain ⟨sextet, isSextet, same⟩ := List.mem_map.mp member
    exact urlSafeSymbol_ne_dot (Base64.sextets_lt _ sextet isSextet) same
  have nonempty : encodeRef gitRef ≠ [] := by
    intro empty
    have none := List.map_eq_nil_iff.mp empty
    cases isBytes : gitRef.flatMap String.utf8EncodeChar with
    | nil => exact bytes isBytes
    | cons first rest =>
        rw [isBytes] at none
        cases rest with
        | nil => cases none
        | cons second rest =>
            cases rest with
            | nil => cases none
            | cons third rest => cases none
  refine ⟨nonempty, ?_, ?_⟩
  · intro same
    exact dotless (by simp [same])
  · intro same
    exact dotless (by simp [same])

/-- With `.git` behind it, every repository names an entry. -/
theorem isName_gitDirectory (repository : Text) : IsName (repository ++ ".git".toList) := by
  have long : (repository ++ ".git".toList).length = repository.length + 4 := by
    rw [List.length_append]
    rfl
  refine ⟨?_, ?_, ?_⟩
  · intro same
    rw [same, List.length_nil] at long
    omega
  · intro same
    rw [same, List.length_singleton] at long
    omega
  · intro same
    rw [same, List.length_cons, List.length_singleton] at long
    omega

section Directories

variable (runDir : FilePath) (job : String) (scope : RemoteRepositoryMaterializationScope)

/-- The object cache lies two directories under `_action-cache` of the work root, the file of the
resolution three under `_action-resolutions` of the run, and the checkout three under the root of
the job's checkouts, which lies in `_actions` of the run. -/
structure Contained (owner repository gitRef : Text) : Prop where
  cache : ∀ path, remoteRepositoryCachePath runDir owner repository = some path →
    Inside (runDir.dropLast ++ ["_action-cache".toList]) path 2
  resolution : Inside (runDir ++ ["_action-resolutions".toList])
    (remoteRepositoryResolutionPath runDir owner repository gitRef) 3
  root : ∃ depth, Inside (runDir ++ ["_actions".toList]) (checkoutRoot runDir job scope) depth
  checkout : Inside (checkoutRoot runDir job scope)
    (remoteRepositoryCheckoutPath runDir job scope owner repository gitRef) 3

/-- The id of the job cannot lead out of `_actions`; an empty one is no directory of its own. -/
theorem checkoutRoot_inside :
    ∃ depth, Inside (runDir ++ ["_actions".toList]) (checkoutRoot runDir job scope) depth := by
  have isScope : IsName scope.directoryName.toList := by cases scope <;> decide
  have parts : checkoutRoot runDir job scope = (runDir ++ ["_actions".toList]) ++
      [(sanitizeId job).toList, scope.directoryName.toList] := by
    rw [checkoutRoot, List.append_assoc]
    rfl
  by_cases empty : (sanitizeId job).toList = []
  · refine ⟨1, [scope.directoryName.toList], rfl, ?_⟩
    rw [parts, normalize_append, List.foldl_cons, normalizeStep, if_pos (.inl empty),
      List.foldl_cons, normalizeStep_name isScope, List.foldl_nil]
  · have isJob : IsName (sanitizeId job).toList := by
      have plain := dot_notMem_sanitizeId job
      refine ⟨empty, ?_, ?_⟩
      · rintro dot
        simp [dot] at plain
      · rintro dots
        simp [dots] at plain
    refine ⟨2, [(sanitizeId job).toList, scope.directoryName.toList], rfl, ?_⟩
    rw [parts]
    exact normalize_names (by simp [isJob, isScope]) _

theorem contained_iff {owner repository gitRef : Text}
    (checked : Checked owner repository gitRef) :
    Contained runDir job scope owner repository gitRef ↔ IsName owner ∧ IsName repository := by
  have isRef := isName_encodeRef checked.gitRef
  have three : (∀ part ∈ [owner, repository, encodeRef gitRef], IsName part) ↔
      IsName owner ∧ IsName repository := by
    simp [isRef]
  have two : (∀ part ∈ [owner, repository ++ ".git".toList], IsName part) ↔ IsName owner := by
    rw [List.forall_mem_cons, List.forall_mem_singleton,
      and_iff_left (isName_gitDirectory repository)]
  constructor
  · intro contained
    have deep := contained.checkout
    exact three.mp (inside_iff.mp deep)
  · rintro ⟨isOwner, isRepository⟩
    refine ⟨fun path isPath => ?_, ?_, checkoutRoot_inside runDir job scope,
      inside_iff.mpr (three.mpr ⟨isOwner, isRepository⟩)⟩
    · rw [remoteRepositoryCachePath] at isPath
      split at isPath
      · cases isPath
      · cases isPath
        have deep := (@inside_iff (runDir.dropLast ++ ["_action-cache".toList]) _).mpr
          (two.mpr isOwner)
        rwa [List.append_assoc] at deep
    · have deep := (@inside_iff (runDir ++ ["_action-resolutions".toList]) _).mpr
        (three.mpr ⟨isOwner, isRepository⟩)
      rwa [List.append_assoc] at deep

/-- References to different repositories share neither a cache nor a resolution. -/
def Apart (one two : Text × Text × Text) : Prop :=
  (one.1, one.2.1) ≠ (two.1, two.2.1) →
    (∀ first second, remoteRepositoryCachePath runDir one.1 one.2.1 = some first →
      remoteRepositoryCachePath runDir two.1 two.2.1 = some second →
      normalize first ≠ normalize second) ∧
    normalize (remoteRepositoryResolutionPath runDir one.1 one.2.1 one.2.2) ≠
      normalize (remoteRepositoryResolutionPath runDir two.1 two.2.1 two.2.2)

theorem apart_of_names {one two : Text × Text × Text} (first : IsName one.1 ∧ IsName one.2.1)
    (second : IsName two.1 ∧ IsName two.2.1) (firstRef : one.2.2 ≠ []) (secondRef : two.2.2 ≠ []) :
    Apart runDir one two := by
  intro different
  have names {reference : Text × Text × Text} (named : IsName reference.1 ∧ IsName reference.2.1)
      (some : reference.2.2 ≠ []) :
      ∀ part ∈ [reference.1, reference.2.1, encodeRef reference.2.2], IsName part := by
    simp [named, isName_encodeRef some]
  have cached {reference : Text × Text × Text} (named : IsName reference.1 ∧ IsName reference.2.1) :
      ∀ part ∈ [reference.1, reference.2.1 ++ ".git".toList], IsName part := by
    rw [List.forall_mem_cons, List.forall_mem_singleton]
    exact ⟨named.1, isName_gitDirectory reference.2.1⟩
  constructor
  · intro path other isPath isOther same
    rw [remoteRepositoryCachePath] at isPath isOther
    split at isPath
    · cases isPath
    · rename_i nonempty
      rw [if_neg nonempty] at isOther
      cases isPath
      cases isOther
      have split (parts : FilePath) : runDir.dropLast ++ "_action-cache".toList :: parts =
          (runDir.dropLast ++ ["_action-cache".toList]) ++ parts := by
        rw [List.append_assoc, List.singleton_append]
      rw [split [one.1, _], split [two.1, _], normalize_names (cached first),
        normalize_names (cached second),
        List.append_cancel_left_eq, List.cons.injEq, List.cons.injEq] at same
      exact different (Prod.ext same.1 (List.append_cancel_right same.2.1))
  · intro same
    have split (parts : FilePath) : runDir ++ "_action-resolutions".toList :: parts =
        (runDir ++ ["_action-resolutions".toList]) ++ parts := by
      rw [List.append_assoc, List.singleton_append]
    rw [remoteRepositoryResolutionPath, remoteRepositoryResolutionPath, split [one.1, _, _],
      split [two.1, _, _],
      normalize_names (names first firstRef), normalize_names (names second secondRef),
      List.append_cancel_left_eq, List.cons.injEq, List.cons.injEq] at same
    exact different (Prod.ext same.1 same.2.1)

/-- The directories of accepted references stay where they belong exactly when owner and
repository are names. -/
theorem references_contained_iff {one two : Text × Text × Text}
    (first : Accepted one.1 one.2.1 one.2.2) (second : Accepted two.1 two.2.1 two.2.2) :
    (Contained runDir job scope one.1 one.2.1 one.2.2 ∧
      Contained runDir job scope two.1 two.2.1 two.2.2 ∧ Apart runDir one two) ↔
    (one.1 ∉ [['.'], ['.', '.']] ∧ one.2.1 ∉ [['.'], ['.', '.']]) ∧
      two.1 ∉ [['.'], ['.', '.']] ∧ two.2.1 ∉ [['.'], ['.', '.']] := by
  have named {part : Text} (some : part ≠ []) : part ∉ [['.'], ['.', '.']] ↔ IsName part := by
    rw [List.mem_cons, List.mem_singleton, not_or, IsName, and_iff_right some]
  have checked := first.checked
  have other := second.checked
  rw [contained_iff runDir job scope checked, contained_iff runDir job scope other,
    named checked.owner.1, named checked.repository.1, named other.owner.1,
    named other.repository.1, ← and_assoc]
  refine and_iff_left_of_imp fun both => ?_
  exact apart_of_names runDir both.1 both.2 checked.gitRef other.gitRef

end Directories

namespace Sample

def checkoutReference : Text × Text × Text := ("actions".toList, "checkout".toList, "v6".toList)

def setupReference : Text × Text × Text := ("actions".toList, "setup-node".toList, "v6".toList)

def runDirectory : FilePath := ["work".toList, "run".toList]

theorem accepted_checkout : Accepted "actions".toList "checkout".toList "v6".toList :=
  .inl ⟨"actions/checkout@v6".toList, [], by decide⟩

theorem accepted_setup : Accepted "actions".toList "setup-node".toList "v6".toList :=
  .inl ⟨"actions/setup-node@v6".toList, [], by decide⟩

/-- Two actions of one owner. -/
theorem two_actions_contained :
    (Contained runDirectory "build" .sharedSource checkoutReference.1 checkoutReference.2.1
        checkoutReference.2.2 ∧
      Contained runDirectory "build" .sharedSource setupReference.1 setupReference.2.1
        setupReference.2.2 ∧ Apart runDirectory checkoutReference setupReference) ↔
    (checkoutReference.1 ∉ [['.'], ['.', '.']] ∧ checkoutReference.2.1 ∉ [['.'], ['.', '.']]) ∧
      setupReference.1 ∉ [['.'], ['.', '.']] ∧ setupReference.2.1 ∉ [['.'], ['.', '.']] :=
  references_contained_iff runDirectory "build" .sharedSource accepted_checkout accepted_setup

/-- The cache of the owner `..` is a directory of the work root. -/
theorem parent_owner_leaves_cache :
    ActionReference.parse "../_actions@v1".toList =
        .ok (.remote "..".toList "_actions".toList [] "v1".toList) ∧
      (remoteRepositoryCachePath runDirectory "..".toList "_actions".toList).map normalize =
        some ["work".toList, "_actions.git".toList] ∧
      normalize (remoteRepositoryResolutionPath runDirectory "..".toList "_actions".toList
        "v1".toList) = ["work".toList, "run".toList, "_actions".toList, "djE".toList] := by
  decide

end Sample

end GitZero.Agent.ActionReferences
