/-
Module: GitZero.Agent.ActionReferences
Purpose: References to actions and reusable workflows, and the directories that the executor
  derives from them.
Trusted boundary: none
Main exports: ActionReference.parse, RemoteReusableWorkflowReference.parse,
  remoteRepositoryCachePath, remoteRepositoryResolutionPath, remoteRepositoryCheckoutPath
-/
import GitZero.Agent.RemoteRepositories
import GitZero.Lib.Base64

namespace GitZero.Agent.ActionReferences

open GitZero.Workflows (isAsciiAlphanumeric)
open RemoteRepositories (RemoteRepositoryMaterializationScope)

abbrev Text := List Char

/-! ### Parsing -/

/-- What a `uses` entry names: a directory of the workspace, one of the workflow's own repository,
or a path in another repository at a ref. -/
inductive ActionReference where
  | localAction (path : Text)
  | selfRepository (path : Text)
  | remote (owner repository path gitRef : Text)
deriving Repr, DecidableEq

def isComponentChar (char : Char) : Bool :=
  isAsciiAlphanumeric char || char = '-' || char = '_' || char = '.'

def validateRepositoryComponent (value : Text) (name : String) : Except String Unit :=
  if value.isEmpty || !value.all isComponentChar then
    .error ("action " ++ name ++ " '" ++ String.ofList value ++ "' is invalid")
  else .ok ()

/-- `Path::components` of a path that does not begin with a slash. -/
def components (path : Text) : List Text :=
  match path.splitOn '/' with
  | ['.'] :: rest => ['.'] :: rest.filter fun part => part ≠ [] ∧ part ≠ ['.']
  | parts => parts.filter fun part => part ≠ [] ∧ part ≠ ['.']

def isAbsolute (path : Text) : Bool := path.head? = some '/'

def validateRelativePath (value : Text) : Except String Unit :=
  if value.isEmpty || isAbsolute value || (components value).contains ['.', '.'] then
    .error ("action path '" ++ String.ofList value ++ "' must stay within its repository")
  else .ok ()

/-- `rsplit_once('@')` -/
def rsplitAt (source : Text) : Option (Text × Text) :=
  if source.contains '@' then
    some (((source.reverse.dropWhile (· ≠ '@')).drop 1).reverse,
      (source.reverse.takeWhile (· ≠ '@')).reverse)
  else none

def stripPrefix? (start text : Text) : Option Text :=
  if start.isPrefixOf text then some (text.drop start.length) else none

def parseRemote (source : Text) : Except String ActionReference := do
  let quoted := "action reference '" ++ String.ofList source ++ "'"
  match rsplitAt source with
  | none => .error (quoted ++ " must include @ref")
  | some (location, gitRef) =>
      if gitRef.isEmpty || gitRef.head? = some '-' ||
          gitRef.any (['\x00', '\n', '\r'].contains ·) then
        .error (quoted ++ " has an invalid git ref")
      else
        let parts := location.splitOn '/'
        let owner := parts.head?.getD []
        let repository := (parts.drop 1).head?.getD []
        validateRepositoryComponent owner "owner"
        validateRepositoryComponent repository "repository"
        let path := ['/'].intercalate (parts.drop 2)
        if !path.isEmpty then validateRelativePath path
        return .remote owner repository path gitRef

/-- `owner/repository[/path]@ref`, or a path that begins with `./` or with `$/`. -/
def ActionReference.parse (source : Text) : Except String ActionReference :=
  match stripPrefix? ['.', '/'] source with
  | some path => do
      validateRelativePath path
      return .localAction path
  | none =>
      match stripPrefix? ['$', '/'] source with
      | some path => do
          let path := path.dropWhile (· = '/')
          validateRelativePath path
          return .selfRepository path
      | none =>
          if "docker://".toList.isPrefixOf source then
            .error "Docker actions are not supported on the native macOS executor"
          else parseRemote source

/-- A workflow file of another repository at a ref. -/
structure RemoteReusableWorkflowReference where
  owner : Text
  repository : Text
  path : Text
  gitRef : Text
deriving Repr, DecidableEq

/-- `Path::extension` of a path whose last component has the given name. -/
def extension (name : Text) : Option Text :=
  if name.contains '.' && name ≠ ['.', '.'] then
    if ((name.reverse.dropWhile (· ≠ '.')).drop 1).isEmpty then none
    else some (name.reverse.takeWhile (· ≠ '.')).reverse
  else none

def isWorkflowFile (path : Text) : Bool :=
  let parts := components path
  !parts.isEmpty && parts.dropLast = [".github".toList, "workflows".toList] &&
    (parts.getLast?.bind extension).any fun extension =>
      extension = "yml".toList || extension = "yaml".toList

/-- A reference whose path is a workflow file and whose ref is no full one. -/
def RemoteReusableWorkflowReference.parse (source : Text) :
    Except String RemoteReusableWorkflowReference := do
  let quoted := "reusable workflow reference '" ++ String.ofList source ++ "'"
  match ← ActionReference.parse source with
  | .remote owner repository path gitRef =>
      if "refs/".toList.isPrefixOf gitRef then
        .error (quoted ++ " must not use a refs/ prefix")
      else if !isWorkflowFile path then
        .error (quoted ++ " must name a file directly in .github/workflows")
      else
        return { owner, repository, gitRef, path := path.map fun char =>
          if char = '\\' then '/' else char }
  | _ => .error (quoted ++ " must include owner/repository and @ref")

/-! ### Directories -/

/-- A path as the components that were joined. -/
abbrev FilePath := List Text

def urlSafeSymbol (sextet : Nat) : Char :=
  match Base64.symbol sextet with
  | '+' => '-'
  | '/' => '_'
  | char => char

/-- `URL_SAFE_NO_PAD.encode` -/
def encodeRef (gitRef : Text) : Text :=
  (Base64.sextets (gitRef.flatMap String.utf8EncodeChar)).map urlSafeSymbol

/-- `none` if the run directory has no parent. -/
def remoteRepositoryCachePath (runDir : FilePath) (owner repository : Text) : Option FilePath :=
  if runDir = [] then none
  else some (runDir.dropLast ++ ["_action-cache".toList, owner, repository ++ ".git".toList])

/-- The file of the run that keeps the commit of the ref. -/
def remoteRepositoryResolutionPath (runDir : FilePath) (owner repository gitRef : Text) :
    FilePath :=
  runDir ++ ["_action-resolutions".toList, owner, repository, encodeRef gitRef]

/-- The directory of the checkouts of a job. -/
def checkoutRoot (runDir : FilePath) (job : String)
    (scope : RemoteRepositoryMaterializationScope) : FilePath :=
  runDir ++ ["_actions".toList, (sanitizeId job).toList, scope.directoryName.toList]

/-- The directory of a checkout at the ref. -/
def remoteRepositoryCheckoutPath (runDir : FilePath) (job : String)
    (scope : RemoteRepositoryMaterializationScope) (owner repository gitRef : Text) : FilePath :=
  checkoutRoot runDir job scope ++ [owner, repository, encodeRef gitRef]

end GitZero.Agent.ActionReferences
