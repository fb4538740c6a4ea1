/-
Module: GitZero.Agent.Commands
Purpose: The workflow commands that a process writes into its output: what the lines
  mean, one by one.
Trusted boundary: none
Main exports: decodeWorkflowCommandData, decodeWorkflowCommandProperty,
  parseRemoveMatcherCommand, parseWorkflowAnnotation, normalizeAnnotationPath,
  parseNamedWorkflowCommand
-/
import GitZero.Expression.Evaluation
import GitZero.Lib.Splits

namespace GitZero.Agent.Commands

open Expression (Text toAsciiLowercase trim parseUsize)
open GitZero.Splits (splitOnce)

/-! ### Text -/

/-- `str::len` -/
def byteLength (text : Text) : Nat := (text.map Char.utf8Size).sum

def stripPrefix? (line start : Text) : Option Text :=
  if start <+: line then some (line.drop start.length) else none

/-- The prefix consists of ASCII characters. -/
def stripPrefixIgnoreAsciiCase (value start : Text) : Option Text :=
  if toAsciiLowercase (value.take start.length) = toAsciiLowercase start then
    some (value.drop start.length)
  else none

/-- `parse::<u32>()` -/
def parseU32 (text : Text) : Option Nat := (parseUsize text).filter (· < 2 ^ 32)

/-! ### Escapes -/

/-- `replace` of a percent sign and two characters by one character. -/
def replaceCode (high low char : Char) : Text → Text
  | [] => []
  | '%' :: first :: second :: rest =>
      if first = high ∧ second = low then char :: replaceCode high low char rest
      else '%' :: replaceCode high low char (first :: second :: rest)
  | first :: rest => first :: replaceCode high low char rest

def decodeLineBreaks (value : Text) : Text :=
  replaceCode '0' 'a' '\n' (replaceCode '0' 'A' '\n'
    (replaceCode '0' 'd' '\r' (replaceCode '0' 'D' '\r' value)))

/-- The data of a command; `%25` is decoded last. -/
def decodeWorkflowCommandData (value : Text) : Text :=
  replaceCode '2' '5' '%' (decodeLineBreaks value)

/-- A property of a command; `%25` is decoded last. -/
def decodeWorkflowCommandProperty (value : Text) : Text :=
  replaceCode '2' '5' '%' (replaceCode '2' 'c' ',' (replaceCode '2' 'C' ','
    (replaceCode '3' 'a' ':' (replaceCode '3' 'A' ':' (decodeLineBreaks value)))))

/-! ### Problem matchers -/

/-- What `::remove-matcher` names: an owner, or a file that lists owners. -/
inductive ProblemMatcherRemoval where
  | owner (owner : Text)
  | file (file : Text)
deriving Repr, DecidableEq

def isProblemMatcherWorkflowCommand (line : Text) : Bool :=
  (stripPrefixIgnoreAsciiCase line "::add-matcher::".toList).isSome ||
    (stripPrefixIgnoreAsciiCase line "::remove-matcher::".toList).isSome ||
    (stripPrefixIgnoreAsciiCase line "::remove-matcher ".toList).isSome

/-- The key under which a property is kept. -/
def foldKey (key : Text) : Text := toAsciiLowercase (trim key)

/-- The value of the first property of that name. -/
def findProperty (name properties : Text) : Option Text :=
  ((properties.splitOn ',').filterMap (splitOnce ['='])).findSome? fun (key, value) =>
    if foldKey key = toAsciiLowercase name then some (decodeWorkflowCommandProperty value)
    else none

/-- The property text and the data of `remove-matcher`, if the line is one. -/
def removeMatcherParts (body : Text) : Except String (Option (Text × Text)) :=
  match stripPrefix? body "::".toList with
  | some data => .ok (some ([], data))
  | none =>
      match stripPrefix? body " ".toList with
      | some properties =>
          match splitOnce "::".toList properties with
          | some parts => .ok (some parts)
          | none => .error "remove-matcher command is missing its data delimiter"
      | none => .ok none

/-- `::remove-matcher`, with the owner or the file that it names. -/
def parseRemoveMatcherCommand (line : Text) : Except String (Option ProblemMatcherRemoval) :=
  match stripPrefixIgnoreAsciiCase line "::remove-matcher".toList with
  | none => .ok none
  | some body => do
      match ← removeMatcherParts body with
      | none => return none
      | some (propertyText, data) =>
          let owner := (findProperty "owner".toList propertyText).filter (· ≠ [])
          match owner, decodeWorkflowCommandData data with
          | some owner, [] => return some (.owner owner)
          | none, char :: data => return some (.file (char :: data))
          | some _, _ :: _ => .error "remove-matcher command cannot specify both owner and file"
          | none, [] => .error "remove-matcher command must specify an owner or file"

/-! ### Annotations -/

/-- The levels of the Checks API. -/
inductive CheckAnnotationLevel where
  | notice
  | warning
  | failure
deriving Repr, DecidableEq

/-- An annotation of a line of output, as it goes to the check run. -/
structure CheckAnnotation where
  path : Text
  startLine : Nat
  endLine : Nat
  startColumn : Option Nat
  endColumn : Option Nat
  annotationLevel : CheckAnnotationLevel
  message : Text
  title : Option Text
deriving Repr, DecidableEq

def annotationLevel? (command : Text) : Option CheckAnnotationLevel :=
  if toAsciiLowercase command = "notice".toList then some .notice
  else if toAsciiLowercase command = "warning".toList then some .warning
  else if toAsciiLowercase command = "error".toList then some .failure
  else none

/-- The command and its property text. -/
def splitHeader (header : Text) : Text × Text := (splitOnce " ".toList header).getD (header, [])

def isAnnotationWorkflowCommand (line : Text) : Bool :=
  match stripPrefix? line "::".toList with
  | none => false
  | some body =>
      let header := ((splitOnce "::".toList body).map Prod.fst).getD body
      (annotationLevel? (splitHeader header).1).isSome

def collectProperty (properties : List (Text × Text)) (property : Text) :
    Except String (List (Text × Text)) :=
  match splitOnce ['='] property with
  | some (key, value) => .ok ((foldKey key, decodeWorkflowCommandProperty value) :: properties)
  | none => .error "annotation workflow command contains a property without a value"

/-- The properties, the last one first. -/
def collectProperties (propertyText : Text) : Except String (List (Text × Text)) :=
  ((propertyText.splitOn ',').filter (· ≠ [])).foldlM collectProperty []

def annotationCoordinate (properties : List (Text × Text)) (name : String) :
    Except String (Option Nat) :=
  match properties.lookup name.toList with
  | none => .ok none
  | some value =>
      match parseU32 value with
      | none => .error s!"annotation workflow command property '{name}' is not an integer"
      | some coordinate =>
          if coordinate = 0 || coordinate > 2 ^ 31 - 1 then
            .error s!"annotation workflow command property '{name}' is outside GitHub's range"
          else .ok (some coordinate)

/-- The columns of an annotation on one line. -/
def columnsOnLine : Option Nat → Option Nat → Except String (Option Nat × Option Nat)
  | none, none => .ok (none, none)
  | some start, none => .ok (some start, some start)
  | none, some stop => .ok (some stop, some stop)
  | some start, some stop =>
      if start ≤ stop then .ok (some start, some stop)
      else .error "annotation workflow command endColumn precedes col"

/-! ### Paths -/

/-- `std::path::Component` of a Unix path. -/
inductive Component where
  | rootDir
  | curDir
  | parentDir
  | normal (name : Text)
deriving Repr, DecidableEq

def component? (first : Bool) (piece : Text) : Option Component :=
  if piece = [] then none
  else if piece = ['.'] then if first then some .curDir else none
  else if piece = ['.', '.'] then some .parentDir
  else some (.normal piece)

def components (path : Text) : List Component :=
  match path.splitOn '/' with
  | [] => []
  | [] :: pieces =>
      -- An empty path has no root.
      (if pieces = [] then [] else [.rootDir]) ++ pieces.filterMap (component? false)
  | piece :: pieces => (component? true piece).toList ++ pieces.filterMap (component? false)

def isAbsolute (path : Text) : Bool := path.head? = some '/'

/-- The names of the components, or `.github` for a path that leaves its directory. -/
def normalizeComponents (normalized : List Text) : List Component → List Text
  | [] => normalized
  | .curDir :: rest => normalizeComponents normalized rest
  | .normal name :: rest => normalizeComponents (normalized ++ [name]) rest
  | .parentDir :: _ => [".github".toList]
  | .rootDir :: _ => [".github".toList]

def maxCheckAnnotationPathBytes : Nat := 4096

def maxCheckAnnotationMessageBytes : Nat := 65536

def maxCheckAnnotationTitleBytes : Nat := 255

/-- The components of a path under the workspace. -/
def relativeComponents (value : Text) (workspace : Option Text) : List Component :=
  let outside := components ".github".toList
  if isAbsolute value then
    match workspace with
    | some workspace =>
        if components workspace <+: components value then
          (components value).drop (components workspace).length
        else outside
    | none => outside
  else if (value.take 2).map Char.utf8Size = [1, 1] ∧ value[1]? = some ':' then outside
  else components value

/-- The path relative to the workspace, without `.` and `..`. -/
def normalizeAnnotationPath (value : Text) (workspace : Option Text) : Except String Text :=
  let value := value.map fun char => if char = '\\' then '/' else char
  let normalized := normalizeComponents [] (relativeComponents value workspace)
  let path := if normalized = [] then ".github".toList else ['/'].intercalate normalized
  if byteLength path > maxCheckAnnotationPathBytes ||
      path.any fun char => char = '\x00' || char = '\r' || char = '\n' then
    .error "annotation workflow command contains an invalid file path"
  else .ok path

/-! ### Annotation commands -/

def checkMessage (message : Text) : Except String Unit :=
  if message = [] || byteLength message > maxCheckAnnotationMessageBytes ||
      message.contains '\x00' then
    .error "annotation workflow command contains an invalid message"
  else .ok ()

def checkTitle (title : Option Text) : Except String Unit :=
  if title.any fun title =>
      byteLength title > maxCheckAnnotationTitleBytes || title.contains '\x00' then
    .error "annotation workflow command contains an invalid title"
  else .ok ()

/-- `::notice`, `::warning` or `::error` as an annotation; other lines give none. -/
def parseWorkflowAnnotation (line : Text) (workspace : Option Text) :
    Except String (Option CheckAnnotation) :=
  if !isAnnotationWorkflowCommand line then .ok none
  else
    match splitOnce "::".toList (line.drop 2) with
    | none => .error "annotation workflow command is missing its data delimiter"
    | some (header, data) =>
        match annotationLevel? (splitHeader header).1 with
        | none => .ok none
        | some annotationLevel => do
            let properties ← collectProperties (splitHeader header).2
            let message := decodeWorkflowCommandData data
            checkMessage message
            let path ← normalizeAnnotationPath
              ((properties.lookup "file".toList).getD ".github".toList) workspace
            let startLine := (← annotationCoordinate properties "line").getD 1
            let endLine := (← annotationCoordinate properties "endline").getD startLine
            if endLine < startLine then
              .error "annotation workflow command endLine precedes line"
            else
              let startColumn ← annotationCoordinate properties "col"
              let endColumn ← annotationCoordinate properties "endcolumn"
              let columns ←
                if startLine = endLine then columnsOnLine startColumn endColumn
                else .ok (none, none)
              let title := (properties.lookup "title".toList).filter (· ≠ [])
              checkTitle title
              return some {
                path, startLine, endLine, annotationLevel, message, title
                startColumn := columns.1
                endColumn := columns.2 }

def CheckAnnotationLevel.word : CheckAnnotationLevel → Text
  | .notice => "notice".toList
  | .warning => "warning".toList
  | .failure => "error".toList

def annotationLogLine (note : CheckAnnotation) : Text :=
  match note.title with
  | some title =>
      note.annotationLevel.word ++ ": ".toList ++ title ++ ": ".toList ++ note.message
  | none => note.annotationLevel.word ++ ": ".toList ++ note.message

/-! ### Outputs and state -/

/-- A command with the one property `name`: the name and the data. -/
def parseNamedWorkflowCommand (line : Text) (command : String) :
    Except String (Option (Text × Text)) :=
  match stripPrefixIgnoreAsciiCase line s!"::{command} ".toList with
  | none => .ok none
  | some commandBody =>
      match splitOnce "::".toList commandBody with
      | none => .error s!"legacy {command} command is missing its data delimiter"
      | some (properties, data) =>
          match findProperty "name".toList properties with
          | none => .error s!"legacy {command} command is missing its name property"
          | some name => .ok (some (name, decodeWorkflowCommandData data))

end GitZero.Agent.Commands
