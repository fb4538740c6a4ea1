/-
Module: GitZero.Expression.Evaluation
Purpose: The expression crate: analysis of expressions and templates, and their
  evaluation in a context.
Trusted boundary: the parser, the value semantics and the file system, as `Externals`
Main exports: Expr, Value, Externals, ExpressionAnalysis, analyzeExpression,
  analyzeTemplate, EvaluationContext, evaluate, render
-/
import Mathlib.Algebra.Ring.Nat
import Mathlib.Data.List.Basic

namespace GitZero.Expression

abbrev Text := List Char

/-- What the status functions are asked about. -/
inductive ExecutionStatus where
  | success | failure | cancelled | skipped
deriving Repr, DecidableEq

/-- The functions of the expression language. -/
inductive Function where
  | contains | startsWith | endsWith | format | join | toJson | fromJson | hashFiles
  | success | always | cancelled | failure | case
deriving Repr, DecidableEq

/-- The binary operators. -/
inductive BinOp where
  | and | or | eq | neq | gt | ge | lt | le
deriving Repr, DecidableEq

/-- The one unary operator. -/
inductive UnOp where
  | not
deriving Repr, DecidableEq

/-- The literals of an expression. -/
inductive Literal (Number : Type) where
  | string (value : Text)
  | number (value : Number)
  | boolean (value : Bool)
  | null
deriving Repr, DecidableEq

/-- The syntax tree of the parser crate, without its spans. -/
inductive Expr (Number : Type) where
  | literal (value : Literal Number)
  | star
  | identifier (name : Text)
  | index (inner : Expr Number)
  | call (func : Function) (arguments : List (Expr Number))
  | context (parts : List (Expr Number))
  | binary (left : Expr Number) (op : BinOp) (right : Expr Number)
  | unary (op : UnOp) (inner : Expr Number)

/-- The values of the parser crate.  An object lists its entries in the order in
which its map iterates. -/
inductive Value (Number : Type) where
  | string (value : Text)
  | number (value : Number)
  | boolean (value : Bool)
  | null
  | array (values : List (Value Number))
  | object (entries : List (Text × Value Number))

/-- Code outside the crate: the parser and the value semantics of
`github_actions_expressions`, `serde_json`, Unicode upper case, and `hash_files`,
which reads the file system under a workspace. -/
class Externals where
  Number : Type
  ParseError : Type
  HashError : Type
  Path : Type
  parse : Text → Except ParseError (Expr Number)
  asBoolean : Value Number → Bool
  /-- `sema() ==`, `>` and `>=` -/
  semaEq : Value Number → Value Number → Bool
  semaGt : Value Number → Value Number → Bool
  semaGe : Value Number → Value Number → Bool
  semaLt : Value Number → Value Number → Bool
  semaLe : Value Number → Value Number → Bool
  /-- `sema().to_string()` -/
  display : Value Number → Text
  /-- the value as an index if it is whole and not negative -/
  wholeIndex : Number → Option Nat
  toUppercase : Text → Text
  /-- conversion to JSON, then `to_string_pretty` -/
  prettyJson : Value Number → Option Text
  /-- `from_str`; the inner option is the conversion of the JSON value -/
  readJson : Text → Option (Option (Value Number))
  hashFiles : Path → List Text → Except HashError Text

export Externals (Number ParseError HashError Path)

section Externals

variable [Externals]

/-- Why an expression does not evaluate. -/
inductive ExpressionError where
  | parse (error : ParseError)
  | unknownContext (name : Text)
  | invalidAccess (index : Text) (valueType : String)
  | unsupportedFunction (name : String)
  | invalidFunction (name : String)
  | hashFiles (error : HashError)
  | unclosedTemplate
  | jsonConversion

/-! ### Text -/

def toAsciiLowercase (text : Text) : Text := text.map Char.toLower

omit [Externals] in
theorem toLower_toLower (char : Char) : char.toLower.toLower = char.toLower := by
  have settled : ¬ (char.toLower.val ≥ 'A'.val ∧ char.toLower.val ≤ 'Z'.val) := by
    unfold Char.toLower
    split <;> grind [UInt32.toNat_add, Char.toNat_val]
  generalize char.toLower = lowered at settled ⊢
  unfold Char.toLower
  rw [dif_neg settled]

omit [Externals] in
theorem toAsciiLowercase_twice (text : Text) :
    toAsciiLowercase (toAsciiLowercase text) = toAsciiLowercase text := by
  rw [toAsciiLowercase, toAsciiLowercase, List.map_map]
  exact List.map_congr_left fun char _ => toLower_toLower char

/-- Unicode `White_Space` -/
def isWhitespace (char : Char) : Bool :=
  let code := char.toNat
  (9 ≤ code && code ≤ 13) || code = 32 || code = 0x85 || code = 0xA0 || code = 0x1680 ||
    (0x2000 ≤ code && code ≤ 0x200A) || code = 0x2028 || code = 0x2029 || code = 0x202F ||
    code = 0x205F || code = 0x3000

def trim (text : Text) : Text :=
  ((text.dropWhile isWhitespace).reverse.dropWhile isWhitespace).reverse

def stripSuffix (text suffix : Text) : Option Text :=
  if suffix <:+ text then some (text.take (text.length - suffix.length)) else none

def unwrapExpression (source : Text) : Text :=
  let trimmed := trim source
  match trimmed with
  | '$' :: '\x7b' :: '\x7b' :: rest =>
      match stripSuffix rest ['\x7d', '\x7d'] with
      | some inner => trim inner
      | none => trimmed
  | _ => trimmed

/-- `parse::<usize>()` -/
def parseUsize (text : Text) : Option Nat :=
  let digits := match text with
    | '+' :: rest => rest
    | _ => text
  if digits.isEmpty || !digits.all Char.isDigit then none
  else
    let value := digits.foldl (fun value digit => value * 10 + (digit.toNat - 48)) 0
    if value < 2 ^ 64 then some value else none

omit [Externals] in
theorem parseUsize_toDigits {number : Nat} (small : number < 2 ^ 64) :
    parseUsize (Nat.toDigits 10 number) = some number := by
  have digits : ∀ char ∈ Nat.toDigits 10 number, char.isDigit = true := fun char member =>
    Nat.isDigit_of_mem_toDigits (by decide) (by decide) member
  have value : (Nat.toDigits 10 number).foldl
      (fun value digit => value * 10 + (digit.toNat - 48)) 0 = number := by
    have folded : _ = number := Nat.ofDigitChars_ten_toDigits
    have zero : '0'.toNat = 48 := rfl
    simp only [Nat.ofDigitChars_eq_foldl, Nat.mul_comm 10, zero] at folded
    exact folded
  unfold parseUsize
  dsimp only
  split
  · rename_i rest same
    have plus := digits '+' (same ▸ List.mem_cons_self)
    cases plus
  · rw [if_neg, value, if_pos small]
    rw [Bool.or_eq_true, not_or, Bool.not_eq_true', Bool.not_eq_false, List.isEmpty_iff]
    exact ⟨Nat.toDigits_ne_nil, List.all_eq_true.mpr digits⟩

/-! ### Analysis -/

/-- What an expression refers to: its contexts, and whether it asks for the status or for the hash
of files. -/
structure ExpressionAnalysis where
  contextRoots : List Text := []
  usesStatusFunction : Bool := false
  usesHashFiles : Bool := false
deriving Repr, DecidableEq

def ExpressionAnalysis.insertRoot (analysis : ExpressionAnalysis) (name : Text) :
    ExpressionAnalysis :=
  { analysis with contextRoots := analysis.contextRoots.insert (toAsciiLowercase name) }

def ExpressionAnalysis.merge (analysis other : ExpressionAnalysis) : ExpressionAnalysis where
  contextRoots := analysis.contextRoots ∪ other.contextRoots
  usesStatusFunction := analysis.usesStatusFunction || other.usesStatusFunction
  usesHashFiles := analysis.usesHashFiles || other.usesHashFiles

def Function.isStatus : Function → Bool
  | .success | .always | .cancelled | .failure => true
  | _ => false

/-- The head of a context: a name is a root, anything else has been visited. -/
def ExpressionAnalysis.atHead (analysis visited : ExpressionAnalysis) :
    Expr Number → ExpressionAnalysis
  | .identifier name => analysis.insertRoot name
  | _ => visited

/-- A further part of a context.  An index is visited through what it wraps, so its
arm is the general one. -/
def ExpressionAnalysis.atPart (analysis visited : ExpressionAnalysis) :
    Expr Number → ExpressionAnalysis
  | .identifier _ | .star | .literal _ => analysis
  | _ => visited

mutual

def analyzeSpannedExpression (analysis : ExpressionAnalysis) :
    Expr Number → ExpressionAnalysis
  | .literal _ | .star => analysis
  | .identifier name => analysis.insertRoot name
  | .index inner => analyzeSpannedExpression analysis inner
  | .call func arguments =>
      analyzeArguments
        { analysis with
          usesStatusFunction := analysis.usesStatusFunction || func.isStatus
          usesHashFiles := analysis.usesHashFiles || func = .hashFiles } arguments
  | .context [] => analysis
  | .context (head :: parts) =>
      analyzeParts (analysis.atHead (analyzeSpannedExpression analysis head) head) parts
  | .binary left _ right =>
      analyzeSpannedExpression (analyzeSpannedExpression analysis left) right
  | .unary _ inner => analyzeSpannedExpression analysis inner

def analyzeArguments (analysis : ExpressionAnalysis) : List (Expr Number) → ExpressionAnalysis
  | [] => analysis
  | argument :: arguments =>
      analyzeArguments (analyzeSpannedExpression analysis argument) arguments

def analyzeParts (analysis : ExpressionAnalysis) : List (Expr Number) → ExpressionAnalysis
  | [] => analysis
  | part :: parts =>
      analyzeParts (analysis.atPart (analyzeSpannedExpression analysis part) part) parts

end

/-- What an expression refers to, by its syntax alone. -/
def analyzeExpression (source : Text) : Except ExpressionError ExpressionAnalysis :=
  match Externals.parse (unwrapExpression source) with
  | .error error => .error (.parse error)
  | .ok expression => .ok (analyzeSpannedExpression {} expression)

/-! ### Values -/

def evaluationType : Value Number → String
  | .string _ => "a string"
  | .number _ => "a number"
  | .boolean _ => "a boolean"
  | .null => "null"
  | .array _ => "an array"
  | .object _ => "an object"

def evaluateLiteral : Literal Number → Value Number
  | .string value => .string value
  | .number value => .number value
  | .boolean value => .boolean value
  | .null => .null

def accessValue (value index : Value Number) : Except ExpressionError (Value Number) :=
  let displayIndex := Externals.display index
  match value with
  | .object entries =>
      match entries.find? fun entry =>
          toAsciiLowercase entry.1 = toAsciiLowercase displayIndex with
      | some (_, found) => .ok found
      | none => .ok (.string [])
  | .array values =>
      let position : Except ExpressionError Nat :=
        match index with
        | .number number =>
            match Externals.wholeIndex number with
            | some position => .ok position
            | none => .error (.invalidAccess displayIndex "an array")
        | .string text =>
            match parseUsize text with
            | some position => .ok position
            | none => .error (.invalidAccess text "an array")
        | _ => .error (.invalidAccess displayIndex "an array")
      position.map fun position => values.getD position (.string [])
  | .null => .ok .null
  | .string [] => .ok (.string [])
  | other => .error (.invalidAccess displayIndex (evaluationType other))

/-- What a path of accesses has selected: one value, or those that a `*` has spread. -/
inductive Selection where
  | one (value : Value Number)
  | many (values : List (Value Number))

def Selection.access (selection : Selection) (index : Value Number) :
    Except ExpressionError Selection :=
  match selection with
  | .one value => (accessValue value index).map .one
  | .many values => (values.mapM fun value => accessValue value index).map .many

def expandValue : Value Number → Except ExpressionError (List (Value Number))
  | .array values => .ok values
  | .object entries => .ok (entries.map (·.2))
  | other => .error (.invalidAccess ['*'] (evaluationType other))

def Selection.wildcard : Selection → Except ExpressionError Selection
  | .one value => (expandValue value).map .many
  | .many values => (values.mapM expandValue).map fun lists => .many lists.flatten

def Selection.finish : Selection → Value Number
  | .one value => value
  | .many values => .array values

/-! ### Functions -/

/-- `needle` occurs in `text`. -/
def containsText (text needle : Text) : Bool := text.tails.any fun rest => needle.isPrefixOf rest

def contains : List (Value Number) → Except ExpressionError (Value Number)
  | [haystack, needle] =>
      match haystack with
      | .array values => .ok (.boolean (values.any fun value => Externals.semaEq value needle))
      | .object _ => .error (.invalidFunction "contains")
      | _ =>
          .ok (.boolean (containsText (Externals.toUppercase (Externals.display haystack))
            (Externals.toUppercase (Externals.display needle))))
  | _ => .error (.invalidFunction "contains")

def Value.isCollection : Value Number → Bool
  | .array _ | .object _ => true
  | _ => false

def startsOrEndsWith (starts : Bool) : List (Value Number) → Except ExpressionError (Value Number)
  | [haystack, needle] =>
      if haystack.isCollection || needle.isCollection then .ok (.boolean false)
      else
        let text := Externals.toUppercase (Externals.display haystack)
        let part := Externals.toUppercase (Externals.display needle)
        .ok (.boolean (if starts then part.isPrefixOf text else part.isSuffixOf text))
  | _ => .error (.invalidFunction (if starts then "startsWith" else "endsWith"))

/-- The loop of `format_values` from the cursor on. -/
def formatLoop (arguments : List (Value Number)) (output : Text) :
    Text → Except ExpressionError Text
  | [] => .ok output
  | '\x7b' :: '\x7b' :: rest => formatLoop arguments (output ++ ['\x7b']) rest
  | '\x7d' :: '\x7d' :: rest => formatLoop arguments (output ++ ['\x7d']) rest
  | '\x7b' :: rest =>
      match _split : rest.dropWhile (· ≠ '\x7d') with
      | [] => .error (.invalidFunction "format")
      | _ :: after =>
          match parseUsize ((rest.takeWhile (· ≠ '\x7d')).takeWhile (· ≠ ':')) with
          | none => .error (.invalidFunction "format")
          | some index =>
              -- A release build does not check the addition.
              match arguments[(index + 1) % 2 ^ 64]? with
              | none => .error (.invalidFunction "format")
              | some value => formatLoop arguments (output ++ Externals.display value) after
  | '\x7d' :: _ => .error (.invalidFunction "format")
  | char :: rest => formatLoop arguments (output ++ [char]) rest
termination_by text => text.length
decreasing_by
  · simp only [List.length_cons]
    omega
  · simp only [List.length_cons]
    omega
  · have shorter := (List.dropWhile_sublist (l := rest) (· ≠ '\x7d')).length_le
    rw [_split] at shorter
    simp only [List.length_cons] at shorter ⊢
    omega
  · simp only [List.length_cons]
    omega

def formatValues : List (Value Number) → Except ExpressionError (Value Number)
  | [] => .error (.invalidFunction "format")
  | template :: values =>
      (formatLoop (template :: values) [] (Externals.display template)).map .string

def joinText (separator : Text) (texts : List Text) : Text := (texts.intersperse separator).flatten

def join : List (Value Number) → Except ExpressionError (Value Number)
  | [value] => .ok (.string (joined [','] value))
  | [value, separator] => .ok (.string (joined (Externals.display separator) value))
  | _ => .error (.invalidFunction "join")
where
  joined (separator : Text) : Value Number → Text
    | .array values => joinText separator (values.map Externals.display)
    | .object _ => []
    | value => Externals.display value

def toJson : List (Value Number) → Except ExpressionError (Value Number)
  | [value] =>
      match Externals.prettyJson value with
      | some text => .ok (.string text)
      | none => .error .jsonConversion
  | _ => .error (.invalidFunction "toJSON")

def fromJson : List (Value Number) → Except ExpressionError (Value Number)
  | [value] =>
      match Externals.readJson (Externals.display value) with
      | none => .error (.invalidFunction "fromJSON")
      | some none => .error .jsonConversion
      | some (some read) => .ok read
  | _ => .error (.invalidFunction "fromJSON")

/-- The pairs of `case`, then its default. -/
def caseLoop : List (Value Number) → Except ExpressionError (Value Number)
  | [fallback] => .ok fallback
  | .boolean true :: value :: _ => .ok value
  | .boolean false :: _ :: rest => caseLoop rest
  | _ => .error (.invalidFunction "case")

def case (arguments : List (Value Number)) : Except ExpressionError (Value Number) :=
  if arguments.length < 3 || arguments.length % 2 = 0 then .error (.invalidFunction "case")
  else caseLoop arguments

/-! ### JSON -/

/-- `serde_json::Value`; an object lists its entries by their keys. -/
inductive Json (Number : Type) where
  | null
  | bool (value : Bool)
  | number (value : Number)
  | string (value : Text)
  | array (values : List (Json Number))
  | object (entries : List (Text × Json Number))

def jsonType {JsonNumber : Type} : Json JsonNumber → String
  | .string _ => "a string"
  | .number _ => "a number"
  | .bool _ => "a boolean"
  | .null => "null"
  | .array _ => "an array"
  | .object _ => "an object"

/-- `insert` of the map of an object. -/
def insertEntry {α : Type} (key : Text) (value : α) : List (Text × α) → List (Text × α)
  | [] => [(key, value)]
  | (other, old) :: rest =>
      if key = other then (key, value) :: rest
      else if key < other then (key, value) :: (other, old) :: rest
      else (other, old) :: insertEntry key value rest

/-- `extend` of the map of an object. -/
def extendEntries {α : Type} (object entries : List (Text × α)) : List (Text × α) :=
  entries.foldl (fun object entry => insertEntry entry.1 entry.2 object) object

/-- The conversions between values and JSON of the parser crate. -/
class JsonConversions where
  JsonNumber : Type
  toJson : Value Number → Option (Json JsonNumber)
  ofJson : Json JsonNumber → Option (Value Number)

export JsonConversions (JsonNumber)

/-! ### Evaluation -/

/-- What an expression is evaluated in. -/
structure EvaluationContext where
  /-- keyed by the lower-case name -/
  roots : List (Text × Value Number) := []
  status : ExecutionStatus := .success
  workspace : Option Path := none

/-- The map of the roots without a name that is in lower case. -/
def EvaluationContext.removeRoot (context : EvaluationContext) (key : Text) : EvaluationContext :=
  { context with roots := context.roots.filter (·.1 ≠ key) }

def EvaluationContext.insertRoot (context : EvaluationContext) (key : Text)
    (value : Value Number) : EvaluationContext :=
  { context with roots := (key, value) :: context.roots.filter (·.1 ≠ key) }

def EvaluationContext.insertString (context : EvaluationContext) (name value : Text) :
    EvaluationContext :=
  context.insertRoot (toAsciiLowercase name) (.string value)

def EvaluationContext.root? (context : EvaluationContext) (name : Text) : Option (Value Number) :=
  context.roots.lookup (toAsciiLowercase name)

def EvaluationContext.rootValue (context : EvaluationContext) (name : Text) :
    Except ExpressionError (Value Number) :=
  match context.root? name with
  | some value => .ok value
  | none => .error (.unknownContext name)

def EvaluationContext.insertJson [JsonConversions] (context : EvaluationContext) (name : Text)
    (value : Json JsonNumber) : EvaluationContext × Except ExpressionError Unit :=
  match JsonConversions.ofJson value with
  | none => (context, .error .jsonConversion)
  | some value => (context.insertRoot (toAsciiLowercase name) value, .ok ())

/-- The root is taken out first; only the last line puts it back. -/
def EvaluationContext.extendJsonObject [JsonConversions] (context : EvaluationContext)
    (name : Text) (entries : List (Text × Json JsonNumber)) :
    EvaluationContext × Except ExpressionError Unit :=
  let key := toAsciiLowercase name
  let removed := context.removeRoot key
  let current : Option (Json JsonNumber) :=
    match context.roots.lookup key with
    | some value => JsonConversions.toJson value
    | none => some (.object [])
  match current with
  | none => (removed, .error .jsonConversion)
  | some (.object object) => removed.insertJson key (.object (extendEntries object entries))
  | some other => (removed, .error (.invalidAccess name (jsonType other)))

def EvaluationContext.hashFiles (context : EvaluationContext) (arguments : List (Value Number)) :
    Except ExpressionError (Value Number) :=
  match context.workspace with
  | none => .error (.unsupportedFunction "hashFiles")
  | some workspace =>
      match Externals.hashFiles workspace (arguments.map Externals.display) with
      | .ok digest => .ok (.string digest)
      | .error error => .error (.hashFiles error)

/-- The status functions, which do not look at their arguments. -/
def EvaluationContext.statusValue (context : EvaluationContext) : Function → Option Bool
  | .success => some (context.status = .success)
  | .always => some true
  | .cancelled => some (context.status = .cancelled)
  | .failure => some (context.status = .failure)
  | _ => none

def EvaluationContext.applyFunction (context : EvaluationContext) (func : Function)
    (arguments : List (Value Number)) : Except ExpressionError (Value Number) :=
  match func with
  | .contains => contains arguments
  | .startsWith => startsOrEndsWith true arguments
  | .endsWith => startsOrEndsWith false arguments
  | .format => formatValues arguments
  | .join => join arguments
  | .toJson => toJson arguments
  | .fromJson => fromJson arguments
  | .case => case arguments
  | .hashFiles => context.hashFiles arguments
  | .success | .always | .cancelled | .failure =>
      .ok (.boolean ((context.statusValue func).getD false))

def compareValues (op : BinOp) (left right : Value Number) : Bool :=
  match op with
  | .eq => Externals.semaEq left right
  | .neq => !Externals.semaEq left right
  | .gt => Externals.semaGt left right
  | .ge => Externals.semaGe left right
  | .lt => Externals.semaLt left right
  | .le => Externals.semaLe left right
  | .and | .or => false

/-- The head of a context, whose value as an expression is `visited`. -/
def EvaluationContext.headValue (context : EvaluationContext)
    (visited : Except ExpressionError (Value Number)) :
    Expr Number → Except ExpressionError (Value Number)
  | .identifier name => context.rootValue name
  | _ => visited

/-- A further part of a context.  An index is evaluated through what it wraps, so its
arm is the general one. -/
def Selection.atPart (selection : Selection) (visited : Except ExpressionError (Value Number)) :
    Expr Number → Except ExpressionError Selection
  | .identifier name => selection.access (.string name)
  | .star => selection.wildcard
  | _ =>
      match visited with
      | .error error => .error error
      | .ok value => selection.access value

mutual

def EvaluationContext.evaluateExpr (context : EvaluationContext) :
    Expr Number → Except ExpressionError (Value Number)
  | .literal value => .ok (evaluateLiteral value)
  | .context [] => .error (.unknownContext [])
  | .context (head :: parts) =>
      match context.headValue (context.evaluateExpr head) head with
      | .error error => .error error
      | .ok value => (context.evaluateParts (.one value) parts).map Selection.finish
  | .call func arguments =>
      match context.statusValue func with
      | some answer => .ok (.boolean answer)
      | none =>
          match context.evaluateArguments arguments with
          | .error error => .error error
          | .ok values => context.applyFunction func values
  | .binary left op right =>
      match context.evaluateExpr left with
      | .error error => .error error
      | .ok value =>
          match op with
          | .and => if Externals.asBoolean value then context.evaluateExpr right else .ok value
          | .or => if Externals.asBoolean value then .ok value else context.evaluateExpr right
          | _ =>
              match context.evaluateExpr right with
              | .error error => .error error
              | .ok other => .ok (.boolean (compareValues op value other))
  | .unary .not inner =>
      match context.evaluateExpr inner with
      | .error error => .error error
      | .ok value => .ok (.boolean (!Externals.asBoolean value))
  | .identifier name => context.rootValue name
  | .index inner => context.evaluateExpr inner
  | .star => .error (.invalidAccess ['*'] "a root expression")

def EvaluationContext.evaluateArguments (context : EvaluationContext) :
    List (Expr Number) → Except ExpressionError (List (Value Number))
  | [] => .ok []
  | argument :: arguments =>
      match context.evaluateExpr argument with
      | .error error => .error error
      | .ok value => (context.evaluateArguments arguments).map (value :: ·)

def EvaluationContext.evaluateParts (context : EvaluationContext) (selection : Selection) :
    List (Expr Number) → Except ExpressionError Selection
  | [] => .ok selection
  | part :: parts =>
      match selection.atPart (context.evaluateExpr part) part with
      | .error error => .error error
      | .ok selected => context.evaluateParts selected parts

end

/-- The value of an expression. -/
def EvaluationContext.evaluate (context : EvaluationContext) (source : Text) :
    Except ExpressionError (Value Number) :=
  match Externals.parse (unwrapExpression source) with
  | .error error => .error (.parse error)
  | .ok expression => context.evaluateExpr expression

/-! ### Templates -/

/-- `find_expression_end`: the text before the closing braces and the text behind
them. -/
def findExpressionEnd (quoted : Bool) : Text → Option (Text × Text)
  | [] => none
  | ['\''] => none
  | '\'' :: next :: rest =>
      if quoted && next = '\'' then
        (findExpressionEnd quoted rest).map fun (inner, after) => ('\'' :: next :: inner, after)
      else
        (findExpressionEnd (!quoted) (next :: rest)).map fun (inner, after) =>
          ('\'' :: inner, after)
  | char :: rest =>
      match quoted, char, rest with
      | false, '\x7d', '\x7d' :: after => some ([], after)
      | _, _, _ => (findExpressionEnd quoted rest).map fun (inner, after) => (char :: inner, after)

/-- The text before the first opening marker, and the text behind it. -/
def findExpressionStart : Text → Option (Text × Text)
  | [] => none
  | '$' :: '\x7b' :: '\x7b' :: rest => some ([], rest)
  | char :: rest => (findExpressionStart rest).map fun (before, after) => (char :: before, after)

omit [Externals] in
theorem findExpressionStart_shorter {text before after : Text}
    (found : findExpressionStart text = some (before, after)) : after.length < text.length := by
  induction text generalizing before with
  | nil => cases found
  | cons char rest inductionHypothesis =>
      unfold findExpressionStart at found
      split at found
      · cases found
      · rename_i marked
        cases found
        rw [marked]
        simp only [List.length_cons]
        omega
      · rename_i other same
        cases same
        obtain ⟨⟨inner, behind⟩, later, same⟩ := Option.map_eq_some_iff.mp found
        cases same
        exact Nat.lt_succ_of_lt (inductionHypothesis later)

omit [Externals] in
theorem findExpressionEnd_shorter {quoted : Bool} {text inner after : Text}
    (found : findExpressionEnd quoted text = some (inner, after)) : after.length ≤ text.length := by
  fun_induction findExpressionEnd quoted text generalizing inner after with
  | case1 => cases found
  | case2 => cases found
  | case3 quoted next rest doubled inductionHypothesis =>
      obtain ⟨⟨first, second⟩, later, same⟩ := Option.map_eq_some_iff.mp found
      cases same
      have shorter := inductionHypothesis later
      simp only [List.length_cons]
      omega
  | case4 quoted next rest single inductionHypothesis =>
      obtain ⟨⟨first, second⟩, later, same⟩ := Option.map_eq_some_iff.mp found
      cases same
      have shorter := inductionHypothesis later
      simp only [List.length_cons] at shorter ⊢
      omega
  | case5 closing =>
      cases found
      simp only [List.length_cons]
      omega
  | case6 quoted char rest _ _ _ inductionHypothesis =>
      obtain ⟨⟨first, second⟩, later, same⟩ := Option.map_eq_some_iff.mp found
      cases same
      have shorter := inductionHypothesis later
      simp only [List.length_cons]
      omega

/-- The loop of `analyze_template` from the cursor on. -/
def analyzeTemplateFrom (analysis : ExpressionAnalysis) (text : Text) :
    Except ExpressionError ExpressionAnalysis :=
  match _start : findExpressionStart text with
  | none => .ok analysis
  | some (_, behind) =>
      match _stop : findExpressionEnd false behind with
      | none => .error .unclosedTemplate
      | some (source, after) =>
          match analyzeExpression source with
          | .error error => .error error
          | .ok found => analyzeTemplateFrom (analysis.merge found) after
termination_by text.length
decreasing_by
  exact Nat.lt_of_le_of_lt (findExpressionEnd_shorter _stop) (findExpressionStart_shorter _start)

/-- What the expressions of a template refer to. -/
def analyzeTemplate (template : Text) : Except ExpressionError ExpressionAnalysis :=
  analyzeTemplateFrom {} template

/-- The loop of `render` from the cursor on. -/
def EvaluationContext.renderFrom (context : EvaluationContext) (rendered text : Text) :
    Except ExpressionError Text :=
  match _start : findExpressionStart text with
  | none => .ok (rendered ++ text)
  | some (before, behind) =>
      match _stop : findExpressionEnd false behind with
      | none => .error .unclosedTemplate
      | some (source, after) =>
          match context.evaluate source with
          | .error error => .error error
          | .ok value =>
              context.renderFrom (rendered ++ before ++ Externals.display value) after
termination_by text.length
decreasing_by
  exact Nat.lt_of_le_of_lt (findExpressionEnd_shorter _stop) (findExpressionStart_shorter _start)

/-- A template with its expressions replaced by their texts. -/
def EvaluationContext.render (context : EvaluationContext) (template : Text) :
    Except ExpressionError Text :=
  context.renderFrom [] template

end Externals

end GitZero.Expression
