-- The configuration of a setup. It is written as an object with four members, or as an array of
-- their values in order; what is left out takes its default, and members that are not known are
-- only looked at for their form.
import Formwork.Error
import Formwork.Json.Reader

namespace Formwork

/-- Limits and choices of a setup. -/
structure Config where
  /-- Binds with more attributes than this are reported in the log. -/
  maxBindDepth : Nat
  /-- How many close names an error shows. -/
  maxSuggestions : Nat
  /-- Whether an expression that is not resolved makes setup fail. -/
  failOnUnresolved : Bool
  /-- Deeper components are left out of a description. -/
  maxDescribeDepth : Nat
deriving DecidableEq, Repr

namespace Config

/-- What holds when nothing is said. -/
def standard : Config := ⟨3, 10, false, 15⟩

/-- Refuses depths of zero. -/
def validate (c : Config) : Except Error Unit :=
  if c.maxBindDepth = 0 then .error (.config "max_bind_depth must be at least 1")
  else if c.maxDescribeDepth = 0 then .error (.config "max_describe_depth must be at least 1")
  else .ok ()

/-! ## Reading -/

/-- The names of the members, in the order of an array. -/
def memberNames : List String :=
  ["max_bind_depth", "max_suggestions", "fail_on_unresolved", "max_describe_depth"]

/-- A number that 64 bits hold. -/
def count? : Json → Option Nat
  | .integer n => if 0 ≤ n then some n.toNat else none
  | _ => none

/-- Sets the member with a name, if the value is of the right kind. -/
def set? (c : Config) (name : String) (value : Json) : Option Config :=
  match name with
  | "max_bind_depth" => (count? value).map fun n => { c with maxBindDepth := n }
  | "max_suggestions" => (count? value).map fun n => { c with maxSuggestions := n }
  | "fail_on_unresolved" => value.bool?.map fun b => { c with failOnUnresolved := b }
  | "max_describe_depth" => (count? value).map fun n => { c with maxDescribeDepth := n }
  | _ => none

/-- The members of an object after its brace, and the rest after the closing one. A known member
comes at most once; `left` are the known members that have not come yet. -/
def members? (c : Config) (left : List String) : Nat → List Char → Option (Config × List Char)
  | 0, _ => none
  | fuel + 1, cs => do
    match Json.Reader.skipBlanks cs with
    | '"' :: rest =>
      let (name, rest) ← Json.Reader.string? true rest
      match Json.Reader.skipBlanks rest with
      | ':' :: rest =>
        let known := memberNames.contains name
        if known && !left.contains name then none
        else
          let (value, rest) ← Json.Reader.document? known rest
          let c ← if known then c.set? name value else some c
          match Json.Reader.skipBlanks rest with
          | '\x7d' :: rest => return (c, rest)
          | ',' :: rest => members? c (left.erase name) fuel rest
          | _ => none
      | _ => none
    | _ => none

/-- The values of an array after its bracket, for the members in order, and the rest after the
closing bracket. -/
def values? (c : Config) : List String → List Char → Option (Config × List Char)
  | [], _ => none
  | name :: left, cs => do
    let (value, rest) ← Json.Reader.document? true cs
    let c ← c.set? name value
    match Json.Reader.skipBlanks rest with
    | ']' :: rest => return (c, rest)
    | ',' :: rest => values? c left rest
    | _ => none

/-- The configuration that a whole text writes. -/
def parse? (text : String) : Option Config := do
  let (c, rest) ← match Json.Reader.skipBlanks text.toList with
    | '\x7b' :: rest =>
      match Json.Reader.skipBlanks rest with
      | '\x7d' :: rest => some (standard, rest)
      | rest => members? standard memberNames rest.length rest
    | '[' :: rest =>
      match Json.Reader.skipBlanks rest with
      | ']' :: rest => some (standard, rest)
      | rest => values? standard memberNames rest
    | _ => none
  if (Json.Reader.skipBlanks rest).isEmpty then some c else none

/-- Reads a configuration and checks it. -/
def readWith (complaint : String) (text : String) : Except Error Config := do
  match parse? text with
  | none => throw (.config complaint)
  | some c =>
    c.validate
    return c

/-- The configuration of a text. -/
def ofText (text : String) : Except Error Config := readWith "Failed to parse config:" text

/-- The configuration of a file with some content; nothing stands for a file that can not be
opened. -/
def ofFile (content : Option String) : Except Error Config :=
  match content with
  | some text => readWith "Failed to parse config file:" text
  | none => .error (.config "Failed to open config file:")

/-! ## Writing -/

/-- The configuration as an object, members in order and without blanks. -/
def write (c : Config) : String :=
  "\x7b" ++ ",".intercalate
    [s!"\"max_bind_depth\":{c.maxBindDepth}",
      s!"\"max_suggestions\":{c.maxSuggestions}",
      s!"\"fail_on_unresolved\":{c.failOnUnresolved}",
      s!"\"max_describe_depth\":{c.maxDescribeDepth}"] ++ "\x7d"

end Config

end Formwork
