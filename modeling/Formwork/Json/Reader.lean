-- Reading documents. A strict reading decodes every text, wants numbers in range and nests less
-- than 128 levels; a loose reading, for members that nobody asks for, only looks at the form.
import Formwork.Json.Number

namespace Formwork.Json.Reader

/-! ## Characters -/

/-- The text without leading blanks. -/
def skipBlanks (cs : List Char) : List Char :=
  cs.dropWhile fun c => c == ' ' || c == '\n' || c == '\t' || c == '\r'

/-- The rest after a word, if the text begins with it. -/
def word? (w : List Char) (cs : List Char) : Option (List Char) :=
  if w.isPrefixOf cs then some (cs.drop w.length) else none

/-- The value of a hexadecimal digit. -/
def hexDigit? (c : Char) : Option Nat :=
  if c.isDigit then some (c.toNat - '0'.toNat)
  else if 'a' ≤ c && c ≤ 'f' then some (c.toNat - 'a'.toNat + 10)
  else if 'A' ≤ c && c ≤ 'F' then some (c.toNat - 'A'.toNat + 10)
  else none

/-- Four hexadecimal digits and the rest. -/
def unit? : List Char → Option (Nat × List Char)
  | a :: b :: c :: d :: rest => do
    let a ← hexDigit? a
    let b ← hexDigit? b
    let c ← hexDigit? c
    let d ← hexDigit? d
    return (((a * 16 + b) * 16 + c) * 16 + d, rest)
  | _ => none

/-- The character of a code unit, or of a pair of units of which the second follows in `rest`. An
unpaired half of a pair is refused by a strict reading. -/
def codePoint? (strict : Bool) (u : Nat) (rest : List Char) : Option (Char × List Char) :=
  if u < 0xD800 || 0xDFFF < u then some (Char.ofNat u, rest)
  else
    let pair := match rest with
      | '\\' :: 'u' :: low =>
        match unit? low with
        | some (v, after) =>
          if u < 0xDC00 && 0xDC00 ≤ v && v ≤ 0xDFFF then
            some (Char.ofNat (0x10000 + (u - 0xD800) * 0x400 + (v - 0xDC00)), after)
          else none
        | none => none
      | _ => none
    if pair.isNone && !strict then some ('\ufffd', rest) else pair

/-- The character after a backslash and the rest. -/
def escape? (strict : Bool) : List Char → Option (Char × List Char)
  | '"' :: rest => some ('"', rest)
  | '\\' :: rest => some ('\\', rest)
  | '/' :: rest => some ('/', rest)
  | 'b' :: rest => some ('\x08', rest)
  | 'f' :: rest => some ('\x0c', rest)
  | 'n' :: rest => some ('\n', rest)
  | 'r' :: rest => some ('\r', rest)
  | 't' :: rest => some ('\t', rest)
  | 'u' :: rest => (unit? rest).bind fun (u, after) => codePoint? strict u after
  | _ => none

/-- The characters up to the closing quote, after the opening one. `fuel` bounds their number. -/
def characters? (strict : Bool) : Nat → List Char → Option (List Char × List Char)
  | 0, _ => none
  | _ + 1, [] => none
  | _ + 1, '"' :: rest => some ([], rest)
  | fuel + 1, '\\' :: rest => do
    let (c, after) ← escape? strict rest
    let (read, rest) ← characters? strict fuel after
    return (c :: read, rest)
  | fuel + 1, c :: rest =>
    if c.toNat < 0x20 then none
    else do
      let (read, rest) ← characters? strict fuel rest
      return (c :: read, rest)

/-- A text after its opening quote. -/
def string? (strict : Bool) (cs : List Char) : Option (String × List Char) :=
  (characters? strict (cs.length + 1) cs).map fun (read, rest) => (String.ofList read, rest)

/-! ## Numbers -/

/-- The leading digits and the rest. -/
def digits (cs : List Char) : List Nat × List Char :=
  ((cs.takeWhile Char.isDigit).map fun c => c.toNat - '0'.toNat, cs.dropWhile Char.isDigit)

/-- A point with at least one digit, or nothing of both. -/
def fraction? : List Char → Option (List Nat × List Char)
  | '.' :: rest =>
    let (ds, after) := digits rest
    if ds.isEmpty then none else some (ds, after)
  | cs => some ([], cs)

/-- A mark with a sign and at least one digit, or nothing of them. -/
def power? (cs : List Char) : Option (Option (Bool × Nat) × List Char) :=
  match cs with
  | c :: rest =>
    if c == 'e' || c == 'E' then
      let (down, rest) := match rest with
        | '+' :: after => (false, after)
        | '-' :: after => (true, after)
        | after => (false, after)
      let (ds, after) := digits rest
      if ds.isEmpty then none
      else some (some (down, ds.foldl (fun n d => 10 * n + d) 0), after)
    else some (none, cs)
  | [] => some (none, cs)

/-- A number and the rest. The whole part is a single zero or begins with another digit. -/
def numeral? (cs : List Char) : Option (Numeral × List Char) := do
  let (negative, cs) := match cs with
    | '-' :: rest => (true, rest)
    | rest => (false, rest)
  let (whole, cs) := digits cs
  if whole.isEmpty || (whole.head? == some 0 && 1 < whole.length) then none
  else
    let (fraction, cs) ← fraction? cs
    let (power, cs) ← power? cs
    return (⟨negative, whole, fraction, power⟩, cs)

/-- A number read strictly, or only looked at. -/
def number? (strict : Bool) (cs : List Char) : Option (Json × List Char) := do
  let (n, rest) ← numeral? cs
  if strict then return (← n.toJson?, rest) else return (.integer 0, rest)

/-! ## Documents -/

mutual

/-- A document and the rest. Each step takes at least one character or one unit of `fuel`; `depth`
is the number of levels that may still open, and a loose reading does not count them. -/
def value? (strict : Bool) : Nat → Nat → List Char → Option (Json × List Char)
  | 0, _, _ => none
  | fuel + 1, depth, cs =>
    match skipBlanks cs with
    | '"' :: rest => (string? strict rest).map fun (s, rest) => (.text s, rest)
    | '[' :: rest =>
      if strict && depth ≤ 1 then none
      else match skipBlanks rest with
        | ']' :: rest => some (.array [], rest)
        | rest => (items? strict fuel (depth - 1) rest).map fun (items, rest) =>
            (.array items, rest)
    | '\x7b' :: rest =>
      if strict && depth ≤ 1 then none
      else match skipBlanks rest with
        | '\x7d' :: rest => some (.object [], rest)
        | rest => (members? strict fuel (depth - 1) rest).map fun (members, rest) =>
            (.object (Ordered.ofPairs members), rest)
    | 'n' :: rest => (word? ['u', 'l', 'l'] rest).map fun rest => (.null, rest)
    | 't' :: rest => (word? ['r', 'u', 'e'] rest).map fun rest => (.bool true, rest)
    | 'f' :: rest => (word? ['a', 'l', 's', 'e'] rest).map fun rest => (.bool false, rest)
    | rest => number? strict rest

/-- The items of an array that has at least one, and the rest after the bracket. -/
def items? (strict : Bool) : Nat → Nat → List Char → Option (List Json × List Char)
  | 0, _, _ => none
  | fuel + 1, depth, cs => do
    let (item, rest) ← value? strict fuel depth cs
    match skipBlanks rest with
    | ']' :: rest => return ([item], rest)
    | ',' :: rest =>
      let (items, rest) ← items? strict fuel depth rest
      return (item :: items, rest)
    | _ => none

/-- The members of an object that has at least one, and the rest after the brace. -/
def members? (strict : Bool) : Nat → Nat → List Char → Option (List (String × Json) × List Char)
  | 0, _, _ => none
  | fuel + 1, depth, cs => do
    match skipBlanks cs with
    | '"' :: rest =>
      let (key, rest) ← string? strict rest
      match skipBlanks rest with
      | ':' :: rest =>
        let (value, rest) ← value? strict fuel depth rest
        match skipBlanks rest with
        | '\x7d' :: rest => return ([(key, value)], rest)
        | ',' :: rest =>
          let (members, rest) ← members? strict fuel depth rest
          return ((key, value) :: members, rest)
        | _ => none
      | _ => none
    | _ => none

end

/-- A document at the start of a text, and the rest. -/
def document? (strict : Bool) (cs : List Char) : Option (Json × List Char) :=
  value? strict (3 * cs.length + 3) 128 cs

end Reader

/-- The document that a whole text writes, blanks around it aside. -/
def parse? (text : String) : Option Json :=
  match Reader.document? true text.toList with
  | some (document, rest) => if (Reader.skipBlanks rest).isEmpty then some document else none
  | none => none

end Formwork.Json
