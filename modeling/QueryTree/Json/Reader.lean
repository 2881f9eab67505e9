import QueryTree.Json.Number

/-! JSON text read strictly, to a depth of 127 arrays and objects. -/

namespace QueryTree.Json

open Text

def isSpace (c : Char) : Bool :=
  c = ' ' || c = '\n' || c = '\t' || c = '\r'

def skipSpace (text : List Char) : List Char :=
  text.dropWhile isSpace

def codeUnit? : List Char → Option (Nat × List Char)
  | a :: b :: c :: d :: rest => (ofHex? [a, b, c, d]).map (·, rest)
  | _ => none

/-- The character of an escape by code units; the halves of a pair count only together. -/
def escapedUnit? (text : List Char) : Option (Char × List Char) := do
  let (high, rest) ← codeUnit? text
  if 0xDC00 ≤ high ∧ high < 0xE000 then none
  else if 0xD800 ≤ high ∧ high < 0xDC00 then
    match rest with
    | '\\' :: 'u' :: rest =>
      let (low, rest) ← codeUnit? rest
      if 0xDC00 ≤ low ∧ low < 0xE000 then
        return (Char.ofNat (0x10000 + (high - 0xD800) * 0x400 + (low - 0xDC00)), rest)
      else none
    | _ => none
  else return (Char.ofNat high, rest)

def escaped? : List Char → Option (Char × List Char)
  | '"' :: rest => some ('"', rest)
  | '\\' :: rest => some ('\\', rest)
  | '/' :: rest => some ('/', rest)
  | 'b' :: rest => some ('\x08', rest)
  | 'f' :: rest => some ('\x0c', rest)
  | 'n' :: rest => some ('\n', rest)
  | 'r' :: rest => some ('\r', rest)
  | 't' :: rest => some ('\t', rest)
  | 'u' :: rest => escapedUnit? rest
  | _ => none

/-- The characters up to the closing quote, in reverse, put before `done`. -/
def stringBody? : Nat → List Char → List Char → Option (List Char × List Char)
  | 0, _, _ => none
  | _, [], _ => none
  | fuel + 1, c :: rest, done =>
    if c = '"' then some (done, rest)
    else if c = '\\' then
      match escaped? rest with
      | some (d, rest) => stringBody? fuel rest (d :: done)
      | none => none
    else if c.toNat < 0x20 then none
    else stringBody? fuel rest (c :: done)

def string? (text : List Char) : Option (String × List Char) :=
  (stringBody? (text.length + 1) text []).map fun (done, rest) => (String.ofList done.reverse, rest)

def behind? (word : String) (text : List Char) : Option (List Char) :=
  let chars := word.toList
  if text.take chars.length = chars then some (text.drop chars.length) else none

mutual

/-- The document at the front of a text. Every step down takes one from `depth` at an array or an
object, and from `fuel` always. -/
def document? (depth : Nat) : Nat → List Char → Option (Json × List Char)
  | 0, _ => none
  | fuel + 1, text =>
    match skipSpace text with
    | '[' :: rest =>
      if depth = 0 then none
      else
        match skipSpace rest with
        | ']' :: rest => some (.array [], rest)
        | rest => (items? (depth - 1) fuel rest).map fun (items, rest) => (.array items, rest)
    | '\x7b' :: rest =>
      if depth = 0 then none
      else
        match skipSpace rest with
        | '\x7d' :: rest => some (.object [], rest)
        | rest => (members? (depth - 1) fuel rest).map fun (members, rest) =>
            (.object members, rest)
    | '"' :: rest => (string? rest).map fun (s, rest) => (.string s, rest)
    | 'n' :: rest => (behind? "ull" rest).map (.null, ·)
    | 't' :: rest => (behind? "rue" rest).map (.bool true, ·)
    | 'f' :: rest => (behind? "alse" rest).map (.bool false, ·)
    | rest => do
      let (numeral, rest) ← numeral? rest
      return (.number (← numeral.value?), rest)

def items? (depth : Nat) : Nat → List Char → Option (List Json × List Char)
  | 0, _ => none
  | fuel + 1, text => do
    let (item, rest) ← document? depth fuel text
    match skipSpace rest with
    | ',' :: rest =>
      let (items, rest) ← items? depth fuel rest
      return (item :: items, rest)
    | ']' :: rest => return ([item], rest)
    | _ => none

def members? (depth : Nat) : Nat → List Char → Option (List (String × Json) × List Char)
  | 0, _ => none
  | fuel + 1, text => do
    match skipSpace text with
    | '"' :: rest =>
      let (name, rest) ← string? rest
      match skipSpace rest with
      | ':' :: rest =>
        let (value, rest) ← document? depth fuel rest
        match skipSpace rest with
        | ',' :: rest =>
          let (members, rest) ← members? depth fuel rest
          return ((name, value) :: members, rest)
        | '\x7d' :: rest => return ([(name, value)], rest)
        | _ => none
      | _ => none
    | _ => none

end

def ofText? (text : String) : Option Json :=
  let chars := text.toList
  match document? 127 (2 * chars.length + 2) chars with
  | some (document, rest) => if (skipSpace rest).isEmpty then some document else none
  | none => none

end QueryTree.Json
