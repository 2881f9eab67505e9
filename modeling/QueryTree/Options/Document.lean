import QueryTree.Error
import QueryTree.Options.Basic
import QueryTree.Text.Digits

/-!
Options read from a settings document: lines that assign true or false to a name, with comments
behind a number sign. A name may be bare, or quoted on either side.
-/

namespace QueryTree.Options

open Text

def skipSpace (line : List Char) : List Char :=
  line.dropWhile fun c => c = ' ' || c = '\t'

/-- Characters that may stand in comments and between quotes: all but the controls of ASCII other
than the tab. -/
def isPlain (c : Char) : Bool :=
  c = '\t' || (0x20 ≤ c.toNat && c.toNat ≠ 0x7F)

def isBareName (c : Char) : Bool :=
  c.isAlphanum || c = '_' || c = '-'

def codeEscape? (width : Nat) (line : List Char) : Option (Char × List Char) := do
  let digits := line.take width
  let code ← ofHex? digits
  if digits.length = width ∧ code.isValidChar then
    return (Char.ofNat code, line.drop width)
  else none

def escape? : List Char → Option (Char × List Char)
  | 'b' :: rest => some ('\x08', rest)
  | 't' :: rest => some ('\t', rest)
  | 'n' :: rest => some ('\n', rest)
  | 'f' :: rest => some ('\x0c', rest)
  | 'r' :: rest => some ('\r', rest)
  | '"' :: rest => some ('"', rest)
  | '\\' :: rest => some ('\\', rest)
  | 'u' :: rest => codeEscape? 4 rest
  | 'U' :: rest => codeEscape? 8 rest
  | _ => none

/-- The characters of a name up to its closing quote. Escapes are for double quotes only. -/
def quotedName? (quote : Char) : Nat → List Char → Option (List Char × List Char)
  | 0, _ => none
  | _, [] => none
  | fuel + 1, c :: rest =>
    if c = quote then some ([], rest)
    else if c = '\\' ∧ quote = '"' then do
      let (d, rest) ← escape? rest
      let (name, rest) ← quotedName? quote fuel rest
      return (d :: name, rest)
    else if isPlain c then
      (quotedName? quote fuel rest).map fun (name, rest) => (c :: name, rest)
    else none

def name? : List Char → Option (List Char × List Char)
  | [] => none
  | c :: rest =>
    if c = '"' ∨ c = '\'' then quotedName? c (rest.length + 1) rest
    else
      let name := (c :: rest).takeWhile isBareName
      if name.isEmpty then none else some (name, (c :: rest).drop name.length)

def isEnd (line : List Char) : Bool :=
  match skipSpace line with
  | [] => true
  | c :: comment => c = '#' && comment.all isPlain

/-- The setting of a line, if it holds one; fails on a line that is none. -/
def setting? (line : List Char) : Option (Option (String × Bool)) :=
  if isEnd line then some none
  else do
    let (name, rest) ← name? (skipSpace line)
    match skipSpace rest with
    | '=' :: rest =>
      let (value, rest) ← match skipSpace rest with
        | 't' :: 'r' :: 'u' :: 'e' :: rest => some (true, rest)
        | 'f' :: 'a' :: 'l' :: 's' :: 'e' :: rest => some (false, rest)
        | _ => none
      if isEnd rest then return some (String.ofList name, value) else none
    | _ => none

/-- The lines of a document. A carriage return belongs to the line end behind it. -/
def lines : List Char → List (List Char)
  | [] => [[]]
  | '\r' :: '\n' :: rest => [] :: lines rest
  | '\n' :: rest => [] :: lines rest
  | c :: rest =>
    match lines rest with
    | [] => [[c]]
    | line :: found => (c :: line) :: found

def ofDocument (document : String) : Except QueryError Options :=
  let chars := match document.toList with
    | '\ufeff' :: rest => rest
    | chars => chars
  match (lines chars).mapM setting? >>= fun settings => ofSettings? (settings.filterMap id) with
  | some options => .ok options
  | none => .error .invalidOptions

end QueryTree.Options
