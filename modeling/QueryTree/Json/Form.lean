import QueryTree.Json.Reader

/-!
JSON text read for the members of one name only. The other members are passed over: they must have
the form of documents, but their numbers may be of any size, their escapes may stand for half of a
pair, and they may be nested to any depth.
-/

namespace QueryTree.Json

open Text

/-- What is left of a text behind an escape, which is given behind its reverse solidus. -/
def passEscape? : List Char → Option (List Char)
  | 'u' :: rest => (codeUnit? rest).map Prod.snd
  | c :: rest => if "\"\\/bfnrt".toList.contains c then some rest else none
  | [] => none

def passString? : Nat → List Char → Option (List Char)
  | 0, _ => none
  | _, [] => none
  | fuel + 1, c :: rest =>
    if c = '"' then some rest
    else if c = '\\' then
      match passEscape? rest with
      | some rest => passString? fuel rest
      | none => none
    else if c.toNat < 0x20 then none
    else passString? fuel rest

mutual

/-- What is left of a text behind the document at its front. -/
def passDocument? : Nat → List Char → Option (List Char)
  | 0, _ => none
  | fuel + 1, text =>
    match skipSpace text with
    | '[' :: rest =>
      match skipSpace rest with
      | ']' :: rest => some rest
      | rest => passItems? fuel rest
    | '\x7b' :: rest =>
      match skipSpace rest with
      | '\x7d' :: rest => some rest
      | rest => passMembers? fuel rest
    | '"' :: rest => passString? (rest.length + 1) rest
    | 'n' :: rest => behind? "ull" rest
    | 't' :: rest => behind? "rue" rest
    | 'f' :: rest => behind? "alse" rest
    | rest => (numeral? rest).map Prod.snd

def passItems? : Nat → List Char → Option (List Char)
  | 0, _ => none
  | fuel + 1, text =>
    match passDocument? fuel text with
    | none => none
    | some rest =>
      match skipSpace rest with
      | ',' :: rest => passItems? fuel rest
      | ']' :: rest => some rest
      | _ => none

def passMembers? : Nat → List Char → Option (List Char)
  | 0, _ => none
  | fuel + 1, text =>
    match skipSpace text with
    | '"' :: rest =>
      match (passString? (rest.length + 1) rest).map skipSpace with
      | some (':' :: rest) =>
        match (passDocument? fuel rest).map skipSpace with
        | some (',' :: rest) => passMembers? fuel rest
        | some ('\x7d' :: rest) => some rest
        | _ => none
      | _ => none
    | _ => none

end

/-- The documents under a name among the members of an object that is not empty, up to its brace.
The names themselves are read like all else that counts. -/
def membersNamed? (name : String) (depth : Nat) :
    Nat → List Char → Option (List Json × List Char)
  | 0, _ => none
  | fuel + 1, text => do
    match skipSpace text with
    | '"' :: rest =>
      let (other, rest) ← string? rest
      match skipSpace rest with
      | ':' :: rest =>
        let (found, rest) ←
          if other = name then (document? depth fuel rest).map fun (value, rest) => ([value], rest)
          else (passDocument? fuel rest).map ([], ·)
        match skipSpace rest with
        | ',' :: rest =>
          let (more, rest) ← membersNamed? name depth fuel rest
          return (found ++ more, rest)
        | '\x7d' :: rest => return (found, rest)
        | _ => none
      | _ => none
    | _ => none

/-- The documents under a name in the object that a text holds, if it holds exactly one. -/
def namedInText? (name : String) (text : String) : Option (List Json) :=
  match skipSpace text.toList with
  | '\x7b' :: rest =>
    let found :=
      match skipSpace rest with
      | '\x7d' :: rest => some ([], rest)
      | rest => membersNamed? name 126 (2 * rest.length + 2) rest
    found.bind fun (values, rest) => if (skipSpace rest).isEmpty then some values else none
  | _ => none

end QueryTree.Json
