/-! Texts between single quotes: a quote inside is written twice. -/

namespace QueryTree.Text

def doubleQuotes : List Char → List Char
  | [] => []
  | c :: rest => if c = '\'' then '\'' :: '\'' :: doubleQuotes rest else c :: doubleQuotes rest

def quoted (text : String) : String :=
  "'" ++ String.ofList (doubleQuotes text.toList) ++ "'"

end QueryTree.Text
