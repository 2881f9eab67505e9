import QueryTree.Json.Basic

/-! Options for checking and writing a query. -/

namespace QueryTree

structure Options where
  /-- Check each level of a query before it is written. -/
  validate : Bool := true
  /-- Write columns without their owners. -/
  oneTable : Bool := false
  /-- Separate clauses by blanks rather than line ends. -/
  oneLine : Bool := true
  deriving DecidableEq

namespace Options

def separator (options : Options) : String :=
  if options.oneLine then " " else "\n"

def set? (options : Options) (name : String) (value : Bool) : Option Options :=
  match name with
  | "use_validation" => some { options with validate := value }
  | "one_table" => some { options with oneTable := value }
  | "one_line_sql" => some { options with oneLine := value }
  | _ => none

/-- The defaults changed by settings, each of a different option. -/
def ofSettings? (settings : List (String × Bool)) : Option Options :=
  if (settings.map Prod.fst).Nodup then
    settings.foldlM (fun options setting => options.set? setting.1 setting.2) {}
  else none

def toJson (options : Options) : Json :=
  .object [("use_validation", .bool options.validate), ("one_table", .bool options.oneTable),
    ("one_line_sql", .bool options.oneLine)]

def boolSetting? : String × Json → Option (String × Bool)
  | (name, .bool value) => some (name, value)
  | _ => none

def ofJson? : Json → Option Options
  | .object members => members.mapM boolSetting? >>= ofSettings?
  | .array items =>
    let names := ["use_validation", "one_table", "one_line_sql"]
    if items.length ≤ names.length then
      (names.zip items).mapM boolSetting? >>= ofSettings?
    else none
  | _ => none

end Options

end QueryTree
