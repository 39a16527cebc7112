import Findings.Entries

/-!
# TOML values

A TOML document as a value, and the tables of a document that is being read. While a document is
read, a table remembers how it came about, because that decides whether a later line may add to it:
a table that only a longer path has named may still be defined by a header, and one that dotted
keys have made may only be extended by dotted keys.
-/

namespace Findings

inductive TomlValue where
  | string (s : String)
  | int (n : Int)
  /-- A float, by its text. -/
  | float (text : String)
  | bool (b : Bool)
  /-- A date, a time, or both, in its normal form. -/
  | datetime (text : String)
  | array (items : List TomlValue)
  | table (entries : List (String × TomlValue))
  deriving Inhabited

/-- Why a text is no TOML document. -/
inductive TomlError where
  | unexpectedEnd
  | unexpected (c : Char)
  | invalidEscape
  | invalidNumber
  | duplicateKey (key : String)
  | tooDeep
  deriving DecidableEq, Repr

namespace TomlError

def message : TomlError → String
  | unexpectedEnd => "unexpected end of text"
  | unexpected c => s!"unexpected character '{c}'"
  | invalidEscape => "invalid escape sequence"
  | invalidNumber => "invalid number"
  | duplicateKey key => s!"duplicate key `{key}`"
  | tooDeep => "nested too deeply"

/-- The error at a place where something else was expected. -/
def atStart : List Char → TomlError
  | [] => unexpectedEnd
  | c :: _ => unexpected c

end TomlError

/-- An entry of a table that is being read. -/
inductive TomlItem where
  | value (v : TomlValue)
  /-- A table. It is implicit while only longer paths or dotted keys have named it, and dotted if
  dotted keys have made it. -/
  | table (implicit dotted : Bool) (entries : List (String × TomlItem))
  /-- The tables of one array of tables. -/
  | tables (elements : List TomlItem)
  deriving Inhabited

/-- The entries of a table that is being read. -/
abbrev TomlEntries := List (String × TomlItem)

namespace TomlItem

mutual

/-- The value of an entry once the document is read. -/
def toValue : TomlItem → TomlValue
  | .value v => v
  | .table _ _ entries => .table (toEntries entries)
  | .tables elements => .array (toValues elements)

def toValues : List TomlItem → List TomlValue
  | [] => []
  | element :: elements => toValue element :: toValues elements

def toEntries : TomlEntries → List (String × TomlValue)
  | [] => []
  | (key, item) :: entries => (key, toValue item) :: toEntries entries

end

end TomlItem

namespace TomlEntries

/-- Changes the table that a path leads to, and makes the tables on the way that are missing;
`dotted` says whether the path is that of a dotted key. An array of tables leads to its last
table. `change` also gets whether the table is dotted. -/
def descend (dotted : Bool) (change : Bool → TomlEntries → Except TomlError TomlEntries) :
    (isDotted : Bool) → (path : List String) → TomlEntries → Except TomlError TomlEntries
  | isDotted, [], entries => change isDotted entries
  | _, key :: path, entries => do
    let item ←
      match Entries.get? key entries with
      | none => (descend dotted change dotted path []).map (.table true dotted)
      | some (.value _) => .error (.duplicateKey key)
      | some (.table implicit isDotted below) =>
        if dotted && !implicit then .error (.duplicateKey key)
        else (descend dotted change isDotted path below).map (.table implicit isDotted)
      | some (.tables elements) =>
        match elements.reverse with
        | .table implicit isDotted below :: others =>
          (descend dotted change isDotted path below).map fun below =>
            .tables (TomlItem.table implicit isDotted below :: others).reverse
        | _ => .error (.duplicateKey key)
    .ok (Entries.set key item entries)

/-- Adds a new key. Keys and tables of one another's kind do not mix: a dotted key may only add to
a table that dotted keys have made. -/
def addKey (path : List String) (key : String) (value : TomlValue) (isDotted : Bool)
    (entries : TomlEntries) : Except TomlError TomlEntries :=
  if isDotted = path.isEmpty then .error (.duplicateKey key)
  else
    match Entries.get? key entries with
    | some _ => .error (.duplicateKey key)
    | none => .ok (entries ++ [(key, .value value)])

/-- Adds the value of a possibly dotted key, whose last part is `key`. -/
def addDotted (path : List String) (key : String) (value : TomlValue) (isDotted : Bool)
    (entries : TomlEntries) : Except TomlError TomlEntries :=
  descend true (addKey path key value) isDotted path entries

/-- Adds the value of a key below the table that the last header has named. -/
def addBelow (header path : List String) (key : String) (value : TomlValue)
    (entries : TomlEntries) : Except TomlError TomlEntries :=
  descend false (addDotted path key value) false header entries

/-- Defines the table of a header `[path.key]`. -/
def defineTable (path : List String) (key : String) (entries : TomlEntries) :
    Except TomlError TomlEntries :=
  let define (_ : Bool) (entries : TomlEntries) : Except TomlError TomlEntries :=
    match Entries.get? key entries with
    | none => .ok (Entries.set key (.table false false []) entries)
    | some (.table true false below) => .ok (Entries.set key (.table false false below) entries)
    | some _ => .error (.duplicateKey key)
  descend false define false path entries

/-- Adds a table to the array of tables of a header `[[path.key]]`. -/
def appendTable (path : List String) (key : String) (entries : TomlEntries) :
    Except TomlError TomlEntries :=
  let append (_ : Bool) (entries : TomlEntries) : Except TomlError TomlEntries :=
    match Entries.get? key entries with
    | none => .ok (Entries.set key (.tables [.table false false []]) entries)
    | some (.tables elements) =>
      .ok (Entries.set key (.tables (elements ++ [.table false false []])) entries)
    | some _ => .error (.duplicateKey key)
  descend false append false path entries

end TomlEntries

end Findings
