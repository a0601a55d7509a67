/-!
# Tables of files

A `FileTable` gives texts to names. Its entries are kept in the order of their names, which are
compared character by character.
-/

namespace ElementLint

/-- Texts by name. -/
structure FileTable where
  /-- The entries in the order of their names. -/
  entries : List (String × String)
  deriving DecidableEq, Repr, Inhabited

namespace FileTable

/-- The table without entries. -/
def empty : FileTable := ⟨[]⟩

/-- Puts an entry into its place among others. -/
def place (name text : String) : List (String × String) → List (String × String)
  | [] => [(name, text)]
  | entry :: rest =>
    if name < entry.1 then (name, text) :: entry :: rest
    else if name = entry.1 then (name, text) :: rest
    else entry :: place name text rest

/-- Gives a name a text, in the place of the one that it had. -/
def insert (table : FileTable) (name text : String) : FileTable :=
  ⟨place name text table.entries⟩

/-- The table of some entries; of two with one name the later counts. -/
def ofList (entries : List (String × String)) : FileTable :=
  entries.foldl (fun table entry => table.insert entry.1 entry.2) empty

/-- The text of a name. -/
def get? (table : FileTable) (name : String) : Option String :=
  table.entries.lookup name

/-- The names in their order. -/
def names (table : FileTable) : List String :=
  table.entries.map (·.1)

end FileTable

end ElementLint
