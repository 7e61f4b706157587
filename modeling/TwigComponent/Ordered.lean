/-!
# Entries in order of insertion

A list of entries with distinct keys. A key stands where it was first inserted
and holds the value that was inserted last.
-/
namespace TwigComponent.Ordered

variable {κ ν : Type} [BEq κ]

/-- Changes the value under a key, or appends a new entry. -/
def alter (key : κ) (change : ν → ν) (fresh : ν) : List (κ × ν) → List (κ × ν)
  | [] => [(key, fresh)]
  | (k, value) :: rest =>
    if k == key then (k, change value) :: rest else (k, value) :: alter key change fresh rest

def insert (key : κ) (value : ν) (entries : List (κ × ν)) : List (κ × ν) :=
  alter key (fun _ => value) value entries

/-- Inserts the entries one after the other. -/
def ofList (entries : List (κ × ν)) : List (κ × ν) :=
  entries.foldl (fun done entry => insert entry.1 entry.2 done) []

/-- The value of the first entry with the key. -/
def get? (key : κ) : List (κ × ν) → Option ν
  | [] => none
  | (k, value) :: rest => if k == key then some value else get? key rest

/-- The members without repetition, in order of first occurrence. -/
def distinct (items : List κ) : List κ :=
  (ofList (items.map fun item => (item, ()))).map (·.1)

end TwigComponent.Ordered
