/-!
# Ordered tables

Entries under names, in an order that answers show: a new name goes to the back, and setting a
name that is there already moves it to the back.
-/

namespace NodeScript

/-- Entries of type `α` under names, in order. -/
structure OrderedTable (α : Type) where
  entries : List (String × α)

namespace OrderedTable

variable {α : Type}

def empty : OrderedTable α :=
  ⟨[]⟩

def keys (t : OrderedTable α) : List String :=
  t.entries.map Prod.fst

def get? (t : OrderedTable α) (name : String) : Option α :=
  t.entries.lookup name

def contains (t : OrderedTable α) (name : String) : Bool :=
  (t.get? name).isSome

def erase (t : OrderedTable α) (name : String) : OrderedTable α :=
  ⟨t.entries.filter fun e => e.1 != name⟩

/-- The table with an entry set, which is then the last. -/
def insert (t : OrderedTable α) (name : String) (entry : α) : OrderedTable α :=
  ⟨(t.erase name).entries ++ [(name, entry)]⟩

/-- The table with the entry under a name changed in its place, or with a new last entry. -/
def alter (t : OrderedTable α) (name : String) (change : α → α) (new : α) : OrderedTable α :=
  if t.contains name then
    ⟨t.entries.map fun e => if e.1 = name then (e.1, change e.2) else e⟩
  else ⟨t.entries ++ [(name, new)]⟩

/-- The table with all entries of another set, in their order. -/
def insertAll (t other : OrderedTable α) : OrderedTable α :=
  other.entries.foldl (fun t e => t.insert e.1 e.2) t

/-- The table of a list of entries set one after the other. -/
def ofList (entries : List (String × α)) : OrderedTable α :=
  insertAll empty ⟨entries⟩

end OrderedTable

end NodeScript
