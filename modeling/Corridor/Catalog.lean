/-!
# Catalogs

A finite map that remembers the order in which its keys first arrived. Setting a key that is
there keeps its place.
-/

namespace Corridor

/-- Entries in the order in which their keys arrived. -/
structure Catalog (κ α : Type) where
  entries : List (κ × α)
deriving Inhabited

namespace Catalog

variable {κ α β : Type}

/-- No entries. -/
def empty : Catalog κ α := ⟨[]⟩

/-- The keys, in order. -/
def keys (c : Catalog κ α) : List κ := c.entries.map (·.1)

/-- The values, in the order of their keys. -/
def values (c : Catalog κ α) : List α := c.entries.map (·.2)

/-- How many keys there are. -/
def size (c : Catalog κ α) : Nat := c.entries.length

/-- Changes every value. -/
def map (f : κ → α → β) (c : Catalog κ α) : Catalog κ β :=
  ⟨c.entries.map fun e => (e.1, f e.1 e.2)⟩

/-- Keeps the entries whose key passes a test. -/
def filterKeys (p : κ → Bool) (c : Catalog κ α) : Catalog κ α :=
  ⟨c.entries.filter fun e => p e.1⟩

/-! ### Look-up -/

variable [BEq κ]

/-- The value of a key. -/
def get? (c : Catalog κ α) (k : κ) : Option α := c.entries.lookup k

/-- The value of a key, or a value to take instead. -/
def getD (c : Catalog κ α) (k : κ) (default : α) : α := (c.get? k).getD default

/-- Whether a key is there. -/
def contains (c : Catalog κ α) (k : κ) : Bool := (c.get? k).isSome

/-- Sets the value of a key in a list of entries. -/
def setIn (k : κ) (v : α) : List (κ × α) → List (κ × α)
  | [] => [(k, v)]
  | e :: es => if e.1 == k then (e.1, v) :: es else e :: setIn k v es

/-- Sets the value of a key. -/
def insert (c : Catalog κ α) (k : κ) (v : α) : Catalog κ α := ⟨setIn k v c.entries⟩

/-- The catalog of a list of entries, of which a later one of the same key wins. -/
def ofList (es : List (κ × α)) : Catalog κ α := es.foldl (fun c e => c.insert e.1 e.2) empty

/-- The catalog that gives each of the listed keys a value, in order of first appearance. -/
def tabulate (ks : List κ) (f : κ → α) : Catalog κ α :=
  ⟨ks.eraseDups.map fun k => (k, f k)⟩

/-- How often each of the listed keys occurs, in order of first appearance. -/
def tally (ks : List κ) : Catalog κ Nat := tabulate ks ks.count

end Catalog

end Corridor
