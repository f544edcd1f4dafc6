/-!
# ModuleBundler — tables of names

A table gives values to names. It remembers the order in which the names were
first given one; a name that is given a new value keeps its place.
-/

namespace ModuleBundler

/-- Values by name, in the order in which the names were added. -/
structure NameTable (β : Type) where
  entries : List (String × β)
  nodup : (entries.map Prod.fst).Nodup

namespace NameTable

variable {β : Type}

/-- No names. -/
def empty : NameTable β := ⟨[], List.nodup_nil⟩

instance : Inhabited (NameTable β) := ⟨empty⟩

/-- The names of a table, in order. -/
def names (t : NameTable β) : List String := t.entries.map Prod.fst

/-- The value of a name in a list of entries. -/
def lookupIn (name : String) : List (String × β) → Option β
  | [] => none
  | (n, v) :: rest => if n = name then some v else lookupIn name rest

/-- Entries with a new value for a name, which is put at the end if it is not
among them. -/
def put (name : String) (value : β) : List (String × β) → List (String × β)
  | [] => [(name, value)]
  | (n, v) :: rest => if n = name then (n, value) :: rest else (n, v) :: put name value rest

theorem map_fst_put (name : String) (value : β) (entries : List (String × β)) :
    (put name value entries).map Prod.fst =
      if name ∈ entries.map Prod.fst then entries.map Prod.fst
      else entries.map Prod.fst ++ [name] := by
  induction entries with
  | nil => rfl
  | cons e rest ih => grind [put]

/-- The value of a name. -/
def find? (t : NameTable β) (name : String) : Option β := lookupIn name t.entries

/-- Whether a name has a value. -/
def contains (t : NameTable β) (name : String) : Bool := (t.find? name).isSome

/-- Gives a value to a name. -/
def insert (t : NameTable β) (name : String) (value : β) : NameTable β :=
  ⟨put name value t.entries, by
    rw [map_fst_put]
    split
    · exact t.nodup
    · rename_i h
      refine List.nodup_append.2 ⟨t.nodup, by simp, fun a ha b hb hab => h ?_⟩
      rwa [← List.mem_singleton.1 hb, ← hab]⟩

/-- Gives a value to a name that has none. -/
def insertIfNew (t : NameTable β) (name : String) (value : β) : NameTable β :=
  if t.contains name then t else t.insert name value

theorem find?_empty (name : String) : (empty : NameTable β).find? name = none := rfl

theorem find?_insert (t : NameTable β) (name : String) (value : β) (other : String) :
    (t.insert name value).find? other = if other = name then some value else t.find? other := by
  obtain ⟨entries, h⟩ := t
  simp only [insert, find?]
  clear h
  induction entries with
  | nil => grind [put, lookupIn]
  | cons e rest ih => grind [put, lookupIn]

end NameTable

end ModuleBundler
