/-!
# ModuleBundler — sets of names in order

A set of names that remembers the order in which they were added. Adding a name
that is there changes nothing.
-/

namespace ModuleBundler

/-- Distinct names in the order of their first addition. -/
structure NameSet where
  toList : List String
  nodup : toList.Nodup

namespace NameSet

/-- No names. -/
def empty : NameSet := ⟨[], List.nodup_nil⟩

instance : Inhabited NameSet := ⟨empty⟩

/-- Whether a name was added. -/
def contains (s : NameSet) (name : String) : Bool := s.toList.contains name

/-- Adds a name at the end, unless it is there. -/
def insert (s : NameSet) (name : String) : NameSet :=
  if h : name ∈ s.toList then s
  else ⟨s.toList ++ [name], by
    refine List.nodup_append.2 ⟨s.nodup, by simp, fun a ha b hb hab => h ?_⟩
    rwa [← List.mem_singleton.1 hb, ← hab]⟩

/-- Adds names one after the other. -/
def insertAll (s : NameSet) (names : List String) : NameSet := names.foldl insert s

@[simp] theorem toList_empty : empty.toList = [] := rfl

theorem contains_iff {s : NameSet} {name : String} : s.contains name = true ↔ name ∈ s.toList := by
  simp [contains]

theorem toList_insert (s : NameSet) (name : String) :
    (s.insert name).toList =
      if name ∈ s.toList then s.toList else s.toList ++ [name] := by
  unfold insert
  split <;> simp_all

@[simp] theorem mem_insert {s : NameSet} {name other : String} :
    other ∈ (s.insert name).toList ↔ other ∈ s.toList ∨ other = name := by
  rw [toList_insert]
  split <;> grind

end NameSet

end ModuleBundler
