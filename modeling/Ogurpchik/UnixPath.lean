import Mathlib.Tactic.SplitIfs

/-!
# Unix Paths

A path is a string of bytes, and names are put behind one another with separators between them.
What a path means is in its components, and a name adds one to them only if it holds no separator
and is neither empty nor one of the two names that lead elsewhere.

## Main definitions

* `join`, `components`: putting paths together and taking them apart.
* `IsPlain`: a name that is one component.

## Main results

* `components_join`: a plain name is one more component.
* `isPrefix_join`: the path a plain name is joined to stays in front of it.
-/

namespace UnixPath

/-- `/`, the one byte that separates the names of a path. -/
def SEPARATOR : UInt8 := 0x2f

/-- `Path::join`: an absolute path replaces the first one, and a separator is put in between where
there is none. -/
def join (base name : List UInt8) : List UInt8 :=
  if name.head? = some SEPARATOR then name
  else if base = [] ∨ base.getLast? = some SEPARATOR then base ++ name
  else base ++ SEPARATOR :: name

/-- The names between the separators. Empty ones are left out, so that repeated separators count
once and a path with one at its end is the path without it. -/
def components (path : List UInt8) : List (List UInt8) :=
  (path.splitOn SEPARATOR).filter (· ≠ [])

/-- A name that is one component, and neither the directory itself nor the one above it. -/
structure IsPlain (name : List UInt8) : Prop where
  separator : SEPARATOR ∉ name
  ne_nil : name ≠ []
  ne_dot : name ≠ [0x2e]
  ne_dotdot : name ≠ [0x2e, 0x2e]

/-- A separator splits a path: the components on its two sides are found independently. -/
theorem components_append (path rest : List UInt8) :
    components (path ++ SEPARATOR :: rest) = components path ++ components rest := by
  rw [components, List.splitOn_append_cons_self, List.filter_append, components, components]

/-- A plain name is one component, and is found as it stands. -/
theorem components_of_isPlain {name : List UInt8} (h : IsPlain name) :
    components name = [name] := by
  rw [components, List.splitOn_eq_singleton h.separator]
  simp [h.ne_nil]

/-- A plain name is never absolute, so `join` appends it, with a separator if there is none at
the end. -/
theorem IsPlain.join_eq {name : List UInt8} (h : IsPlain name) (base : List UInt8) :
    join base name = if base = [] ∨ base.getLast? = some SEPARATOR then base ++ name
      else base ++ SEPARATOR :: name :=
  if_neg fun hhead => h.separator (List.mem_of_mem_head? hhead)

/-- **A name is one more component**, whatever the path it is joined to. -/
theorem components_join {name : List UInt8} (h : IsPlain name) (base : List UInt8) :
    components (join base name) = components base ++ [name] := by
  rw [h.join_eq]
  split_ifs with hbase
  · rcases hbase with rfl | hlast
    · rw [List.nil_append, components_of_isPlain h]
      rfl
    · -- the separator is there already
      obtain ⟨front, rfl⟩ := List.getLast?_eq_some_iff.mp hlast
      rw [List.append_assoc, List.singleton_append, components_append, components_append,
        components_of_isPlain h]
      simp [components]
  · rw [components_append, components_of_isPlain h]

/-- And the path it is joined to stays in front of it. -/
theorem isPrefix_join {name : List UInt8} (h : IsPlain name) (base : List UInt8) :
    base <+: join base name := by
  rw [h.join_eq]
  split_ifs with hbase
  · exact List.prefix_append _ _
  · exact List.prefix_append _ _

end UnixPath
