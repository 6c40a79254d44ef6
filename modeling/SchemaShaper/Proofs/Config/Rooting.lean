import SchemaShaper.Config.Basic
import SchemaShaper.Proofs.Text.Cuts

/-!
# Settings seen from roots

To see a path from one root and the result from another is to see it from the first root as the
second one sees it (`Path.join_join`), with empty paths, trailing slashes and absolute paths at any
of the three places. Seeing settings from a root acts on each of their paths and on nothing else
(`Config.mapPaths`), so the same law holds of settings (`Config.rooting_composes`).
-/

namespace SchemaShaper

namespace Path

variable {base path : String}

/-- What stands between a base that is not empty and a path behind it. -/
def separator (base : String) : String := if endsInSlash base then "" else "/"

theorem join_of_isAbsolute (h : isAbsolute path = true) (base : String) :
    join base path = path := by
  rw [join, h, Bool.true_or, if_pos rfl]

@[simp] theorem join_empty (path : String) : join "" path = path := by
  have hempty : "".isEmpty = true := by decide
  rw [join, hempty, Bool.or_true, if_pos rfl]

theorem join_of_relative (h : isAbsolute path = false) (hbase : base ≠ "") :
    join base path = base ++ separator base ++ path := by
  have hempty : base.isEmpty = false := by simpa using hbase
  unfold join separator endsInSlash
  rw [h, hempty, Bool.or_false, if_neg (by decide)]
  split
  · rw [String.append_empty]
  · rfl

theorem isAbsolute_append (h : base ≠ "") (rest : String) :
    isAbsolute (base ++ rest) = isAbsolute base := by
  unfold isAbsolute
  rw [String.toList_append, Text.head?_append_of_ne_nil (mt String.toList_eq_nil_iff.1 h)]

theorem endsInSlash_append (h : path ≠ "") (base : String) :
    endsInSlash (base ++ path) = endsInSlash path := by
  unfold endsInSlash
  rw [String.toList_append, Text.getLast?_append_of_ne_nil _ (mt String.toList_eq_nil_iff.1 h)]

theorem separator_append (h : path ≠ "") (base : String) :
    separator (base ++ path) = separator path := by
  unfold separator
  rw [endsInSlash_append h]

/-- Behind a separator there is no other one. -/
theorem separator_append_separator (base : String) :
    separator (base ++ separator base) = "" := by
  by_cases h : endsInSlash base = true
  · rw [separator, separator, if_pos h, String.append_empty, if_pos h]
  · have hslash : separator base = "/" := if_neg h
    rw [hslash, separator_append (by decide)]
    decide

theorem isAbsolute_empty : isAbsolute "" = false := by decide

theorem isAbsolute_join (h : isAbsolute base = true) (path : String) :
    isAbsolute (join base path) = true := by
  have hbase : base ≠ "" := by
    rintro rfl
    rw [isAbsolute_empty] at h
    cases h
  cases hpath : isAbsolute path with
  | true => rwa [join_of_isAbsolute hpath]
  | false => rwa [join_of_relative hpath hbase, String.append_assoc, isAbsolute_append hbase]

/-- **Joining is associative.** -/
theorem join_join (outer inner path : String) :
    join outer (join inner path) = join (join outer inner) path := by
  by_cases hpath : isAbsolute path = true
  · rw [join_of_isAbsolute hpath, join_of_isAbsolute hpath, join_of_isAbsolute hpath]
  rw [Bool.not_eq_true] at hpath
  by_cases houter : outer = ""
  · rw [houter, join_empty, join_empty]
  by_cases hinner : inner = ""
  · -- The base may have got a slash at its end, behind which the path stands as it would without.
    have hnonempty : outer ++ separator outer ≠ "" := by simp [houter]
    rw [hinner, join_empty, join_of_relative isAbsolute_empty houter, String.append_empty,
      join_of_relative hpath houter, join_of_relative hpath hnonempty, separator_append_separator,
      String.append_empty]
  by_cases habsolute : isAbsolute inner = true
  · rw [join_of_isAbsolute habsolute, join_of_isAbsolute (isAbsolute_join habsolute path)]
  · rw [Bool.not_eq_true] at habsolute
    have hjoined := join_of_relative hpath hinner
    have hrelative : isAbsolute (join inner path) = false := by
      rwa [hjoined, String.append_assoc, isAbsolute_append hinner]
    have hnonempty : outer ++ separator outer ++ inner ≠ "" := by simp [houter]
    rw [join_of_relative hrelative houter, join_of_relative habsolute houter,
      join_of_relative hpath hnonempty, separator_append hinner, hjoined]
    simp only [String.append_assoc]

end Path

namespace Config

/-- The paths of the settings, in their order. -/
def paths (c : Config) : List String :=
  c.schema :: c.transforms ++ c.foreignKeys ++ c.omitTags ++ c.output :: c.diagram.output.toList

/-- The settings with every path changed in the same way. -/
def mapPaths (f : String → String) (c : Config) : Config :=
  { c with
    schema := f c.schema
    transforms := c.transforms.map f
    foreignKeys := c.foreignKeys.map f
    omitTags := c.omitTags.map f
    output := f c.output
    diagram := { c.diagram with output := c.diagram.output.map f } }

variable {f g : String → String}

theorem rootedAt_eq_mapPaths (root : String) (c : Config) :
    c.rootedAt root = c.mapPaths (Path.join root) := rfl

theorem paths_mapPaths (c : Config) : (c.mapPaths f).paths = c.paths.map f := by
  unfold paths mapPaths
  cases c.diagram.output <;> simp

theorem mapPaths_mapPaths (c : Config) :
    (c.mapPaths f).mapPaths g = c.mapPaths fun path => g (f path) := by
  unfold mapPaths
  simp only [List.map_map, Option.map_map, Function.comp_def]

/-- **Rooting composes.** Settings seen from one root and then from another are those seen from the
first root as the other sees it, in every path and in all else. So an absolute root is final: all
paths are absolute then, and seen from any other root they stay as they are. -/
theorem rooting_composes (c : Config) (root : String) :
    (c.rootedAt root).paths = c.paths.map (Path.join root) ∧
    (∀ outer, (c.rootedAt root).rootedAt outer = c.rootedAt (Path.join outer root)) ∧
    (Path.isAbsolute root = true →
      (∀ path ∈ (c.rootedAt root).paths, Path.isAbsolute path = true) ∧
      ∀ outer, (c.rootedAt root).rootedAt outer = c.rootedAt root) := by
  have hpaths : (c.rootedAt root).paths = c.paths.map (Path.join root) := paths_mapPaths c
  have hcomposes : ∀ outer,
      (c.rootedAt root).rootedAt outer = c.rootedAt (Path.join outer root) := by
    intro outer
    simp only [rootedAt_eq_mapPaths, mapPaths_mapPaths, Path.join_join]
  refine ⟨hpaths, hcomposes, fun habsolute => ⟨?_, fun outer => ?_⟩⟩
  · rw [hpaths]
    exact List.forall_mem_map.2 fun path _ => Path.isAbsolute_join habsolute path
  · rw [hcomposes, Path.join_of_isAbsolute habsolute]

end Config

end SchemaShaper
