import DumpCatalog.Disk.DumpTree
import Mathlib.Data.List.Basic
import Mathlib.Data.List.Induction

/-! # The paths of nodes

The path of a node is written by joining the names that lead to it. Names do not hold separators, so
the components of the path are these names again (`components_relativePath`), and the path leads
back to the node (`content_relativePath`). -/

namespace DumpCatalog

namespace FileName

theorem text_of_ofText? {text : String} {name : FileName}
    (h : ofText? text = some name) : name.text = text := by
  unfold ofText? at h
  split at h
  · cases h
    rfl
  · simp at h

theorem text_ne_empty (name : FileName) : name.text ≠ "" := by
  intro empty
  have valid := name.valid
  rw [empty] at valid
  exact absurd valid (by decide)

theorem text_ne_point (name : FileName) : name.text ≠ "." := by
  intro point
  have valid := name.valid
  rw [point] at valid
  exact absurd valid (by decide)

theorem text_ne_points (name : FileName) : name.text ≠ ".." := by
  intro points
  have valid := name.valid
  rw [points] at valid
  exact absurd valid (by decide)

theorem char_ne_of_mem (name : FileName) {c : Char} (h : c ∈ name.text.toList) :
    c ≠ '/' ∧ c ≠ '\x00' := by
  have valid := name.valid
  simp only [isFileName, Bool.and_eq_true, List.all_eq_true, bne_iff_ne] at valid
  exact valid.2 c h

theorem separator_notMem (name : FileName) : '/' ∉ name.text.toList :=
  fun member => (name.char_ne_of_mem member).1 rfl

end FileName

namespace Path

section Plain
variable {text : String} (plain : '/' ∉ text.toList)
include plain

theorem components_plain : components text = [text] := by
  rw [components, cut_of_not_mem plain, List.map_singleton, String.ofList_toList]

theorem join_plain (base : String) :
    join base text =
      if base.isEmpty || base.toList.getLast? = some '/' then base ++ text
      else base ++ "/" ++ text := by
  have relative : text.toList.head? ≠ some '/' := by
    intro absolute
    exact plain (List.mem_of_mem_head? absolute)
  rw [join, if_neg relative]

/-- Joining a text without separators to a path adds a component, unless the path is empty or ends
in a separator. -/
theorem components_join {base : String} (nonempty : base ≠ "")
    (closed : base.toList.getLast? ≠ some '/') :
    components (join base text) = components base ++ [text] := by
  have separated : join base text = base ++ "/" ++ text := by
    rw [join_plain plain, if_neg]
    simp [nonempty, closed]
  have characters : (base ++ "/" ++ text).toList = base.toList ++ '/' :: text.toList := by
    simp
  rw [separated, components, characters, cut_append, List.map_append]
  exact congrArg _ (components_plain plain)

end Plain

theorem getLast?_components {base : String}
    (h : base = "" ∨ base.toList.getLast? = some '/') : (components base).getLast? = some "" := by
  rcases h with rfl | ends
  · rfl
  · obtain ⟨front, whole⟩ := List.getLast?_eq_some_iff.mp ends
    rw [components, whole, cut_append, List.map_append]
    exact List.getLast?_concat

end Path

namespace DumpDirectory

theorem relativePath_append (node : DiskNode) (name : FileName) :
    relativePath (node ++ [name]) = Path.join (relativePath node) name.text := by
  rw [relativePath, List.foldl_append]
  rfl

/-- **The components of the path of a node are the names that lead to it.** -/
theorem components_relativePath {node : DiskNode} (h : node ≠ []) :
    Path.components (relativePath node) = node.map (·.text) := by
  induction node using List.reverseRecOn with
  | nil => exact absurd rfl h
  | append_singleton node name ih =>
    rw [relativePath_append]
    rcases List.eq_nil_or_concat' node with rfl | ⟨front, last, rfl⟩
    · rw [show relativePath [] = "" from rfl, Path.join_empty]
      exact Path.components_plain name.separator_notMem
    · have names := ih (by simp)
      -- the last component of the path so far is a name, so a separator is set before the next
      have lastName : (Path.components (relativePath (front ++ [last]))).getLast? =
          some last.text := by
        rw [names, List.map_append, List.map_singleton, List.getLast?_concat]
      have ahead : ¬ (relativePath (front ++ [last]) = "" ∨
          (relativePath (front ++ [last])).toList.getLast? = some '/') := by
        intro ends
        rw [Path.getLast?_components ends] at lastName
        exact last.text_ne_empty (Option.some.inj lastName).symm
      rw [not_or] at ahead
      rw [Path.components_join name.separator_notMem ahead.1 ahead.2, names, ← List.map_singleton,
        ← List.map_append]

theorem steps_relativePath (node : DiskNode) :
    Path.steps (relativePath node) = node.map (·.text) := by
  by_cases root : node = []
  · subst root
    rfl
  · rw [Path.steps, components_relativePath root, List.filter_eq_self]
    intro component member
    obtain ⟨name, -, rfl⟩ := List.mem_map.mp member
    simp [name.text_ne_empty, name.text_ne_point]

theorem fileName?_relativePath (node : DiskNode) :
    Path.fileName? (relativePath node) = node.getLast?.map (·.text) := by
  rw [Path.fileName?, steps_relativePath, List.getLast?_map]
  cases node.getLast? with
  | none => rfl
  | some name => exact if_neg name.text_ne_points

theorem relativePath_inj {node other : DiskNode} (below : node ≠ []) (below' : other ≠ [])
    (same : relativePath node = relativePath other) : node = other := by
  have names := congrArg Path.components same
  rw [components_relativePath below, components_relativePath below'] at names
  exact List.map_injective_iff.mpr (fun a b text => FileName.ext text) names

/-- **The path of a node leads back to it.** -/
theorem content_relativePath (directory : DumpDirectory) {node : DiskNode} {content : Bytes}
    (below : node ≠ []) (here : directory.entry node = .ok (.file content)) :
    directory.content (relativePath node) = .ok content := by
  rw [entry] at here
  rw [DumpDirectory.content, components_relativePath below]
  cases top : directory.top with
  | error fault =>
    rw [top] at here
    cases here
  | ok root =>
    rw [top] at here
    have found : root.descend (node.map (·.text)) = .ok (.file content) := here
    show root.descend _ >>= _ = _
    rw [found]
    rfl

end DumpDirectory

end DumpCatalog
