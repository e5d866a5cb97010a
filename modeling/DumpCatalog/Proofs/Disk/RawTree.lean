import DumpCatalog.Disk.RawTree
import DumpCatalog.Proofs.Text.Lossy
import Mathlib.Data.List.Basic
import Mathlib.Data.List.Induction

/-! # The paths of nodes with names of any bytes

Joining a name to a path adds it as a step (`RawPath.steps_join`), so a node is what its path says
(`RawDirectory.steps_relativePath`). What is shown for a name is joined to a path as the name is
exactly when the name is text (`RawName.steps_join_shown_iff`). -/

namespace DumpCatalog

theorem isRawName_iff {bytes : Bytes} : isRawName bytes = true ↔
    bytes ≠ [] ∧ bytes ≠ [RawPath.point] ∧ bytes ≠ [RawPath.point, RawPath.point] ∧
      ∀ byte ∈ bytes, byte ≠ RawPath.separator ∧ byte ≠ 0 := by
  simp only [isRawName, Bool.and_eq_true, Bool.not_eq_true', List.isEmpty_eq_false_iff, bne_iff_ne,
    List.all_eq_true, and_assoc, ne_eq]

namespace RawName

theorem bytes_ne_nil (name : RawName) : name.bytes ≠ [] := (isRawName_iff.mp name.valid).1

theorem bytes_ne_point (name : RawName) : name.bytes ≠ [RawPath.point] :=
  (isRawName_iff.mp name.valid).2.1

theorem bytes_ne_points (name : RawName) : name.bytes ≠ [RawPath.point, RawPath.point] :=
  (isRawName_iff.mp name.valid).2.2.1

theorem separator_notMem (name : RawName) : RawPath.separator ∉ name.bytes := fun member =>
  ((isRawName_iff.mp name.valid).2.2.2 _ member).1 rfl

end RawName

/-! ### Steps -/

namespace RawPath

theorem steps_nil : steps [] = [] := rfl

theorem steps_append (front back : Bytes) :
    steps (front ++ separator :: back) = steps front ++ steps back := by
  rw [steps, List.splitOn_append_cons_self, List.filter_append]
  rfl

theorem steps_plain {component : Bytes} (plain : separator ∉ component) :
    steps component = if component = [] ∨ component = [point] then [] else [component] := by
  rw [steps, List.splitOn_eq_singleton plain]
  by_cases nowhere : component = [] ∨ component = [point]
  · rw [if_pos nowhere]
    rcases nowhere with rfl | rfl <;> rfl
  · rw [if_neg nowhere]
    rw [not_or] at nowhere
    simp [nowhere]

theorem steps_join {component : Bytes} (plain : separator ∉ component) (base : Bytes) :
    steps (join base component) = steps base ++ steps component := by
  have relative : component.head? ≠ some separator := by
    intro absolute
    exact plain (List.mem_of_mem_head? absolute)
  rw [join, if_neg relative]
  split
  · next closed =>
    rcases List.eq_nil_or_concat' base with rfl | ⟨front, last, rfl⟩
    · rfl
    · have separated : last = separator := by simpa using closed
      rw [separated, List.append_assoc, List.singleton_append, steps_append, steps_append,
        steps_nil, List.append_nil]
  · exact steps_append base component

end RawPath

namespace RawName

theorem steps_bytes (name : RawName) : RawPath.steps name.bytes = [name.bytes] := by
  rw [RawPath.steps_plain name.separator_notMem, if_neg]
  simp [name.bytes_ne_nil, name.bytes_ne_point]

/-- What is shown for a name is joined to a path as the name is exactly when the name is text. -/
theorem steps_join_shown_iff (name : RawName) (base : Bytes) :
    RawPath.steps (RawPath.join base name.bytes) =
        RawPath.steps (RawPath.join base (Text.toBytes (Text.ofBytesLossy name.bytes))) ↔
      name.IsText := by
  have plain := Text.slash_notMem_ofBytesLossy name.separator_notMem
  rw [RawPath.steps_join name.separator_notMem, RawPath.steps_join plain, steps_bytes,
    List.append_cancel_left_eq, RawPath.steps_plain plain, RawName.IsText,
    ← Text.toBytes_ofBytesLossy_iff]
  constructor
  · intro same
    split at same
    · cases same
    · exact (List.singleton_inj.mp same).symm
  · intro same
    rw [same, if_neg]
    simp [name.bytes_ne_nil, name.bytes_ne_point]

end RawName

/-! ### Nodes -/

namespace RawDirectory

variable {directory : RawDirectory}

theorem relativePath_append (node : RawNode) (name : RawName) :
    relativePath (node ++ [name]) = RawPath.join (relativePath node) name.bytes := by
  rw [relativePath, List.foldl_append]
  rfl

theorem steps_relativePath (node : RawNode) :
    RawPath.steps (relativePath node) = node.map RawName.bytes := by
  induction node using List.reverseRecOn with
  | nil => rfl
  | append_singleton node name ih =>
    rw [relativePath_append, RawPath.steps_join name.separator_notMem, ih, name.steps_bytes,
      List.map_append, List.map_singleton]

theorem fileName?_relativePath (node : RawNode) :
    RawPath.fileName? (relativePath node) = node.getLast?.map RawName.bytes := by
  rw [RawPath.fileName?, steps_relativePath, List.getLast?_map]
  cases node.getLast? with
  | none => rfl
  | some name => exact if_neg name.bytes_ne_points

theorem nameBytes_append (node : RawNode) (name : RawName) :
    directory.nameBytes (node ++ [name]) = name.bytes := by
  rw [nameBytes, List.getLast?_concat]

end RawDirectory

end DumpCatalog
