/-! # Paths

Paths are text. They are joined as text, without tidying up, and taken apart at their separators
only where something is looked up or shown. -/

namespace DumpCatalog.Path

/-- The path of `relative` as seen from `base`. An absolute path stands for itself. -/
def join (base relative : String) : String :=
  if relative.toList.head? = some '/' then relative
  else if base.isEmpty || base.toList.getLast? = some '/' then base ++ relative
  else base ++ "/" ++ relative

/-- The pieces between separators; there is one more of them than there are separators. -/
def cut : List Char → List (List Char)
  | [] => [[]]
  | c :: cs =>
    if c = '/' then [] :: cut cs
    else match cut cs with
      | [] => [[c]]
      | piece :: pieces => (c :: piece) :: pieces

/-- The components of a path, empty ones among them: a separator at the front or at the end stands
beside one. -/
def components (path : String) : List String := (cut path.toList).map String.ofList

/-- Whether a path begins at the top of all files. -/
def isAbsolute (path : String) : Bool := path.toList.head? = some '/'

/-- The components that lead somewhere: neither empty ones nor single points. -/
def steps (path : String) : List String :=
  (components path).filter fun component => !component.isEmpty && component != "."

/-- The last name of a path, if it ends in one. -/
def fileName? (path : String) : Option String :=
  match (steps path).getLast? with
  | none => none
  | some last => if last = ".." then none else some last

/-- Whether a path is the single component `name`, up to separators and points behind it. -/
def isJust (name path : String) : Bool :=
  !isAbsolute path && (components path).head? != some "." && steps path == [name]

@[simp] theorem join_empty (relative : String) : join "" relative = relative := by
  simp [join]

theorem cut_ne_nil (cs : List Char) : cut cs ≠ [] := by
  cases cs with
  | nil => simp [cut]
  | cons c cs =>
    unfold cut
    split
    · simp
    · split <;> simp

theorem cut_of_not_mem {cs : List Char} (h : '/' ∉ cs) : cut cs = [cs] := by
  induction cs with
  | nil => rfl
  | cons c cs ih =>
    have : c ≠ '/' := fun hc => h (by simp [hc])
    rw [cut, if_neg this, ih (fun hm => h (by simp [hm]))]

theorem cut_append (front back : List Char) :
    cut (front ++ '/' :: back) = cut front ++ cut back := by
  induction front with
  | nil => simp [cut]
  | cons c front ih =>
    rw [List.cons_append, cut, cut, ih]
    split
    · rfl
    · split
      · next nothing => simp [cut_ne_nil] at nothing
      · next piece pieces split =>
        cases hf : cut front with
        | nil => exact absurd hf (cut_ne_nil front)
        | cons first later => simp_all

end DumpCatalog.Path
