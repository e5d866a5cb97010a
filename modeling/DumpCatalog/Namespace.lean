/-! # Namespaces

The printed name of a collection: its database and its own name with a point between them. Reading a
name back cuts at the first point; the main statements say where that point is. -/

namespace DumpCatalog

/-- `database.collection`, or the bare name when one of the two is empty. -/
def namespaceOf (database collection : String) : String :=
  if database.isEmpty then collection
  else if collection.isEmpty then database
  else database ++ "." ++ collection

/-- The characters before the first point and behind it, if there is one. -/
def splitAtPoint : List Char → Option (List Char × List Char)
  | [] => none
  | c :: cs =>
    if c = '.' then some ([], cs)
    else (splitAtPoint cs).map fun (front, back) => (c :: front, back)

theorem splitAtPoint_eq_none_iff {cs : List Char} : splitAtPoint cs = none ↔ '.' ∉ cs := by
  induction cs with
  | nil => simp [splitAtPoint]
  | cons c cs ih =>
    by_cases h : c = '.'
    · simp [splitAtPoint, h]
    · simp [splitAtPoint, h, ih, Ne.symm h]

theorem splitAtPoint_append {front : List Char} (back : List Char) (h : '.' ∉ front) :
    splitAtPoint (front ++ '.' :: back) = some (front, back) := by
  induction front with
  | nil => simp [splitAtPoint]
  | cons c front ih =>
    have noPoint : c ≠ '.' := fun hc => h (by simp [hc])
    have later : '.' ∉ front := fun hm => h (by simp [hm])
    simp [splitAtPoint, noPoint, ih later]

/-- The point that is cut at is the first one. -/
theorem splitAtPoint_eq_some_iff {cs front back : List Char} :
    splitAtPoint cs = some (front, back) ↔ cs = front ++ '.' :: back ∧ '.' ∉ front := by
  constructor
  · intro h
    induction cs generalizing front with
    | nil => cases h
    | cons c cs ih =>
      rw [splitAtPoint] at h
      split at h
      · next hc => cases h; exact ⟨by simp [hc], by simp⟩
      · next hc =>
        obtain ⟨⟨front', back'⟩, cut, same⟩ := Option.map_eq_some_iff.1 h
        cases same
        obtain ⟨rfl, noPoint⟩ := ih cut
        exact ⟨rfl, by simp [noPoint, Ne.symm hc]⟩
  · rintro ⟨rfl, h⟩
    exact splitAtPoint_append back h

/-- The database and the collection that a name stands for: a name without a point is at the top
level. -/
def splitNamespace (name : String) : String × String :=
  match splitAtPoint name.toList with
  | some (front, back) => (String.ofList front, String.ofList back)
  | none => ("", name)

end DumpCatalog
