import DumpCatalog.Proofs.Bson.Soundness
import DumpCatalog.Proofs.Lists
import Mathlib.Data.List.Pairwise

/-! # Documents: a draft holds the values of its own fields

A `Format` says which fields a draft has: a `Slot` each, with a name, a place in the draft and a way
to read a value. Its `step` takes an element into the slot of its name, and skips an element that no
slot has the name of. What a draft comes to is told slot by slot, from the values under the slot's
own name alone (`Format.foldlM_eq_ok_iff`): wherever they stand, and whatever else there is. -/

namespace DumpCatalog.Bson

/-! ### Values under a name -/

/-- The values under one name, in order. -/
def valuesOf (name : String) (fields : List (String × Value)) : List Value :=
  (fields.filter (·.1 = name)).map (·.2)

@[simp] theorem valuesOf_nil (name : String) : valuesOf name [] = [] := rfl

@[simp] theorem valuesOf_append (name : String) (front back : List (String × Value)) :
    valuesOf name (front ++ back) = valuesOf name front ++ valuesOf name back := by
  rw [valuesOf, List.filter_append, List.map_append]
  rfl

@[simp] theorem valuesOf_cons_self (name : String) (value : Value)
    (fields : List (String × Value)) :
    valuesOf name ((name, value) :: fields) = value :: valuesOf name fields := by
  simp [valuesOf]

theorem valuesOf_cons_other {name : String} {field : String × Value} (other : field.1 ≠ name)
    (fields : List (String × Value)) :
    valuesOf name (field :: fields) = valuesOf name fields := by
  simp [valuesOf, other]

theorem valuesOf_eq_nil_iff {name : String} {fields : List (String × Value)} :
    valuesOf name fields = [] ↔ name ∉ fields.map (·.1) := by
  rw [valuesOf, List.map_eq_nil_iff, List.filter_eq_nil_iff]
  simp only [decide_eq_true_eq, List.mem_map, not_exists, not_and]

/-- There is one value under a name, and it gives what is wanted. -/
def Given (name : String) (gives : Value → Prop) (fields : List (String × Value)) : Prop :=
  ∃ value, valuesOf name fields = [value] ∧ gives value

/-! ### Slots and formats -/

/-- A field of a draft: its name, where the draft keeps it, and how a value is read into it. -/
structure Slot (σ : Type) where
  Kind : Type
  name : String
  get : σ → Option Kind
  set : σ → Option Kind → σ
  read : Content → Except DecodeFault Kind
  get_set : ∀ draft kept, get (set draft kept) = kept := by intros; rfl
  set_get : ∀ draft, set draft (get draft) = draft := by intros; rfl
  set_set : ∀ draft kept later, set (set draft kept) later = set draft later := by intros; rfl

namespace Slot
variable {σ : Type}

/-- Two slots of different names and different places. -/
structure Apart (slot other : Slot σ) : Prop where
  name : slot.name ≠ other.name
  get_set : ∀ draft kept, slot.get (other.set draft kept) = slot.get draft
  set_get : ∀ draft kept, other.get (slot.set draft kept) = other.get draft

instance : Std.Symm (Apart : Slot σ → Slot σ → Prop) :=
  ⟨fun _ _ h => ⟨h.name.symm, h.set_get, h.get_set⟩⟩

/-- What a slot reads from named values: nothing when its name is absent, and else the one value
under it. -/
def Reads (slot : Slot σ) (fields : List (String × Value)) : Option slot.Kind → Prop
  | none => valuesOf slot.name fields = []
  | some kept => Given slot.name (fun value => slot.read value.content = .ok kept) fields

theorem Reads.valuesOf_ne_nil {slot : Slot σ} {fields : List (String × Value)}
    {kept : slot.Kind} (h : slot.Reads fields (some kept)) : valuesOf slot.name fields ≠ [] := by
  obtain ⟨value, single, -⟩ := h
  rw [single]
  exact List.cons_ne_nil _ _

theorem Reads.length_le {slot : Slot σ} {fields : List (String × Value)}
    {kept : Option slot.Kind} (h : slot.Reads fields kept) :
    (valuesOf slot.name fields).length ≤ 1 := by
  cases kept with
  | none =>
    rw [(h : valuesOf slot.name fields = [])]
    exact Nat.zero_le 1
  | some kept =>
    obtain ⟨value, single, -⟩ := h
    rw [single]
    exact Nat.le_refl 1

theorem reads_congr {slot : Slot σ} {fields others : List (String × Value)}
    (same : valuesOf slot.name fields = valuesOf slot.name others) (kept : Option slot.Kind) :
    slot.Reads fields kept ↔ slot.Reads others kept := by
  cases kept with
  | none => rw [Reads, Reads, same]
  | some kept => rw [Reads, Reads, Given, Given, same]

theorem reads_insert_other {slot : Slot σ} {field : String × Value}
    (other : field.1 ≠ slot.name) (front back : List (String × Value))
    (kept : Option slot.Kind) :
    slot.Reads (front ++ field :: back) kept ↔ slot.Reads (front ++ back) kept := by
  refine reads_congr ?_ kept
  rw [valuesOf_append, valuesOf_append, valuesOf_cons_other other]

section Taken
variable {slot : Slot σ} {gives : Value → Prop} {kept : slot.Kind}
  (takes : ∀ given : Value, slot.read given.content = .ok kept ↔ gives given)
include takes

theorem reads_some_iff (fields : List (String × Value)) :
    slot.Reads fields (some kept) ↔ Given slot.name gives fields := by
  simp only [Reads, Given, takes]

theorem given_iff (fields : List (String × Value)) :
    Given slot.name gives fields ↔
      ∃ read, slot.Reads fields read ∧ demand slot.name read = .ok kept := by
  rw [← reads_some_iff takes]
  constructor
  · exact fun given => ⟨some kept, given, rfl⟩
  · rintro ⟨_ | read, given, demanded⟩
    · cases demanded
    · obtain rfl := Except.ok.inj demanded
      exact given

theorem given_or_absent_iff (default : slot.Kind) (fields : List (String × Value)) :
    Given slot.name gives fields ∨ slot.name ∉ fields.map (·.1) ∧ kept = default ↔
      ∃ read, slot.Reads fields read ∧ read.getD default = kept := by
  rw [← reads_some_iff takes, ← valuesOf_eq_nil_iff]
  constructor
  · rintro (given | ⟨absent, rfl⟩)
    · exact ⟨some kept, given, rfl⟩
    · exact ⟨none, absent, rfl⟩
  · rintro ⟨_ | read, given, rfl⟩
    · exact .inr ⟨given, rfl⟩
    · exact .inl given

end Taken

theorem Reads.removed {slot : Slot σ} {front back : List (String × Value)} {value : Value}
    {kept : Option slot.Kind} (h : slot.Reads (front ++ (slot.name, value) :: back) kept) :
    slot.Reads (front ++ back) none := by
  have single := h.length_le
  rw [valuesOf_append, valuesOf_cons_self, List.length_append, List.length_cons] at single
  apply List.eq_nil_of_length_eq_zero
  rw [valuesOf_append, List.length_append]
  omega

theorem reads_concat_other {slot : Slot σ} {field : String × Value}
    (other : field.1 ≠ slot.name) (fields : List (String × Value)) (kept : Option slot.Kind) :
    slot.Reads (fields ++ [field]) kept ↔ slot.Reads fields kept := by
  rw [reads_insert_other other, List.append_nil]

theorem reads_concat_self_iff {slot : Slot σ} {value : Value} (fields : List (String × Value))
    (kept : Option slot.Kind) :
    slot.Reads (fields ++ [(slot.name, value)]) kept ↔
      slot.Reads fields none ∧
        ∃ read, kept = some read ∧ slot.read value.content = .ok read := by
  have last : valuesOf slot.name (fields ++ [(slot.name, value)]) =
      valuesOf slot.name fields ++ [value] := by
    rw [valuesOf_append, valuesOf_cons_self, valuesOf_nil]
  cases kept with
  | none => simp [Reads, last]
  | some kept =>
    rw [Reads, Reads, Given, last]
    constructor
    · rintro ⟨one, single, read⟩
      rw [← List.nil_append [one]] at single
      obtain ⟨absent, same⟩ := List.append_inj' single rfl
      obtain rfl := List.singleton_inj.mp same
      exact ⟨absent, kept, rfl, read⟩
    · rintro ⟨absent, read, same, taken⟩
      obtain rfl := Option.some.inj same
      exact ⟨value, by rw [absent, List.nil_append], taken⟩

end Slot

/-- The fields of a draft, and the draft of which none has been read. -/
structure Format (σ : Type) where
  slots : List (Slot σ)
  start : σ
  apart : slots.Pairwise Slot.Apart
  empty : ∀ slot ∈ slots, slot.get start = none
  ext : ∀ draft other, (∀ slot ∈ slots, slot.get draft = slot.get other) → draft = other

namespace Format
variable {σ : Type}

/-- Takes one element into the first slot of its name. -/
def stepOf : List (Slot σ) → σ → Element → Except DecodeFault σ
  | [], draft, e => do
    e.skip
    return draft
  | slot :: slots, draft, e =>
    if e.name = slot.name then do return slot.set draft (← e.readOnce (slot.get draft) slot.read)
    else stepOf slots draft e

/-- Takes one element into a draft. -/
def step (format : Format σ) : σ → Element → Except DecodeFault σ := stepOf format.slots

variable (format : Format σ)

theorem apart_of_ne {slot other : Slot σ} (member : slot ∈ format.slots)
    (member' : other ∈ format.slots) (different : slot.name ≠ other.name) : slot.Apart other :=
  format.apart.forall member member' fun same => different (by rw [same])

theorem eq_of_name_eq {slot other : Slot σ} (member : slot ∈ format.slots)
    (member' : other ∈ format.slots) (same : slot.name = other.name) : slot = other := by
  by_contra different
  exact (format.apart.forall member member' different).name same

/-! ### One element -/

theorem stepOf_of_mem {slots : List (Slot σ)} (apart : slots.Pairwise Slot.Apart)
    {slot : Slot σ} (member : slot ∈ slots) {e : Element} (named : e.name = slot.name)
    (draft : σ) :
    stepOf slots draft e = (e.readOnce (slot.get draft) slot.read).map (slot.set draft) := by
  induction slots with
  | nil => simp at member
  | cons first slots ih =>
    rw [stepOf]
    obtain ⟨front, apart⟩ := List.pairwise_cons.mp apart
    rcases List.mem_cons.mp member with rfl | later
    · rw [if_pos named]
      cases e.readOnce (slot.get draft) slot.read <;> rfl
    · rw [if_neg (by rw [named]; exact (front slot later).name.symm), ih apart later]

theorem stepOf_of_not_mem {slots : List (Slot σ)} {e : Element}
    (unknown : ∀ slot ∈ slots, e.name ≠ slot.name) (draft : σ) :
    stepOf slots draft e = e.skip.map fun _ => draft := by
  induction slots with
  | nil =>
    rw [stepOf]
    cases e.skip <;> rfl
  | cons first slots ih =>
    obtain ⟨front, rest⟩ := List.forall_mem_cons.mp unknown
    rw [stepOf, if_neg front, ih rest]

variable {name : String} {value : Value}

/-- **A value under the name of a slot** is read into it when nothing has been read before. -/
theorem step_of_get_none {slot : Slot σ} (member : slot ∈ format.slots) {draft : σ}
    (unset : slot.get draft = none) (wellFormed : value.WellFormed)
    (fits : value.toBytes.length ≤ maxLength) :
    format.step draft (Element.ofField (slot.name, value)) =
      (slot.read value.content).map fun kept => slot.set draft (some kept) := by
  have content : (Element.ofField (slot.name, value)).content = .ok value.content := by
    rw [Element.content, content?_ofField wellFormed fits]
  rw [step, stepOf_of_mem format.apart member rfl, unset, Element.readOnce, content]
  change Except.map _ (slot.read value.content >>= _) = _
  cases slot.read value.content <;> rfl

/-- **A second value under the name of a slot** is a fault, whatever it is. -/
theorem step_of_get_some {slot : Slot σ} (member : slot ∈ format.slots) {draft : σ}
    {kept : slot.Kind} (known : slot.get draft = some kept) :
    format.step draft (Element.ofField (slot.name, value)) =
      .error (.duplicateField slot.name) := by
  rw [step, stepOf_of_mem format.apart member rfl, known]
  rfl

/-- **A value under any other name** is passed over. -/
theorem step_of_unknown (unknown : ∀ slot ∈ format.slots, name ≠ slot.name)
    (wellFormed : value.WellFormed) (fits : value.toBytes.length ≤ maxLength) (draft : σ) :
    format.step draft (Element.ofField (name, value)) = .ok draft := by
  rw [step, stepOf_of_not_mem unknown, Element.skip,
    if_pos (isSound_ofField name value wellFormed fits)]
  rfl

/-! ### All elements -/

/-- What a draft holds is what its slots read from some named values. -/
def Holds (fields : List (String × Value)) (draft : σ) : Prop :=
  ∀ slot ∈ format.slots, slot.Reads fields (slot.get draft)

theorem holds_set_iff {fields : List (String × Value)} {slot : Slot σ}
    (member : slot ∈ format.slots) (draft : σ) (kept : Option slot.Kind) :
    format.Holds fields (slot.set draft kept) ↔
      slot.Reads fields kept ∧
        ∀ other ∈ format.slots, slot.name ≠ other.name → other.Reads fields (other.get draft) := by
  constructor
  · intro holds
    refine ⟨by simpa only [slot.get_set] using holds slot member, ?_⟩
    intro other member' different
    have kept := holds other member'
    rwa [(format.apart_of_ne member member' different).set_get] at kept
  · rintro ⟨own, others⟩ other member'
    by_cases same : slot.name = other.name
    · obtain rfl := format.eq_of_name_eq member member' same
      rwa [slot.get_set]
    · rw [(format.apart_of_ne member member' same).set_get]
      exact others other member' same

theorem holds_concat_iff {fields : List (String × Value)} (wellFormed : value.WellFormed)
    (fits : value.toBytes.length ≤ maxLength) (next : σ) :
    format.Holds (fields ++ [(name, value)]) next ↔
      ∃ draft, format.Holds fields draft ∧
        format.step draft (Element.ofField (name, value)) = .ok next := by
  by_cases known : ∃ slot ∈ format.slots, name = slot.name
  · obtain ⟨slot, member, rfl⟩ := known
    have others (draft : σ) (other : Slot σ) (different : slot.name ≠ other.name) :
        other.Reads (fields ++ [(slot.name, value)]) (other.get draft) ↔
          other.Reads fields (other.get draft) := Slot.reads_concat_other different fields _
    constructor
    · intro holds
      obtain ⟨absent, read, kept, taken⟩ :=
        (Slot.reads_concat_self_iff fields _).mp (holds slot member)
      refine ⟨slot.set next none, (format.holds_set_iff member next none).mpr ⟨absent, ?_⟩, ?_⟩
      · exact fun other member' different => (others next other different).mp (holds other member')
      · rw [format.step_of_get_none member (slot.get_set _ _) wellFormed fits, taken]
        simp only [Except.map, slot.set_set, ← kept, slot.set_get]
    · rintro ⟨draft, holds, step⟩
      cases unset : slot.get draft with
      | some kept =>
        rw [format.step_of_get_some member unset] at step
        cases step
      | none =>
        rw [format.step_of_get_none member unset wellFormed fits] at step
        cases taken : slot.read value.content with
        | error fault =>
          rw [taken] at step
          cases step
        | ok read =>
          rw [taken] at step
          obtain rfl := Except.ok.inj step
          have absent := holds slot member
          rw [unset] at absent
          refine (format.holds_set_iff member draft _).mpr
            ⟨(Slot.reads_concat_self_iff fields _).mpr ⟨absent, read, rfl, taken⟩, ?_⟩
          exact fun other member' different =>
            (others draft other different).mpr (holds other member')
  · have unknown : ∀ slot ∈ format.slots, name ≠ slot.name :=
      fun slot member same => known ⟨slot, member, same⟩
    have same (draft : σ) : format.Holds (fields ++ [(name, value)]) draft ↔
        format.Holds fields draft :=
      forall₂_congr fun slot member => Slot.reads_concat_other (unknown slot member) fields _
    simp only [format.step_of_unknown unknown wellFormed fits, Except.ok.injEq, same,
      exists_eq_right]

/-- **A draft holds what its slots read**, each from the values under its own name. -/
theorem foldlM_eq_ok_iff {fields : List (String × Value)} (wellFormed : WellFormed fields)
    (fits : (elementBytes fields).length ≤ maxLength) (draft : σ) :
    (fields.map Element.ofField).foldlM format.step format.start = .ok draft ↔
      format.Holds fields draft := by
  induction fields using List.reverseRecOn generalizing draft with
  | nil =>
    rw [List.map_nil, List.foldlM_nil]
    constructor
    · intro same slot member
      rw [← Except.ok.inj same, format.empty slot member]
      rfl
    · intro holds
      have same : format.start = draft := format.ext _ _ fun slot member => by
        cases kept : slot.get draft with
        | none => rw [format.empty slot member]
        | some value =>
          have read := holds slot member
          rw [kept] at read
          exact (read.valuesOf_ne_nil rfl).elim
      rw [same]
      rfl
  | append_singleton fields field ih =>
    obtain ⟨front, back⟩ := wellFormed_append.mp wellFormed
    rw [length_elementBytes_append, length_elementBytes_cons] at fits
    rw [List.map_append, List.foldlM_append, bind_eq_ok_iff, List.map_singleton]
    simp only [List.foldlM_cons, List.foldlM_nil, bind_pure]
    rw [holds_concat_iff format (wellFormed_cons.mp back).2.1 (by omega)]
    exact exists_congr fun mid => and_congr_left' (ih front (by omega) mid)

/-! ### Whole documents -/

variable {front back fields : List (String × Value)}

/-- **A document is read into the draft that holds its values**, and into no other. -/
theorem readDocument_eq_ok_iff (wellFormed : WellFormed fields)
    (fits : (documentBytes fields).length ≤ maxLength) (draft : σ) :
    readDocument format.step format.start (documentBytes fields) = .ok draft ↔
      format.Holds fields draft := by
  rw [readDocument_documentBytes _ _ fits wellFormed.clean]
  rw [length_documentBytes] at fits
  exact format.foldlM_eq_ok_iff wellFormed (by omega) draft

theorem exists_holds_of_append (wellFormed : WellFormed (front ++ back))
    (fits : (elementBytes (front ++ back)).length ≤ maxLength) {draft : σ}
    (holds : format.Holds (front ++ back) draft) : ∃ before, format.Holds front before := by
  have whole := (format.foldlM_eq_ok_iff wellFormed fits draft).mpr holds
  rw [List.map_append, List.foldlM_append, bind_eq_ok_iff] at whole
  obtain ⟨before, walked, -⟩ := whole
  rw [length_elementBytes_append] at fits
  exact ⟨before, (format.foldlM_eq_ok_iff (wellFormed_append.mp wellFormed).1 (by omega) before).mp
    walked⟩

theorem holds_removed {slot : Slot σ} (member : slot ∈ format.slots) {draft : σ}
    (holds : format.Holds (front ++ (slot.name, value) :: back) draft) :
    format.Holds (front ++ back) (slot.set draft none) :=
  (format.holds_set_iff member draft none).mpr ⟨Slot.Reads.removed (holds slot member),
    fun other member' different =>
      (Slot.reads_insert_other different front back _).mp (holds other member')⟩

section Faults
variable (wellFormed : WellFormed (front ++ (name, value) :: back))
  (fits : (documentBytes (front ++ (name, value) :: back)).length ≤ maxLength) {before : σ}
  (holds : format.Holds front before)
include wellFormed fits holds

/-- The first value that the draft does not take is the fault of the document. -/
theorem readDocument_of_step_error {fault : DecodeFault}
    (fails : format.step before (Element.ofField (name, value)) = .error fault) :
    readDocument format.step format.start (documentBytes (front ++ (name, value) :: back)) =
      .error fault := by
  have walked := (format.foldlM_eq_ok_iff (wellFormed_append.mp wellFormed).1
    (by rw [length_documentBytes, length_elementBytes_append] at fits; omega) before).mpr holds
  rw [readDocument_documentBytes _ _ fits wellFormed.clean, List.map_append, List.foldlM_append,
    walked]
  change (List.map _ (_ :: back)).foldlM format.step before = _
  rw [List.map_cons, List.foldlM_cons, fails]
  rfl

variable {slot : Slot σ} (member : slot ∈ format.slots) (named : name = slot.name)
include member named

/-- **A value whose name was there before** is the fault of the document, whatever it is. -/
theorem readDocument_of_repeated (again : name ∈ front.map (·.1)) :
    readDocument format.step format.start (documentBytes (front ++ (name, value) :: back)) =
      .error (.duplicateField name) := by
  subst named
  apply format.readDocument_of_step_error wellFormed fits holds
  cases kept : slot.get before with
  | some value => exact format.step_of_get_some member kept
  | none =>
    have absent := holds slot member
    rw [kept] at absent
    exact (valuesOf_eq_nil_iff.mp absent again).elim

/-- **A first value that its slot refuses** is the fault of the document. -/
theorem readDocument_of_refused (first : name ∉ front.map (·.1)) {fault : DecodeFault}
    (refused : slot.read value.content = .error fault) :
    readDocument format.step format.start (documentBytes (front ++ (name, value) :: back)) =
      .error fault := by
  subst named
  apply format.readDocument_of_step_error wellFormed fits holds
  have unset : slot.get before = none := by
    cases kept : slot.get before with
    | none => rfl
    | some value =>
      have read := holds slot member
      rw [kept] at read
      exact (read.valuesOf_ne_nil (valuesOf_eq_nil_iff.mpr first)).elim
  rw [format.step_of_get_none member unset
    (wellFormed_cons.mp (wellFormed_append.mp wellFormed).2).2.1 (by
      rw [length_documentBytes, length_elementBytes_append, length_elementBytes_cons] at fits
      omega), refused]
  rfl

end Faults

end Format

end DumpCatalog.Bson
