import DumpCatalog.Proofs.Block.Delivery
import DumpCatalog.Proofs.Catalog.Grammar
import DumpCatalog.Proofs.Lists

/-! # Catalogs: the first fault decides

A stream that is not accepted has a first unit at fault, behind documents that are as they should be
(`FirstFault`). Reading fails with the fault of this unit and has taken the bytes up to its end and
no more (`firstFault_of_read`, `read_of_firstFault`). So a catalog that is cut off anywhere is
refused by what the cut leaves of the unit it goes through (`firstFault_take`), and what stands
behind the bytes that were taken does not matter unless the stream was at its end there. The main
statement is `read_eq_error_iff`. -/

namespace DumpCatalog.Catalog

open Block

/-! ### Units at fault -/

/-- **A unit at fault**, by whether a header has come before it, with what is left behind it. A unit
that the end of the stream cuts short has nothing behind it. -/
inductive UnitFault (seen : Bool) : Bytes → Bytes → Fault → Prop
  | nothing : UnitFault seen [] [] .truncated
  | tornLength {front : Bytes} (begun : front ≠ []) (short : front.length < 4) :
      UnitFault seen front [] (.io .tornLength)
  | tornDocument {front : Bytes} (slot : 4 ≤ front.length)
      (min_le : minSize ≤ Bytes.toInt32 (front.take 4))
      (le_max : Bytes.toInt32 (front.take 4) ≤ maxSize)
      (short : (front.length : Int) < (Bytes.toInt32 (front.take 4)).toInt) :
      UnitFault seen front [] (.io .shortRead)
  | badSize {slot tail : Bytes} (four : slot.length = 4)
      (document : Bytes.toInt32 slot ≠ terminatorSize)
      (outside : ¬ (minSize ≤ Bytes.toInt32 slot ∧ Bytes.toInt32 slot ≤ maxSize)) :
      UnitFault seen slot tail (.invalidBlockSize (Bytes.toInt32 slot))
  | headerless {tail : Bytes} (unknown : seen = false) :
      UnitFault seen terminatorBytes tail .missingHeader
  | badHeader {doc tail : Bytes} {cause : Bson.DecodeFault} (unknown : seen = false)
      (framed : Framed doc) (refused : Header.ofBytes doc = .error cause) :
      UnitFault seen doc tail (.decode cause)
  | badRecord {doc tail : Bytes} {cause : Bson.DecodeFault} (known : seen = true)
      (framed : Framed doc) (refused : Record.ofBytes doc = .error cause) :
      UnitFault seen doc tail (.decode cause)

/-- **Documents that are passed**: none, or one that writes a header and then some that write
records. -/
inductive Passed : List Bytes → Prop
  | none : Passed []
  | some {headerDoc : Bytes} {recordDocs : List Bytes} {header : Header}
      (framed : Framed headerDoc) (decoded : Header.ofBytes headerDoc = .ok header)
      (records : ∀ doc ∈ recordDocs, Framed doc ∧ ∃ record, Record.ofBytes doc = .ok record) :
      Passed (headerDoc :: recordDocs)

/-- **The first fault of a stream**: the bytes up to the end of the first unit at fault, what is
left behind them, and the fault. -/
inductive FirstFault : Bytes → Bytes → Fault → Prop
  | shortMagic {front : Bytes} (short : front.length < 4) : FirstFault front [] (.io .shortRead)
  | otherMagic {front tail : Bytes} (four : front.length = 4)
      (other : Bytes.toUInt32 front ≠ magicNumber) :
      FirstFault front tail (.formatMismatch (Bytes.toUInt32 front))
  | behind {docs : List Bytes} {unit tail : Bytes} {fault : Fault} (passed : Passed docs)
      (faulty : UnitFault (!docs.isEmpty) unit tail fault) :
      FirstFault (magicBytes ++ docs.flatten ++ unit) tail fault

/-- Unless the stream is at its end, what is behind a fault does not matter to it. -/
theorem UnitFault.elsewhere {seen : Bool} {unit tail : Bytes} {fault : Fault}
    (h : UnitFault seen unit tail fault) (other : fault.isEnd = false) (tail' : Bytes) :
    UnitFault seen unit tail' fault := by
  cases h with
  | nothing => cases other
  | tornLength => cases other
  | tornDocument => cases other
  | badSize four document outside => exact .badSize four document outside
  | headerless unknown => exact .headerless unknown
  | badHeader unknown framed refused => exact .badHeader unknown framed refused
  | badRecord known framed refused => exact .badRecord known framed refused

theorem FirstFault.elsewhere {taken tail : Bytes} {fault : Fault}
    (h : FirstFault taken tail fault) (other : fault.isEnd = false) (tail' : Bytes) :
    FirstFault taken tail' fault := by
  cases h with
  | shortMagic => cases other
  | otherMagic four differs => exact .otherMagic four differs
  | behind passed faulty => exact .behind passed (faulty.elsewhere other tail')

/-! ### The magic number -/

theorem readMagic_short {source : Source} (closed : source.ending = .closed)
    (short : source.rest.length < 4) :
    (readMagic source).1 = .error (.io .shortRead) ∧ (readMagic source).2.rest = [] := by
  obtain ⟨taken, rest, -⟩ := source.takeExactly_eq 4
  rw [if_neg (by omega), closed] at taken
  rw [List.drop_eq_nil_of_le (by omega)] at rest
  unfold readMagic
  generalize source.takeExactly 4 = result at taken rest ⊢
  obtain ⟨result, later⟩ := result
  dsimp only at taken rest
  subst taken
  exact ⟨rfl, rest⟩

theorem readMagic_other {source : Source} {front tail : Bytes} (h : source.rest = front ++ tail)
    (four : front.length = 4) (other : Bytes.toUInt32 front ≠ magicNumber) :
    (readMagic source).1 = .error (.formatMismatch (Bytes.toUInt32 front)) ∧
      (readMagic source).2.rest = tail := by
  obtain ⟨taken, rest, -⟩ := source.takeExactly_eq 4
  rw [h, if_pos (by rw [List.length_append]; omega), List.take_left' four] at taken
  rw [h, List.drop_left' four] at rest
  unfold readMagic
  generalize source.takeExactly 4 = result at taken rest ⊢
  obtain ⟨result, later⟩ := result
  dsimp only at taken rest
  subst taken
  exact ⟨if_neg other, rest⟩

theorem read_of_readMagic {source : Source} {fault : Fault}
    (h : (readMagic source).1 = .error fault) :
    (read source).1.outcome = .error fault ∧ (read source).2 = (readMagic source).2 := by
  unfold read
  generalize readMagic source = result at h ⊢
  obtain ⟨result, later⟩ := result
  dsimp only at h
  subst h
  exact ⟨rfl, rfl⟩

/-! ### A fault that is met is the first one -/

theorem unitFault_of_step {seen seen' ended : Bool} {stream left : Bytes} {fault : Fault}
    (h : Step seen .closed stream (.error fault) left seen' ended) :
    ∃ unit, stream = unit ++ left ∧ UnitFault seen unit left fault := by
  cases h with
  | headerless unknown => exact ⟨_, rfl, .headerless unknown⟩
  | badSize four document outside => exact ⟨_, rfl, .badSize four document outside⟩
  | shortSlot short =>
    refine ⟨stream, (List.append_nil stream).symm, ?_⟩
    by_cases nothing : stream = []
    · subst nothing
      exact .nothing
    · rw [slotFault, if_neg nothing]
      exact .tornLength nothing short
  | shortDocument slot min_le le_max short =>
    exact ⟨stream, (List.append_nil stream).symm, .tornDocument slot min_le le_max short⟩

section Reading
variable {catalog : Catalog} {reader : BlockReader} {seen : Bool} {rest : Bytes} {fault : Fault}

theorem unitFault_of_next (h : reader.Awaits seen .closed rest) {cause : Fault}
    (given : reader.next.1.outcome = .error cause)
    (read : (readBlocks catalog reader).1.outcome = .error fault) :
    ∃ unit, rest = unit ++ (readBlocks catalog reader).2.source.rest ∧
      UnitFault seen unit (readBlocks catalog reader).2.source.rest fault := by
  obtain ⟨outcome, later⟩ := readBlocks_error catalog given
  obtain rfl := Except.error.inj (outcome.symm.trans read)
  have step := h.step
  rw [given] at step
  rw [later]
  exact unitFault_of_step step

theorem unitFault_of_readBlocks (h : reader.Awaits true .closed rest)
    (read : (readBlocks catalog reader).1.outcome = .error fault) :
    ∃ (docs : List Bytes) (unit : Bytes),
      (∀ doc ∈ docs, Framed doc ∧ ∃ record, Record.ofBytes doc = .ok record) ∧
      rest = docs.flatten ++ (unit ++ (readBlocks catalog reader).2.source.rest) ∧
      UnitFault true unit (readBlocks catalog reader).2.source.rest fault := by
  obtain ⟨docs, records, later, tail, framed, decoded, rfl, waits, stops, outcome, source⟩ :=
    exists_stop_of_readBlocks catalog h
  rw [outcome] at read
  rw [source]
  have passed : ∀ doc ∈ docs, Framed doc ∧ ∃ record, Record.ofBytes doc = .ok record := by
    intro doc member
    obtain ⟨record, -, decoded⟩ := exists_of_mem_forall₂ decoded member
    exact ⟨framed doc member, record, decoded⟩
  have both := readBlocks_eq (catalog.addAll records) later
  cases given : later.next.1.outcome with
  | error other =>
    obtain ⟨unit, front, faulty⟩ := unitFault_of_next waits given read
    exact ⟨docs, unit, passed, by rw [← front], faulty⟩
  | ok block =>
    rw [given] at both
    rcases waits.of_ok given with ⟨doc, tail, framed, rfl, rfl, waits⟩ | ⟨-, -, rfl⟩
    · cases broken : Record.ofBytes doc with
      | ok record => exact absurd broken (stops doc record given)
      | error cause =>
        simp only [if_true, broken, Prod.mk.injEq] at both
        obtain rfl := Except.error.inj (both.1.symm.trans read)
        rw [both.2, waits.rest_eq]
        exact ⟨docs, doc, passed, rfl, .badRecord rfl framed broken⟩
    · simp only [Prod.mk.injEq] at both
      rw [both.1] at read
      cases read

theorem passed_of_readBlocks (h : reader.Awaits false .closed rest)
    (read : (readBlocks catalog reader).1.outcome = .error fault) :
    ∃ (docs : List Bytes) (unit : Bytes), Passed docs ∧
      rest = docs.flatten ++ (unit ++ (readBlocks catalog reader).2.source.rest) ∧
      UnitFault (!docs.isEmpty) unit (readBlocks catalog reader).2.source.rest fault := by
  cases given : reader.next.1.outcome with
  | error other =>
    obtain ⟨unit, front, faulty⟩ := unitFault_of_next h given read
    exact ⟨[], unit, .none, front, faulty⟩
  | ok block =>
    have both := readBlocks_eq catalog reader
    rw [given] at both
    rcases h.of_ok given with ⟨doc, tail, framed, rfl, rfl, waits⟩ | ⟨none, -, -⟩
    · cases decoded : Header.ofBytes doc with
      | error cause =>
        simp only [Bool.false_eq_true, if_false, decoded, Prod.mk.injEq] at both
        obtain rfl := Except.error.inj (both.1.symm.trans read)
        rw [both.2, waits.rest_eq]
        exact ⟨[], doc, .none, rfl, .badHeader rfl framed decoded⟩
      | ok header =>
        simp only [Bool.false_eq_true, if_false, decoded, Prod.mk.injEq] at both
        rw [both.1] at read
        obtain ⟨docs, unit, passed, front, faulty⟩ := unitFault_of_readBlocks waits read
        rw [both.2]
        refine ⟨doc :: docs, unit, .some framed decoded passed, ?_, faulty⟩
        rw [List.flatten_cons, List.append_assoc, ← front]
    · simp at none

end Reading

/-- **Soundness**: what reading fails with is the first fault, and it has taken the bytes up to its
end. -/
theorem firstFault_of_read {source : Source} {fault : Fault} (closed : source.ending = .closed)
    (h : (read source).1.outcome = .error fault) :
    ∃ taken, source.rest = taken ++ (read source).2.rest ∧
      FirstFault taken (read source).2.rest fault := by
  by_cases short : source.rest.length < 4
  · obtain ⟨refused, left⟩ := readMagic_short closed short
    obtain ⟨outcome, later⟩ := read_of_readMagic refused
    obtain rfl := Except.error.inj (outcome.symm.trans h)
    rw [later, left]
    exact ⟨_, (List.append_nil _).symm, .shortMagic short⟩
  have four : (source.rest.take 4).length = 4 := List.length_take_of_le (by omega)
  have front : source.rest = source.rest.take 4 ++ source.rest.drop 4 :=
    (List.take_append_drop ..).symm
  by_cases known : Bytes.toUInt32 (source.rest.take 4) = magicNumber
  · have magic : source.rest.take 4 = magicBytes := by
      rw [← Bytes.ofUInt32_toUInt32 four, known]
      rfl
    rw [magic] at front
    obtain ⟨taken, left, ending⟩ := readMagic_magicBytes front
    obtain ⟨outcome, later⟩ := read_eq taken
    have start := BlockReader.awaits_new (readMagic source).2
    rw [ending, closed, left] at start
    rw [outcome] at h
    obtain ⟨docs, unit, passed, behind, faulty⟩ := passed_of_readBlocks start h
    rw [later]
    refine ⟨magicBytes ++ docs.flatten ++ unit, ?_, .behind passed faulty⟩
    rw [front, behind, List.append_assoc, List.append_assoc]
  · obtain ⟨refused, left⟩ := readMagic_other front four known
    obtain ⟨outcome, later⟩ := read_of_readMagic refused
    obtain rfl := Except.error.inj (outcome.symm.trans h)
    rw [later, left]
    exact ⟨_, front, .otherMagic four known⟩

/-! ### The first fault is met -/

theorem UnitFault.met {seen : Bool} {unit tail : Bytes} {fault : Fault} {reader : BlockReader}
    (h : UnitFault seen unit tail fault) (waits : reader.Awaits seen .closed (unit ++ tail))
    (catalog : Catalog) :
    (readBlocks catalog reader).1.outcome = .error fault ∧
      (readBlocks catalog reader).2.source.rest = tail := by
  have refused {cause : Fault} (step : reader.next.1.outcome = .error cause ∧
      reader.next.2.source.rest = tail) :
      (readBlocks catalog reader).1.outcome = .error cause ∧
        (readBlocks catalog reader).2.source.rest = tail := by
    obtain ⟨outcome, later⟩ := readBlocks_error catalog step.1
    exact ⟨outcome, by rw [later]; exact step.2⟩
  cases h with
  | nothing =>
    obtain ⟨outcome, left, -, -⟩ := waits.step.shortSlot_eq (by decide)
    exact refused ⟨outcome, left⟩
  | tornLength begun short =>
    rw [List.append_nil] at waits
    obtain ⟨outcome, left, -, -⟩ := waits.step.shortSlot_eq short
    rw [slotFault, if_neg begun] at outcome
    exact refused ⟨outcome, left⟩
  | tornDocument slot min_le le_max short =>
    rw [List.append_nil] at waits
    obtain ⟨outcome, left, -, -⟩ := waits.step.shortDocument_eq slot min_le le_max short
    exact refused ⟨outcome, left⟩
  | badSize four document outside => exact refused (waits.badSize four document outside)
  | headerless unknown =>
    subst unknown
    obtain ⟨outcome, left, -, -⟩ := waits.step.terminatorBytes_eq
    exact refused ⟨outcome, left⟩
  | badHeader unknown framed broken =>
    subst unknown
    obtain ⟨outcome, later⟩ := waits.document framed
    have both := readBlocks_eq catalog reader
    simp only [outcome, Bool.false_eq_true, if_false, broken, Prod.mk.injEq] at both
    exact ⟨both.1, by rw [both.2]; exact later.rest_eq⟩
  | badRecord known framed broken =>
    subst known
    obtain ⟨outcome, later⟩ := waits.document framed
    have both := readBlocks_eq catalog reader
    simp only [outcome, if_true, broken, Prod.mk.injEq] at both
    exact ⟨both.1, by rw [both.2]; exact later.rest_eq⟩

theorem Passed.met {docs : List Bytes} {unit tail : Bytes} {fault : Fault} {reader : BlockReader}
    (passed : Passed docs) (faulty : UnitFault (!docs.isEmpty) unit tail fault)
    (waits : reader.Awaits false .closed (docs.flatten ++ (unit ++ tail))) (catalog : Catalog) :
    (readBlocks catalog reader).1.outcome = .error fault ∧
      (readBlocks catalog reader).2.source.rest = tail := by
  cases passed with
  | none => exact faulty.met waits catalog
  | @some headerDoc recordDocs header framed decoded records =>
    rw [List.flatten_cons, List.append_assoc] at waits
    obtain ⟨_, waits, outcome, later⟩ := readBlocks_header catalog waits framed decoded
    obtain ⟨found, decodedAll⟩ := exists_forall₂_iff.mpr fun doc member => (records doc member).2
    obtain ⟨_, waits, outcome', later'⟩ := readBlocks_documents _ waits
      (fun doc member => (records doc member).1) decodedAll.flip
    rw [outcome, later, outcome', later']
    exact faulty.met waits _

/-- **Completeness**: the first fault is what reading fails with, and what is behind it is left. -/
theorem read_of_firstFault {source : Source} {taken tail : Bytes} {fault : Fault}
    (closed : source.ending = .closed) (h : FirstFault taken tail fault)
    (front : source.rest = taken ++ tail) :
    (read source).1.outcome = .error fault ∧ (read source).2.rest = tail := by
  cases h with
  | shortMagic short =>
    rw [List.append_nil] at front
    obtain ⟨refused, left⟩ := readMagic_short closed (by rw [front]; exact short)
    obtain ⟨outcome, later⟩ := read_of_readMagic refused
    exact ⟨outcome, by rw [later]; exact left⟩
  | otherMagic four other =>
    obtain ⟨refused, left⟩ := readMagic_other front four other
    obtain ⟨outcome, later⟩ := read_of_readMagic refused
    exact ⟨outcome, by rw [later]; exact left⟩
  | behind passed faulty =>
    simp only [List.append_assoc] at front
    obtain ⟨known, left, ending⟩ := readMagic_magicBytes front
    obtain ⟨outcome, later⟩ := read_eq known
    have start := BlockReader.awaits_new (readMagic source).2
    rw [ending, closed, left] at start
    rw [outcome, later]
    exact passed.met faulty start _

/-! ### Cuts -/

/-- What is said of a unit of which `n` bytes have come and no more will. -/
def partFault (n : Nat) : Fault :=
  if n = 0 then .truncated else if n < 4 then .io .tornLength else .io .shortRead

/-- What is said of units that follow one another when they are cut off behind `n` bytes. -/
def cutFault : (units : List Bytes) → (n : Nat) → Fault
  | [], _ => .truncated
  | unit :: units, n =>
    if unit.length ≤ n then cutFault units (n - unit.length) else partFault n

theorem unitFault_take {unit : Bytes} (whole : Framed unit ∨ unit = terminatorBytes) {n : Nat}
    (cut : n < unit.length) (seen : Bool) : UnitFault seen (unit.take n) [] (partFault n) := by
  have length : (unit.take n).length = n := List.length_take_of_le (by omega)
  unfold partFault
  by_cases nothing : n = 0
  · rw [if_pos nothing, nothing, List.take_zero]
    exact .nothing
  rw [if_neg nothing]
  by_cases short : n < 4
  · rw [if_pos short]
    exact .tornLength (List.ne_nil_of_length_pos (by omega)) (by omega)
  rw [if_neg short]
  rcases whole with framed | rfl
  · have slot : (unit.take n).take 4 = unit.take 4 := by
      rw [List.take_take, Nat.min_eq_left (by omega)]
    refine .tornDocument (by omega) ?_ ?_ ?_
    · rw [slot]
      exact framed.min_le
    · rw [slot]
      exact framed.le_max
    · rw [slot, framed.announced, length]
      omega
  · rw [length_terminatorBytes] at cut
    omega

/-- A cut through framed documents and the terminator leaves some documents and a part of the next
unit. -/
theorem exists_take_units {docs : List Bytes} (framed : ∀ doc ∈ docs, Framed doc) {n : Nat}
    (cut : n < (docs.flatten ++ terminatorBytes).length) :
    ∃ (passed : List Bytes) (part : Bytes), passed <+: docs ∧
      (docs.flatten ++ terminatorBytes).take n = passed.flatten ++ part ∧
      ∀ seen, UnitFault seen part [] (cutFault (docs ++ [terminatorBytes]) n) := by
  induction docs generalizing n with
  | nil =>
    have cut : n < terminatorBytes.length := cut
    refine ⟨[], terminatorBytes.take n, List.nil_prefix, rfl, fun seen => ?_⟩
    rw [List.nil_append, cutFault, if_neg (by omega)]
    exact unitFault_take (.inr rfl) cut seen
  | cons doc docs ih =>
    rw [List.forall_mem_cons] at framed
    rw [List.flatten_cons, List.append_assoc] at cut ⊢
    rw [List.cons_append, cutFault]
    by_cases whole : doc.length ≤ n
    · rw [List.length_append] at cut
      obtain ⟨passed, part, start, front, faulty⟩ := @ih framed.2 (n - doc.length) (by omega)
      rw [if_pos whole, List.take_append, List.take_of_length_le whole, front]
      exact ⟨doc :: passed, part, (List.prefix_cons_inj doc).mpr start, by simp, faulty⟩
    · rw [if_neg whole, List.take_append_of_le_length (by omega)]
      exact ⟨[], doc.take n, List.nil_prefix, rfl,
        unitFault_take (.inl framed.1) (by omega)⟩

theorem Parses.passed {bytes headerDoc : Bytes} {recordDocs docs : List Bytes} {catalog : Catalog}
    (h : Parses bytes headerDoc recordDocs catalog) (start : docs <+: headerDoc :: recordDocs) :
    Passed docs := by
  obtain ⟨header, records, decoded, decodedAll, -⟩ := h.decoded
  rcases List.prefix_cons_iff.mp start with rfl | ⟨later, rfl, begins⟩
  · exact .none
  · refine .some h.headerFramed decoded fun doc member => ?_
    have known : doc ∈ recordDocs := begins.subset member
    obtain ⟨record, -, decoded⟩ := exists_of_mem_forall₂ decodedAll known
    exact ⟨h.recordsFramed doc known, record, decoded⟩

/-- **A catalog that is cut off has its first fault at the cut.** -/
theorem firstFault_take {bytes headerDoc : Bytes} {recordDocs : List Bytes} {catalog : Catalog}
    (h : Parses bytes headerDoc recordDocs catalog) {n : Nat} (cut : n < bytes.length) :
    FirstFault (bytes.take n) []
      (if n < 4 then .io .shortRead
        else cutFault (headerDoc :: recordDocs ++ [terminatorBytes]) (n - 4)) := by
  by_cases short : n < 4
  · rw [if_pos short]
    exact .shortMagic (Nat.lt_of_le_of_lt (List.length_take_le ..) short)
  have four : magicBytes.length = 4 := by decide
  have units : bytes = magicBytes ++ ((headerDoc :: recordDocs).flatten ++ terminatorBytes) := by
    rw [h.bytes_eq, List.flatten_cons]
    simp only [List.append_assoc]
  rw [units, List.length_append, four] at cut
  have framed : ∀ doc ∈ headerDoc :: recordDocs, Framed doc :=
    List.forall_mem_cons.mpr ⟨h.headerFramed, h.recordsFramed⟩
  obtain ⟨passed, part, start, front, faulty⟩ := @exists_take_units _ framed (n - 4) (by omega)
  rw [if_neg short, units, List.take_append, four, List.take_of_length_le (by omega), front,
    ← List.append_assoc]
  exact .behind (h.passed start) (faulty _)

/-! ### Reading -/

/-- Reading takes bytes off the front: those that write the catalog, or those up to the end of the
first unit at fault. -/
theorem taken_of_read {source : Source} (closed : source.ending = .closed) :
    ∃ taken, source.rest = taken ++ (read source).2.rest ∧
      match (read source).1.outcome with
      | .ok catalog => ∃ headerDoc recordDocs, Parses taken headerDoc recordDocs catalog
      | .error fault => FirstFault taken (read source).2.rest fault := by
  cases outcome : (read source).1.outcome with
  | ok catalog =>
    obtain ⟨bytes, headerDoc, recordDocs, written, front⟩ := parses_of_read outcome
    exact ⟨bytes, front, headerDoc, recordDocs, written⟩
  | error fault => exact firstFault_of_read closed outcome

theorem read_of_taken {source other : Source} {taken tail : Bytes}
    (closed : source.ending = .closed) (closed' : other.ending = .closed)
    (front : source.rest = taken ++ (read source).2.rest)
    (inside : ∀ fault, (read source).1.outcome = .error fault → fault.isEnd = false)
    (front' : other.rest = taken ++ tail) :
    (read other).1.outcome = (read source).1.outcome ∧ (read other).2.rest = tail := by
  obtain ⟨taken', same, why⟩ := taken_of_read closed
  obtain rfl : taken = taken' := List.append_cancel_right (front.symm.trans same)
  cases outcome : (read source).1.outcome with
  | ok catalog =>
    rw [outcome] at why
    obtain ⟨headerDoc, recordDocs, written⟩ := why
    exact read_of_parses other written front'
  | error fault =>
    rw [outcome] at why
    exact read_of_firstFault closed' (why.elsewhere (inside fault outcome) tail) front'

/-- **The first fault decides.** However the bytes of a stream are delivered, reading fails with a
fault and takes `k` bytes exactly when the first `k` bytes end in the first unit at fault, and it
does take a number of bytes off the front. A catalog that is cut off is refused by the place of the
cut, with all its bytes taken. Unless a stream is found at its end, what was taken decides: reading
comes to the same on every stream that begins with it. -/
theorem read_eq_error_iff (stream : Bytes) (schedule : List Delivery) :
    let result := read ⟨stream, schedule, .closed⟩
    (∀ (k : Nat) (fault : Fault),
      (k ≤ stream.length ∧ result.1.outcome = .error fault ∧ result.2.rest = stream.drop k) ↔
        (k ≤ stream.length ∧ FirstFault (stream.take k) (stream.drop k) fault)) ∧
    (∃ k ≤ stream.length, result.2.rest = stream.drop k) ∧
    (∀ (headerDoc : Bytes) (recordDocs : List Bytes) (catalog : Catalog),
      Parses stream headerDoc recordDocs catalog → ∀ n < stream.length,
        let cut := read ⟨stream.take n, schedule, .closed⟩
        cut.1.outcome = .error
            (if n < 4 then .io .shortRead
              else cutFault (headerDoc :: recordDocs ++ [terminatorBytes]) (n - 4)) ∧
          cut.2.rest = []) ∧
    (∀ k ≤ stream.length, result.2.rest = stream.drop k →
      (∀ fault, result.1.outcome = .error fault → fault.isEnd = false) →
      ∀ (other : Bytes) (schedule' : List Delivery), stream.take k <+: other →
        let again := read ⟨other, schedule', .closed⟩
        again.1.outcome = result.1.outcome ∧ again.2.rest = other.drop k) := by
  intro result
  refine ⟨fun k fault => ⟨?_, ?_⟩, ?_, ?_, ?_⟩
  · rintro ⟨bound, refused, left⟩
    obtain ⟨taken, front, first⟩ := firstFault_of_read rfl refused
    have front : stream = taken ++ result.2.rest := front
    have same : taken = stream.take k := by
      rw [left] at front
      exact List.append_cancel_right (front.symm.trans (List.take_append_drop k stream).symm)
    rw [← same, ← left]
    exact ⟨bound, first⟩
  · rintro ⟨bound, first⟩
    obtain ⟨refused, left⟩ := @read_of_firstFault ⟨stream, schedule, .closed⟩ _ _ _ rfl first
      (List.take_append_drop k stream).symm
    exact ⟨bound, refused, left⟩
  · obtain ⟨taken, front, -⟩ := @taken_of_read ⟨stream, schedule, .closed⟩ rfl
    have front : stream = taken ++ result.2.rest := front
    refine ⟨taken.length, ?_, ?_⟩
    · rw [front, List.length_append]
      omega
    · rw [front, List.drop_left]
  · intro headerDoc recordDocs catalog written n cut
    exact read_of_firstFault rfl (firstFault_take written cut) (List.append_nil _).symm
  · rintro k bound left inside other schedule' ⟨tail, rfl⟩
    have front : stream = stream.take k ++ result.2.rest := by
      rw [left, List.take_append_drop]
    have behind : (stream.take k ++ tail).drop k = tail :=
      List.drop_left' (List.length_take_of_le bound)
    rw [behind]
    exact @read_of_taken ⟨stream, schedule, .closed⟩ _ _ _ rfl rfl front inside rfl

end DumpCatalog.Catalog
