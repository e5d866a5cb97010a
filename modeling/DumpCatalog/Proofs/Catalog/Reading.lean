import DumpCatalog.Catalog.Stream
import DumpCatalog.Proofs.Block.Framing
import Mathlib.Data.List.Forall2

/-! # Catalogs: reading them document by document

What is said of blocks is lifted to catalogs. Reading goes block by block (`readBlocks_eq`), and
over framed documents that write records it comes to what is behind them with the records added
(`readBlocks_documents`), however the bytes are delivered. Whatever is read, such documents lead to
the call that ends the reading (`exists_stop_of_readBlocks`). -/

namespace DumpCatalog

open Block

/-! ### The magic number -/

theorem readMagic_magicBytes {source : Source} {tail : Bytes}
    (h : source.rest = magicBytes ++ tail) :
    (readMagic source).1 = .ok () ∧ (readMagic source).2.rest = tail ∧
      (readMagic source).2.ending = source.ending := by
  obtain ⟨taken, rest, ending⟩ := source.takeExactly_eq 4
  have four : magicBytes.length = 4 := by decide
  rw [h, if_pos (by rw [List.length_append, four]; omega), List.take_left' four] at taken
  rw [h, List.drop_left' four] at rest
  unfold readMagic
  generalize source.takeExactly 4 = result at taken rest ending ⊢
  obtain ⟨result, later⟩ := result
  dsimp only at taken rest ending
  subst taken
  exact ⟨rfl, rest, ending⟩

theorem rest_of_readMagic {source : Source} (h : (readMagic source).1 = .ok ()) :
    source.rest = magicBytes ++ (readMagic source).2.rest := by
  obtain ⟨taken, rest, -⟩ := source.takeExactly_eq 4
  unfold readMagic at h ⊢
  generalize source.takeExactly 4 = result at taken rest h ⊢
  obtain ⟨result, later⟩ := result
  dsimp only at taken rest
  by_cases enough : 4 ≤ source.rest.length
  · rw [if_pos enough] at taken
    subst taken
    dsimp only at h ⊢
    split at h
    · next known =>
      have four : (source.rest.take 4).length = 4 := List.length_take_of_le enough
      have front : source.rest.take 4 = magicBytes := by
        rw [← Bytes.ofUInt32_toUInt32 four, known]; rfl
      rw [rest, ← front, List.take_append_drop]
    · simp at h
  · rw [if_neg enough] at taken
    subst taken
    simp at h

namespace Catalog

/-! ### Blocks -/

/-- **Reading goes block by block.** -/
theorem readBlocks_eq (catalog : Catalog) (reader : BlockReader) :
    ((readBlocks catalog reader).1.outcome, (readBlocks catalog reader).2) =
      match reader.next.1.outcome with
      | .error fault => (.error fault, reader.next.2)
      | .ok .terminator => (.ok catalog, reader.next.2)
      | .ok (.header doc) =>
        match Header.ofBytes doc with
        | .error cause => (.error (.decode cause), reader.next.2)
        | .ok header =>
          ((readBlocks { catalog with header := header } reader.next.2).1.outcome,
            (readBlocks { catalog with header := header } reader.next.2).2)
      | .ok (.body doc) =>
        match Record.ofBytes doc with
        | .error cause => (.error (.decode cause), reader.next.2)
        | .ok record =>
          ((readBlocks (catalog.add record) reader.next.2).1.outcome,
            (readBlocks (catalog.add record) reader.next.2).2) := by
  rw [readBlocks]
  split
  · next h => rw [h]
  · next h => rw [h]
  · next doc later h =>
    conv => rhs; rw [h]
    dsimp only
    cases Header.ofBytes doc <;> rfl
  · next doc later h =>
    conv => rhs; rw [h]
    dsimp only
    cases Record.ofBytes doc <;> rfl

section Documents
variable {reader : BlockReader} {ending : Ending} {doc rest tail : Bytes}

theorem readBlocks_header (catalog : Catalog) {header : Header}
    (h : reader.Awaits false ending (doc ++ tail))
    (framed : Framed doc) (decoded : Header.ofBytes doc = .ok header) :
    ∃ later : BlockReader, later.Awaits true ending tail ∧
      (readBlocks catalog reader).1.outcome =
        (readBlocks { catalog with header := header } later).1.outcome ∧
      (readBlocks catalog reader).2 = (readBlocks { catalog with header := header } later).2 := by
  obtain ⟨outcome, later⟩ := h.document framed
  have both := readBlocks_eq catalog reader
  simp only [outcome, Bool.false_eq_true, if_false, decoded, Prod.mk.injEq] at both
  exact ⟨_, later, both⟩

theorem readBlocks_body (catalog : Catalog) {record : Record}
    (h : reader.Awaits true ending (doc ++ tail))
    (framed : Framed doc) (decoded : Record.ofBytes doc = .ok record) :
    ∃ later : BlockReader, later.Awaits true ending tail ∧
      (readBlocks catalog reader).1.outcome = (readBlocks (catalog.add record) later).1.outcome ∧
      (readBlocks catalog reader).2 = (readBlocks (catalog.add record) later).2 := by
  obtain ⟨outcome, later⟩ := h.document framed
  have both := readBlocks_eq catalog reader
  simp only [outcome, if_true, decoded, Prod.mk.injEq] at both
  exact ⟨_, later, both⟩

/-- **Over framed documents that write records, reading comes to what is behind them.** -/
theorem readBlocks_documents (catalog : Catalog) {docs : List Bytes} {records : List Record}
    (h : reader.Awaits true ending (docs.flatten ++ tail)) (framed : ∀ doc ∈ docs, Framed doc)
    (decoded : List.Forall₂ (fun doc record => Record.ofBytes doc = .ok record) docs records) :
    ∃ later : BlockReader, later.Awaits true ending tail ∧
      (readBlocks catalog reader).1.outcome =
        (readBlocks (catalog.addAll records) later).1.outcome ∧
      (readBlocks catalog reader).2 = (readBlocks (catalog.addAll records) later).2 := by
  induction decoded generalizing catalog reader with
  | nil => exact ⟨reader, by simpa using h, rfl, rfl⟩
  | @cons doc record docs records first _ ih =>
    rw [List.flatten_cons, List.append_assoc] at h
    obtain ⟨next, waits, outcome, source⟩ :=
      readBlocks_body catalog h (framed doc (List.mem_cons_self ..)) first
    obtain ⟨later, waits', outcome', source'⟩ := ih (catalog.add record) waits
      (fun doc member => framed doc (List.mem_cons_of_mem _ member))
    exact ⟨later, waits', outcome.trans outcome', source.trans source'⟩

theorem readBlocks_terminator (catalog : Catalog)
    (h : reader.Awaits true ending (terminatorBytes ++ tail)) :
    (readBlocks catalog reader).1.outcome = .ok catalog ∧
      (readBlocks catalog reader).2.source.rest = tail := by
  obtain ⟨outcome, left⟩ := h.terminator
  have both := readBlocks_eq catalog reader
  simp only [outcome, Prod.mk.injEq] at both
  exact ⟨both.1, by rw [both.2]; exact left⟩

theorem readBlocks_error (catalog : Catalog) {fault : Fault}
    (given : reader.next.1.outcome = .error fault) :
    (readBlocks catalog reader).1.outcome = .error fault ∧
      (readBlocks catalog reader).2 = reader.next.2 := by
  have both := readBlocks_eq catalog reader
  simpa only [given, Prod.mk.injEq] using both

/-- **Behind the header, reading comes to a call that gives no record**, over framed documents that
write records. -/
theorem exists_stop_of_readBlocks (catalog : Catalog) (h : reader.Awaits true ending rest) :
    ∃ (docs : List Bytes) (records : List Record) (later : BlockReader) (tail : Bytes),
      (∀ doc ∈ docs, Framed doc) ∧
      List.Forall₂ (fun doc record => Record.ofBytes doc = .ok record) docs records ∧
      rest = docs.flatten ++ tail ∧ later.Awaits true ending tail ∧
      (∀ doc record, later.next.1.outcome = .ok (.body doc) → Record.ofBytes doc ≠ .ok record) ∧
      (readBlocks catalog reader).1.outcome =
        (readBlocks (catalog.addAll records) later).1.outcome ∧
      (readBlocks catalog reader).2 = (readBlocks (catalog.addAll records) later).2 := by
  -- every document shortens what is left
  induction length : rest.length using Nat.strongRecOn generalizing catalog reader rest with
  | ind n ih =>
  by_cases stops : ∀ doc record, reader.next.1.outcome = .ok (.body doc) →
      Record.ofBytes doc ≠ .ok record
  · exact ⟨[], [], reader, rest, by simp, .nil, rfl, h, stops, rfl, rfl⟩
  · simp only [not_forall, ne_eq, not_not] at stops
    obtain ⟨doc, record, given, decoded⟩ := stops
    rcases h.of_ok given with ⟨doc', tail, framed, rfl, block, -⟩ | ⟨-, -, block⟩
    · cases block
      obtain ⟨next, waits, outcome, source⟩ := readBlocks_body catalog h framed decoded
      have shorter : tail.length < n := by
        have := framed.length_ge
        rw [← length, List.length_append]
        omega
      obtain ⟨docs, records, later, tail', framedAll, decodedAll, split, waits', stops, outcome',
        source'⟩ := ih tail.length shorter (catalog.add record) waits rfl
      refine ⟨doc :: docs, record :: records, later, tail',
        List.forall_mem_cons.mpr ⟨framed, framedAll⟩, .cons decoded decodedAll, ?_, waits', stops,
        outcome.trans outcome', source.trans source'⟩
      rw [split, List.flatten_cons, List.append_assoc]
    · cases block

theorem readBlocks_badSize (catalog : Catalog) {seen : Bool} {slot : Bytes}
    (h : reader.Awaits seen ending (slot ++ tail)) (four : slot.length = 4)
    (document : Bytes.toInt32 slot ≠ terminatorSize)
    (outside : ¬ (minSize ≤ Bytes.toInt32 slot ∧ Bytes.toInt32 slot ≤ maxSize)) :
    (readBlocks catalog reader).1.outcome = .error (.invalidBlockSize (Bytes.toInt32 slot)) := by
  obtain ⟨outcome, -⟩ := h.badSize four document outside
  have both := readBlocks_eq catalog reader
  simp only [outcome, Prod.mk.injEq] at both
  exact both.1

end Documents

/-! ### Whole catalogs -/

theorem read_eq {source : Source} (h : (readMagic source).1 = .ok ()) :
    (read source).1.outcome =
        (readBlocks (new (Header.new 1)) (BlockReader.new (readMagic source).2)).1.outcome ∧
      (read source).2 =
        (readBlocks (new (Header.new 1)) (BlockReader.new (readMagic source).2)).2.source := by
  unfold read
  generalize readMagic source = result at h ⊢
  obtain ⟨result, later⟩ := result
  dsimp only at h
  subst h
  refine ⟨?_, rfl⟩
  simp only [Logged.outcome_bind, Logged.outcome_report, Logged.outcome_pure]
  cases (readBlocks (new (Header.new 1)) (BlockReader.new later)).1.outcome <;> rfl

theorem readMagic_of_read {source : Source} {catalog : Catalog}
    (h : (read source).1.outcome = .ok catalog) : (readMagic source).1 = .ok () := by
  unfold read at h
  generalize readMagic source = result at h ⊢
  obtain ⟨result, later⟩ := result
  cases result with
  | error fault => simp at h
  | ok => rfl

end Catalog

end DumpCatalog
