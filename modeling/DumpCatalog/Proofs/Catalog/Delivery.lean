import DumpCatalog.Catalog.Stream
import DumpCatalog.Proofs.Block.Delivery

/-! # Catalogs: reading does not depend on how bytes are delivered

What is said of calls is lifted to whole catalogs. Reading a catalog is absorbing one block after
another (`Catalog.readBlocks_of_ok`), so it comes to the same on readers that are alike
(`Catalog.readBlocks_alike`). The main statement is `Catalog.serves`: a source serves its stream
however it cuts it into pieces and wherever it is interrupted, and a source that fails serves what
comes before its failure. -/

namespace DumpCatalog

variable {ending : Ending}

theorem readMagic_alike {source whole : Source} (h : Source.Alike ending source whole) :
    (readMagic source).1 = (readMagic whole).1.mapError ending.reword ∧
      Source.Alike ending (readMagic source).2 (readMagic whole).2 := by
  obtain ⟨later, outcome⟩ := h.takeExactly 4
  unfold readMagic
  generalize source.takeExactly 4 = result at later outcome ⊢
  generalize whole.takeExactly 4 = result' at later outcome ⊢
  obtain ⟨result, source⟩ := result
  obtain ⟨result', source'⟩ := result'
  rcases outcome with ⟨bytes, rfl, rfl⟩ | ⟨rfl, rfl⟩
  · refine ⟨?_, later⟩
    dsimp only
    split
    · rfl
    · exact congrArg Except.error (ending.reword_eq_self rfl).symm
  · exact ⟨congrArg Except.error ending.reword_shortRead.symm, later⟩

namespace Catalog

/-! ### Absorbing blocks -/

/-- What a block makes of a catalog, and what is reported of it: a header replaces the catalog's, a
body adds a record, and behind the terminator there is nothing to go on with. -/
def absorb (catalog : Catalog) : Block → Except Fault (Option (Catalog × List Event))
  | .terminator => .ok none
  | .header doc =>
    match Header.ofBytes doc with
    | .error cause => .error (.decode cause)
    | .ok header => .ok (some ({ catalog with header := header }, []))
  | .body doc =>
    match Record.ofBytes doc with
    | .error cause => .error (.decode cause)
    | .ok record =>
      .ok (some (catalog.add record, [.recordAdded record.database record.collection]))

variable {catalog : Catalog} {block : Block}

theorem isEnd_of_absorb {fault : Fault} (h : catalog.absorb block = .error fault) :
    fault.isEnd = false := by
  unfold absorb at h
  split at h
  · simp at h
  · split at h
    · cases h; rfl
    · simp at h
  · split at h
    · cases h; rfl
    · simp at h

theorem ne_terminator_of_absorb {next : Catalog × List Event}
    (h : catalog.absorb block = .ok (some next)) : block ≠ .terminator := by
  rintro rfl
  cases h

section Reading
variable {reader later : BlockReader} {events : List Event}

theorem readBlocks_of_error {fault : Fault} (h : reader.next = (⟨events, .error fault⟩, later)) :
    readBlocks catalog reader = (⟨events, .error fault⟩, later) := by
  rw [readBlocks]
  split
  · next h' => rw [h] at h'; cases h'; rfl
  · next h' => rw [h] at h'; cases h'
  · next h' => rw [h] at h'; cases h'
  · next h' => rw [h] at h'; cases h'

/-- **Reading absorbs a block that is given**, and goes on unless it is the terminator. -/
theorem readBlocks_of_ok (h : reader.next = (⟨events, .ok block⟩, later)) :
    readBlocks catalog reader =
      match catalog.absorb block with
      | .error fault => (⟨events, .error fault⟩, later)
      | .ok none => (⟨events, .ok catalog⟩, later)
      | .ok (some (next, added)) =>
        (⟨events ++ (added ++ (readBlocks next later).1.events),
          (readBlocks next later).1.outcome⟩, (readBlocks next later).2) := by
  rw [readBlocks]
  split
  · next h' => rw [h] at h'; cases h'
  · next h' => rw [h] at h'; cases h'; rfl
  · next doc _ h' =>
    rw [h] at h'
    cases h'
    dsimp only [absorb]
    cases Header.ofBytes doc with
    | error cause => rfl
    | ok header => rfl
  · next doc _ h' =>
    rw [h] at h'
    cases h'
    dsimp only [absorb]
    cases Record.ofBytes doc with
    | error cause => rfl
    | ok record => rfl

end Reading

/-- **Readers that are alike read the same catalog**, or meet the same fault but for its wording. -/
theorem readBlocks_alike {reader whole : BlockReader} (catalog : Catalog)
    (h : BlockReader.Alike ending reader whole) :
    (readBlocks catalog reader).1 = (readBlocks catalog whole).1.mapFault ending.reword ∧
      Source.Alike ending (readBlocks catalog reader).2.source
        (readBlocks catalog whole).2.source := by
  -- every document shortens what is left
  induction length : whole.source.rest.length using Nat.strongRecOn
    generalizing catalog reader whole with
  | ind n ih =>
  obtain ⟨same, behind⟩ := h.next
  cases given : whole.next with
  | mk result later' =>
  obtain ⟨events, outcome⟩ := result
  have given' : reader.next = (⟨events, outcome.mapError ending.reword⟩, reader.next.2) :=
    Prod.ext (by rw [same, given]; rfl) rfl
  rw [given] at behind
  cases outcome with
  | error fault =>
    rw [readBlocks_of_error given, readBlocks_of_error given']
    exact ⟨rfl, behind.source⟩
  | ok block =>
    rw [readBlocks_of_ok given, readBlocks_of_ok given']
    cases absorbed : catalog.absorb block with
    | error fault =>
      refine ⟨?_, behind.source⟩
      show Logged.mk events (.error fault) = Logged.mk events (.error (ending.reword fault))
      rw [ending.reword_eq_self (isEnd_of_absorb absorbed)]
    | ok next =>
      cases next with
      | none => exact ⟨rfl, behind.source⟩
      | some next =>
        have shorter := BlockReader.rest_lt_of_next given (ne_terminator_of_absorb absorbed)
        rw [length] at shorter
        obtain ⟨read, left⟩ := ih _ shorter next.1 behind rfl
        refine ⟨?_, left⟩
        show Logged.mk _ _ = Logged.mk _ _
        rw [read]
        rfl

/-! ### Whole catalogs -/

theorem read_alike {source whole : Source} (h : Source.Alike ending source whole) :
    (read source).1 = (read whole).1.mapFault ending.reword ∧
      Source.Alike ending (read source).2 (read whole).2 := by
  obtain ⟨magic, later⟩ := readMagic_alike h
  unfold read
  generalize readMagic source = result at magic later ⊢
  generalize readMagic whole = result' at magic later ⊢
  obtain ⟨result, source⟩ := result
  obtain ⟨result', source'⟩ := result'
  dsimp only at magic later
  cases result' with
  | error fault =>
    obtain rfl : result = .error (ending.reword fault) := magic
    exact ⟨rfl, later⟩
  | ok =>
    obtain rfl : result = .ok () := magic
    obtain ⟨read, left⟩ := readBlocks_alike (new (Header.new 1)) (BlockReader.alike_new later)
    refine ⟨?_, left⟩
    dsimp only
    rw [read, Logged.mapFault_bind]
    intro catalog
    rfl

end Catalog

/-- **A source serves a stream**: what is read from it is what is read from the stream when it is
served whole, but for the wording of faults. So it is with a catalog, of which the events and the
bytes that are left are the same too, and with any number of calls for blocks in turn, each of which
leaves the same bytes. -/
structure Source.Serves (source : Source) (stream : Bytes) (reword : Fault → Fault) : Prop where
  read : (Catalog.read source).1 = (Catalog.read (ofBytes stream)).1.mapFault reword
  left : (Catalog.read source).2.rest = (Catalog.read (ofBytes stream)).2.rest
  calls : ∀ n, List.Forall₂
    (fun call whole => call.1 = whole.1.mapFault reword ∧
      call.2.source.rest = whole.2.source.rest)
    ((BlockReader.new source).calls n) ((BlockReader.new (ofBytes stream)).calls n)

theorem Source.serves_rest (source : Source) :
    source.Serves source.rest source.ending.reword := by
  have alike := Source.alike_ofBytes source.rest source.schedule source.ending
  obtain ⟨read, left⟩ := Catalog.read_alike alike
  refine ⟨read, left.rest, fun n => ?_⟩
  have calls := (BlockReader.alike_new alike).calls n
  exact calls.imp fun call whole same => ⟨same.1, same.2.source.rest⟩

namespace Catalog

/-- **How bytes are delivered does not show.** A source that brings a stream in pieces of any sizes,
with any interruptions, and is closed behind it serves the stream word for word. If it fails behind
the first `n` bytes instead, it serves these, and its failure stands for every fault of their
end. -/
theorem serves (stream : Bytes) (schedule : List Delivery) :
    Source.Serves ⟨stream, schedule, .closed⟩ stream id ∧
      ∀ n ≤ stream.length, ∀ cause : IoFault,
        Source.Serves ⟨stream.take n, schedule, .failing cause⟩ (stream.take n)
          fun fault => if fault.isEnd then .io cause else fault :=
  ⟨Source.serves_rest ⟨stream, schedule, .closed⟩,
    fun n _ cause => Source.serves_rest ⟨stream.take n, schedule, .failing cause⟩⟩

end Catalog

end DumpCatalog
