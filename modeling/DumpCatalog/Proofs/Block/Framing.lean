import DumpCatalog.Block
import DumpCatalog.Proofs.Source.Delivery

/-! # Blocks: what one call takes off the bytes

A document is *framed* when its first four bytes are its own length, within the limits. `Step` lists
all that a call of a reader can do to the bytes that are left, and every call does one of these
things (`step_next`). Framed documents are told apart by their own bytes: what is in front of a
stream is one document at most (`Framed.append_inj`), and so the step that is possible is the only
one (`Step.document_eq` and its companions). -/

namespace DumpCatalog.Block

/-! ### Framed documents -/

/-- The first four bytes are the length of the whole, and it is within the limits. -/
structure Framed (doc : Bytes) : Prop where
  announced : (Bytes.toInt32 (doc.take 4)).toInt = doc.length
  min_le : minSize ≤ Bytes.toInt32 (doc.take 4)
  le_max : Bytes.toInt32 (doc.take 4) ≤ maxSize

theorem toInt_minSize : minSize.toInt = 5 := by decide

theorem toInt_maxSize : maxSize.toInt = 16793600 := by decide

theorem toInt_terminatorSize : terminatorSize.toInt = -1 := by decide

theorem length_terminatorBytes : terminatorBytes.length = 4 := by decide

theorem Framed.length_ge {doc : Bytes} (h : Framed doc) : 5 ≤ doc.length := by
  have := Int32.le_iff_toInt_le.mp h.min_le
  rw [h.announced, toInt_minSize] at this
  omega

theorem Framed.length_le {doc : Bytes} (h : Framed doc) : (doc.length : Int) ≤ maxSize.toInt := by
  rw [← h.announced]
  exact Int32.le_iff_toInt_le.mp h.le_max

theorem Framed.take_append {doc : Bytes} (h : Framed doc) (tail : Bytes) :
    (doc ++ tail).take 4 = doc.take 4 :=
  List.take_append_of_le_length (by have := h.length_ge; omega)

theorem Framed.ne_terminatorSize {doc : Bytes} (h : Framed doc) :
    Bytes.toInt32 (doc.take 4) ≠ terminatorSize := by
  intro same
  have := h.announced
  rw [same, toInt_terminatorSize] at this
  omega

/-- **At the front of a stream there is one framed document at most.** -/
theorem Framed.append_inj {doc doc' tail tail' : Bytes} (h : Framed doc) (h' : Framed doc')
    (same : doc ++ tail = doc' ++ tail') : doc = doc' ∧ tail = tail' := by
  have slots : doc.take 4 = doc'.take 4 := by rw [← h.take_append tail, same, h'.take_append]
  have lengths : (doc.length : Int) = doc'.length := by
    rw [← h.announced, slots, h'.announced]
  exact List.append_inj same (by omega)

theorem framed_append {slot body : Bytes} (four : slot.length = 4)
    (min_le : minSize ≤ Bytes.toInt32 slot) (le_max : Bytes.toInt32 slot ≤ maxSize)
    (length : body.length = (Bytes.toInt32 slot).toNatClampNeg - 4) : Framed (slot ++ body) := by
  have front : (slot ++ body).take 4 = slot := List.take_left' four
  have least := Int32.le_iff_toInt_le.mp min_le
  rw [toInt_minSize] at least
  have clamp := Int32.toNat_toInt (Bytes.toInt32 slot)
  refine ⟨?_, by rw [front]; exact min_le, by rw [front]; exact le_max⟩
  rw [front, List.length_append, four, length]
  omega

theorem Framed.append_ne_terminator {doc tail tail' : Bytes} (h : Framed doc) :
    doc ++ tail ≠ terminatorBytes ++ tail' := by
  intro same
  have slots : doc.take 4 = terminatorBytes := by
    rw [← h.take_append tail, same, List.take_left' length_terminatorBytes]
  exact h.ne_terminatorSize (by rw [slots]; decide)

/-! ### Steps -/

/-- What a call says when the stream ends before the slot of a length is full. -/
def slotFault (front : Bytes) : Ending → Fault
  | .closed => if front = [] then .truncated else .io .tornLength
  | .failing fault => .io fault

/-- **What one call can do.** A step leads from the bytes that are left before a call to its
outcome, the bytes left behind it, and whether the header and the terminator have been seen by then.
-/
inductive Step (seen : Bool) (ending : Ending) :
    Bytes → Except Fault Block → Bytes → Bool → Bool → Prop
  | document {doc tail : Bytes} (framed : Framed doc) :
      Step seen ending (doc ++ tail) (.ok (if seen then .body doc else .header doc)) tail true false
  | terminator {tail : Bytes} (known : seen = true) :
      Step seen ending (terminatorBytes ++ tail) (.ok .terminator) tail seen true
  | headerless {tail : Bytes} (unknown : seen = false) :
      Step seen ending (terminatorBytes ++ tail) (.error .missingHeader) tail seen false
  | badSize {slot tail : Bytes} (four : slot.length = 4)
      (document : Bytes.toInt32 slot ≠ terminatorSize)
      (outside : ¬ (minSize ≤ Bytes.toInt32 slot ∧ Bytes.toInt32 slot ≤ maxSize)) :
      Step seen ending (slot ++ tail) (.error (.invalidBlockSize (Bytes.toInt32 slot))) tail seen
        false
  | shortSlot {front : Bytes} (short : front.length < 4) :
      Step seen ending front (.error (slotFault front ending)) [] seen false
  | shortDocument {front : Bytes} (slot : 4 ≤ front.length)
      (min_le : minSize ≤ Bytes.toInt32 (front.take 4))
      (le_max : Bytes.toInt32 (front.take 4) ≤ maxSize)
      (short : (front.length : Int) < (Bytes.toInt32 (front.take 4)).toInt) :
      Step seen ending front (.error (.io ending.fault)) [] seen false

section Step
variable {seen seen' ended : Bool} {ending : Ending} {doc tail left : Bytes}
  {outcome : Except Fault Block}

/-- **In front of a framed document the only step is to give it.** -/
theorem Step.document_eq (framed : Framed doc)
    (h : Step seen ending (doc ++ tail) outcome left seen' ended) :
    outcome = .ok (if seen then .body doc else .header doc) ∧ left = tail ∧ seen' = true ∧
      ended = false := by
  have long := framed.length_ge
  generalize same : doc ++ tail = stream at h
  cases h with
  | document framed' =>
    obtain ⟨rfl, rfl⟩ := framed.append_inj framed' same
    exact ⟨rfl, rfl, rfl, rfl⟩
  | terminator => exact absurd same framed.append_ne_terminator
  | headerless => exact absurd same framed.append_ne_terminator
  | @badSize slot _ four _ outside =>
    have slots : doc.take 4 = slot := by
      rw [← framed.take_append tail, same, List.take_left' four]
    exact absurd ⟨slots ▸ framed.min_le, slots ▸ framed.le_max⟩ outside
  | shortSlot short =>
    rw [← same, List.length_append] at short
    omega
  | shortDocument _ _ _ short =>
    rw [← same, framed.take_append, framed.announced, List.length_append] at short
    omega

/-- **In front of the terminator the only step is to end** behind the header, and to refuse it before
the header. -/
theorem Step.terminatorBytes_eq
    (h : Step seen ending (terminatorBytes ++ tail) outcome left seen' ended) :
    outcome = (if seen then .ok .terminator else .error .missingHeader) ∧ left = tail ∧
      seen' = seen ∧ ended = seen := by
  have slot : (terminatorBytes ++ tail).take 4 = terminatorBytes :=
    List.take_left' length_terminatorBytes
  generalize same : terminatorBytes ++ tail = stream at h slot
  cases h with
  | document framed => exact absurd same.symm framed.append_ne_terminator
  | terminator known =>
    subst known
    exact ⟨rfl, (List.append_cancel_left same).symm, rfl, rfl⟩
  | headerless unknown =>
    subst unknown
    exact ⟨rfl, (List.append_cancel_left same).symm, rfl, rfl⟩
  | badSize four document =>
    rw [List.take_left' four] at slot
    exact absurd (by rw [slot]; decide) document
  | shortSlot short =>
    rw [← same, List.length_append, length_terminatorBytes] at short
    omega
  | shortDocument _ min_le =>
    rw [slot] at min_le
    exact absurd min_le (by decide)

/-- **In front of a length beyond the limits the only step is to refuse it.** -/
theorem Step.badSize_eq {slot : Bytes} (four : slot.length = 4)
    (document : Bytes.toInt32 slot ≠ terminatorSize)
    (outside : ¬ (minSize ≤ Bytes.toInt32 slot ∧ Bytes.toInt32 slot ≤ maxSize))
    (h : Step seen ending (slot ++ tail) outcome left seen' ended) :
    outcome = .error (.invalidBlockSize (Bytes.toInt32 slot)) ∧ left = tail ∧ seen' = seen ∧
      ended = false := by
  have front : (slot ++ tail).take 4 = slot := List.take_left' four
  generalize same : slot ++ tail = stream at h front
  cases h with
  | document framed =>
    rw [framed.take_append] at front
    exact absurd ⟨front ▸ framed.min_le, front ▸ framed.le_max⟩ outside
  | terminator =>
    rw [List.take_left' length_terminatorBytes] at front
    exact absurd (by rw [← front]; decide) document
  | headerless =>
    rw [List.take_left' length_terminatorBytes] at front
    exact absurd (by rw [← front]; decide) document
  | badSize four' =>
    obtain ⟨rfl, rfl⟩ := List.append_inj same (four.trans four'.symm)
    exact ⟨rfl, rfl, rfl, rfl⟩
  | shortSlot short =>
    rw [← same, List.length_append] at short
    omega
  | shortDocument _ min_le le_max =>
    rw [front] at min_le le_max
    exact absurd ⟨min_le, le_max⟩ outside

/-- **Where a slot is not full the only step is to find the stream at its end.** -/
theorem Step.shortSlot_eq (short : doc.length < 4)
    (h : Step seen ending doc outcome left seen' ended) :
    outcome = .error (slotFault doc ending) ∧ left = [] ∧ seen' = seen ∧ ended = false := by
  cases h with
  | document framed =>
    have := framed.length_ge
    rw [List.length_append] at short
    omega
  | terminator =>
    rw [List.length_append, length_terminatorBytes] at short
    omega
  | headerless =>
    rw [List.length_append, length_terminatorBytes] at short
    omega
  | badSize four =>
    rw [List.length_append] at short
    omega
  | shortSlot => exact ⟨rfl, rfl, rfl, rfl⟩
  | shortDocument slot => omega

/-- **Where a document is longer than what is left the only step is to find the stream at its
end.** -/
theorem Step.shortDocument_eq (slot : 4 ≤ doc.length)
    (min_le : minSize ≤ Bytes.toInt32 (doc.take 4)) (le_max : Bytes.toInt32 (doc.take 4) ≤ maxSize)
    (short : (doc.length : Int) < (Bytes.toInt32 (doc.take 4)).toInt)
    (h : Step seen ending doc outcome left seen' ended) :
    outcome = .error (.io ending.fault) ∧ left = [] ∧ seen' = seen ∧ ended = false := by
  cases h with
  | document framed =>
    rw [framed.take_append, framed.announced, List.length_append] at short
    omega
  | terminator =>
    rw [List.take_left' length_terminatorBytes] at min_le
    exact absurd min_le (by decide)
  | headerless =>
    rw [List.take_left' length_terminatorBytes] at min_le
    exact absurd min_le (by decide)
  | badSize four _ outside =>
    rw [List.take_left' four] at min_le le_max
    exact absurd ⟨min_le, le_max⟩ outside
  | shortSlot short => omega
  | shortDocument => exact ⟨rfl, rfl, rfl, rfl⟩

/-- **A block comes from a framed document, or behind the header from the terminator.** -/
theorem Step.of_ok {block : Block} (h : Step seen ending doc (.ok block) left seen' ended) :
    (∃ front, Framed front ∧ doc = front ++ left ∧
        block = if seen then .body front else .header front) ∨
      seen = true ∧ doc = terminatorBytes ++ left ∧ block = .terminator := by
  cases h with
  | document framed => exact .inl ⟨_, framed, rfl, rfl⟩
  | terminator known => exact .inr ⟨known, rfl, rfl⟩

/-- **What a step has seen by its end**: the header with a document, the terminator with the end of
the sequence, and nothing new with a fault. -/
theorem Step.seen_eq (h : Step seen ending doc outcome left seen' ended) :
    (∃ front, outcome = .ok (if seen then .body front else .header front)) ∧ seen' = true ∧
        ended = false ∨
      outcome = .ok .terminator ∧ seen = true ∧ seen' = true ∧ ended = true ∨
      (∃ fault, outcome = .error fault) ∧ seen' = seen ∧ ended = false := by
  cases h with
  | document => exact .inl ⟨⟨_, rfl⟩, rfl, rfl⟩
  | terminator known => exact .inr (.inl ⟨rfl, known, known, rfl⟩)
  | headerless => exact .inr (.inr ⟨⟨_, rfl⟩, rfl, rfl⟩)
  | badSize => exact .inr (.inr ⟨⟨_, rfl⟩, rfl, rfl⟩)
  | shortSlot => exact .inr (.inr ⟨⟨_, rfl⟩, rfl, rfl⟩)
  | shortDocument => exact .inr (.inr ⟨⟨_, rfl⟩, rfl, rfl⟩)

/-- **What is left stands at the end of what was there.** -/
theorem Step.suffix (h : Step seen ending doc outcome left seen' ended) :
    ∃ piece, doc = piece ++ left := by
  cases h with
  | document => exact ⟨_, rfl⟩
  | terminator => exact ⟨_, rfl⟩
  | headerless => exact ⟨_, rfl⟩
  | badSize => exact ⟨_, rfl⟩
  | shortSlot => exact ⟨_, (List.append_nil _).symm⟩
  | shortDocument => exact ⟨_, (List.append_nil _).symm⟩

end Step

end DumpCatalog.Block

namespace DumpCatalog.BlockReader

open Block

/-! ### Calls -/

theorem step_body (reader : BlockReader) (live : reader.ended = false) {slot : Bytes}
    (four : slot.length = 4) (min_le : minSize ≤ Bytes.toInt32 slot)
    (le_max : Bytes.toInt32 slot ≤ maxSize) :
    Step reader.headerSeen reader.source.ending (slot ++ reader.source.rest)
        (reader.finish slot).1.outcome (reader.finish slot).2.source.rest
        (reader.finish slot).2.headerSeen (reader.finish slot).2.ended ∧
      (reader.finish slot).2.source.ending = reader.source.ending := by
  have document : Bytes.toInt32 slot ≠ terminatorSize := by
    rintro last
    rw [last] at min_le
    exact absurd min_le (by decide)
  unfold finish
  dsimp only
  rw [if_neg document, if_pos ⟨min_le, le_max⟩]
  obtain ⟨taken, rest, ending⟩ :=
    reader.source.takeExactly_eq ((Bytes.toInt32 slot).toNatClampNeg - 4)
  generalize reader.source.takeExactly ((Bytes.toInt32 slot).toNatClampNeg - 4) = result
    at taken rest ending ⊢
  obtain ⟨result, later⟩ := result
  dsimp only at taken rest ending
  by_cases enough : (Bytes.toInt32 slot).toNatClampNeg - 4 ≤ reader.source.rest.length
  · rw [if_pos enough] at taken
    subst taken
    have framed := framed_append four min_le le_max (List.length_take_of_le enough)
    have step := @Step.document reader.headerSeen reader.source.ending _ later.rest framed
    rw [rest, List.append_assoc, List.take_append_drop, ← rest] at step
    refine ⟨?_, by rw [source_give]; exact ending⟩
    unfold give
    cases known : reader.headerSeen with
    | true => simpa [known, live] using step
    | false => simpa [known, live] using step
  · rw [if_neg enough] at taken
    subst taken
    have front : (slot ++ reader.source.rest).take 4 = slot := List.take_left' four
    have clamp := Int32.toNat_toInt (Bytes.toInt32 slot)
    have nothing : later.rest = [] := by
      rw [rest]
      exact List.drop_eq_nil_of_le (by omega)
    have step := @Step.shortDocument reader.headerSeen reader.source.ending
      (slot ++ reader.source.rest) (by rw [List.length_append]; omega)
      (by rwa [front]) (by rwa [front]) (by rw [front, List.length_append]; omega)
    exact ⟨by simpa [live, nothing, Logged.fail] using step, ending⟩

theorem step_finish (reader : BlockReader) (live : reader.ended = false) {slot : Bytes}
    (four : slot.length = 4) :
    Step reader.headerSeen reader.source.ending (slot ++ reader.source.rest)
        (reader.finish slot).1.outcome (reader.finish slot).2.source.rest
        (reader.finish slot).2.headerSeen (reader.finish slot).2.ended ∧
      (reader.finish slot).2.source.ending = reader.source.ending := by
  by_cases inside : minSize ≤ Bytes.toInt32 slot ∧ Bytes.toInt32 slot ≤ maxSize
  · exact step_body reader live four inside.1 inside.2
  unfold finish
  dsimp only
  by_cases last : Bytes.toInt32 slot = terminatorSize
  · have written : slot = terminatorBytes := by
      rw [← Bytes.ofInt32_toInt32 four, last]; rfl
    subst written
    rw [if_pos last]
    cases known : reader.headerSeen with
    | true =>
      have step := @Step.terminator true reader.source.ending reader.source.rest rfl
      exact ⟨by simpa [known] using step, rfl⟩
    | false =>
      have step := @Step.headerless false reader.source.ending reader.source.rest rfl
      exact ⟨by simpa [known, live, Logged.fail] using step, rfl⟩
  · rw [if_neg last, if_neg inside]
    exact ⟨by simpa [live, Logged.fail] using Step.badSize four last inside, rfl⟩

/-- **Every call of a reader that has not ended takes a step**, and how its source ends stays. -/
theorem step_next (reader : BlockReader) (live : reader.ended = false) :
    Step reader.headerSeen reader.source.ending reader.source.rest reader.next.1.outcome
        reader.next.2.source.rest reader.next.2.headerSeen reader.next.2.ended ∧
      reader.next.2.source.ending = reader.source.ending := by
  obtain ⟨bytes, rest, ending, stop⟩ := reader.source.fill_eq 4
  unfold next
  rw [if_neg (by simp [live])]
  dsimp only
  by_cases full : 4 ≤ reader.source.rest.length
  · rw [if_pos full] at stop
    rw [stop]
    have four : (reader.source.fill 4).bytes.length = 4 := by
      rw [bytes]
      exact List.length_take_of_le full
    have whole : (reader.source.fill 4).bytes ++ (reader.source.fill 4).source.rest =
        reader.source.rest := by
      rw [bytes, rest, List.take_append_drop]
    obtain ⟨step, ended⟩ :=
      step_finish { reader with source := (reader.source.fill 4).source } live four
    dsimp only at step ended ⊢
    rw [whole, ending] at step
    exact ⟨step, ended.trans ending⟩
  · rw [if_neg full] at stop
    rw [stop]
    have short : reader.source.rest.length < 4 := by omega
    have nothing : (reader.source.fill 4).source.rest = [] := by
      rw [rest]
      exact List.drop_eq_nil_of_le (by omega)
    have front : (reader.source.fill 4).bytes = reader.source.rest := by
      rw [bytes]
      exact List.take_of_length_le (by omega)
    have step := @Step.shortSlot reader.headerSeen reader.source.ending _ short
    cases closed : reader.source.ending with
    | closed =>
      rw [closed] at step ending
      refine ⟨?_, ending⟩
      simpa [Ending.stop, nothing, front, live, slotFault, Logged.fail] using step
    | failing fault =>
      rw [closed] at step ending
      exact ⟨by simpa [Ending.stop, nothing, live, slotFault, Logged.fail] using step, ending⟩

/-! ### Readers by their bytes -/

/-- What a reader that has not ended waits for: whether the header has come, and which bytes are
still to come, and how they end. -/
structure Awaits (reader : BlockReader) (seen : Bool) (ending : Ending) (rest : Bytes) : Prop where
  seen_eq : reader.headerSeen = seen
  live : reader.ended = false
  ending_eq : reader.source.ending = ending
  rest_eq : reader.source.rest = rest

theorem awaits_new (source : Source) : (new source).Awaits false source.ending source.rest :=
  ⟨rfl, rfl, rfl, rfl⟩

section Awaits
variable {reader : BlockReader} {seen : Bool} {ending : Ending} {doc slot rest tail : Bytes}

theorem Awaits.step (h : reader.Awaits seen ending rest) :
    Step seen ending rest reader.next.1.outcome reader.next.2.source.rest reader.next.2.headerSeen
      reader.next.2.ended := by
  have step := (step_next reader h.live).1
  rwa [h.seen_eq, h.ending_eq, h.rest_eq] at step

theorem Awaits.ending_next (h : reader.Awaits seen ending rest) :
    reader.next.2.source.ending = ending :=
  (step_next reader h.live).2.trans h.ending_eq

theorem Awaits.of_ok {block : Block} (h : reader.Awaits seen ending rest)
    (given : reader.next.1.outcome = .ok block) :
    (∃ doc tail, Framed doc ∧ rest = doc ++ tail ∧
        block = (if seen then .body doc else .header doc) ∧
        reader.next.2.Awaits true ending tail) ∨
      seen = true ∧ rest = terminatorBytes ++ reader.next.2.source.rest ∧ block = .terminator := by
  have step := h.step
  rw [given] at step
  rcases step.of_ok with ⟨doc, framed, rfl, rfl⟩ | ended
  · obtain ⟨-, -, known, live⟩ := step.document_eq framed
    exact .inl ⟨doc, _, framed, rfl, rfl, known, live, h.ending_next, rfl⟩
  · exact .inr ended

theorem Awaits.document (h : reader.Awaits seen ending (doc ++ tail)) (framed : Framed doc) :
    reader.next.1.outcome = .ok (if seen then .body doc else .header doc) ∧
      reader.next.2.Awaits true ending tail := by
  obtain ⟨outcome, left, known, live⟩ := h.step.document_eq framed
  exact ⟨outcome, known, live, h.ending_next, left⟩

theorem Awaits.terminator (h : reader.Awaits true ending (terminatorBytes ++ tail)) :
    reader.next.1.outcome = .ok .terminator ∧ reader.next.2.source.rest = tail := by
  obtain ⟨outcome, left, -, -⟩ := h.step.terminatorBytes_eq
  exact ⟨outcome, left⟩

theorem Awaits.badSize (h : reader.Awaits seen ending (slot ++ tail)) (four : slot.length = 4)
    (document : Bytes.toInt32 slot ≠ terminatorSize)
    (outside : ¬ (minSize ≤ Bytes.toInt32 slot ∧ Bytes.toInt32 slot ≤ maxSize)) :
    reader.next.1.outcome = .error (.invalidBlockSize (Bytes.toInt32 slot)) ∧
      reader.next.2.source.rest = tail := by
  obtain ⟨outcome, left, -, -⟩ := h.step.badSize_eq four document outside
  exact ⟨outcome, left⟩

end Awaits

end DumpCatalog.BlockReader
