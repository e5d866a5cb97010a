import DumpCatalog.Block
import DumpCatalog.Proofs.Source.Delivery
import Mathlib.Data.List.Forall2

/-! # Blocks: calls do not depend on how bytes are delivered

A reader of a source that is interrupted, brings its bytes in pieces and may fail behind them is put
beside a reader that is served the same bytes whole (`BlockReader.Alike`). One call gives the same
on both and leaves them alike (`BlockReader.Alike.next`), so any number of calls does, whatever
faults there are on the way (`BlockReader.Alike.calls`). The only difference is in faults of the
end: where the bytes end too early for the one reader, the other meets the failure of its source
(`Ending.reword`). -/

namespace DumpCatalog

/-- Whether the fault is that the bytes ended where more of them had to come. -/
def Fault.isEnd : Fault → Bool
  | .truncated | .io .tornLength | .io .shortRead => true
  | _ => false

/-- What becomes of a fault with an ending: a source that fails never comes to its end, so its
failure stands for every fault of the end. -/
def Ending.reword : Ending → Fault → Fault
  | .closed, fault => fault
  | .failing cause, fault => if fault.isEnd then .io cause else fault

/-- The computation with its fault, if it has one, in other words. -/
def Logged.mapFault {α : Type} (f : Fault → Fault) (computation : Logged α) : Logged α :=
  ⟨computation.events, computation.outcome.mapError f⟩

/-- What cannot fail behind a computation does not matter to the wording of its fault. -/
theorem Logged.mapFault_bind {α β : Type} {f : Fault → Fault} {next : α → Logged β}
    (sure : ∀ a, (next a).mapFault f = next a) (first : Logged α) :
    first.mapFault f >>= next = (first >>= next).mapFault f := by
  obtain ⟨events, outcome⟩ := first
  cases outcome with
  | error fault => rfl
  | ok a =>
    have same : (next a).outcome.mapError f = (next a).outcome :=
      congrArg Logged.outcome (sure a)
    show Logged.mk _ (next a).outcome = Logged.mk _ ((next a).outcome.mapError f)
    rw [same]
    rfl

theorem Ending.reword_eq_self {fault : Fault} (other : fault.isEnd = false) (ending : Ending) :
    ending.reword fault = fault := by
  cases ending with
  | closed => rfl
  | failing cause =>
    show (if fault.isEnd then _ else fault) = fault
    rw [other, if_neg (by simp)]

theorem Ending.reword_shortRead (ending : Ending) :
    ending.reword (.io .shortRead) = .io ending.fault := by
  cases ending with
  | closed => rfl
  | failing cause => rfl

/-! ### Sources -/

namespace Source

/-- A source has the bytes of another one, which is closed behind them, before its own ending. -/
structure Alike (ending : Ending) (source whole : Source) : Prop where
  rest : source.rest = whole.rest
  ending : source.ending = ending
  closed : whole.ending = .closed

variable {ending : Ending} {source whole : Source}

theorem alike_ofBytes (stream : Bytes) (schedule : List Delivery) (ending : Ending) :
    Alike ending ⟨stream, schedule, ending⟩ (ofBytes stream) :=
  ⟨rfl, rfl, rfl⟩

theorem Alike.fill (h : Alike ending source whole) (room : Nat) :
    (source.fill room).bytes = (whole.fill room).bytes ∧
      Alike ending (source.fill room).source (whole.fill room).source ∧
      ((source.fill room).stop = .full ∧ (whole.fill room).stop = .full ∨
        (source.fill room).stop = ending.stop ∧ (whole.fill room).stop = .ended) := by
  obtain ⟨bytes, rest, last, stop⟩ := source.fill_eq room
  obtain ⟨bytes', rest', last', stop'⟩ := whole.fill_eq room
  rw [h.rest] at bytes rest
  rw [h.rest, h.ending] at stop
  rw [h.closed] at stop'
  refine ⟨bytes.trans bytes'.symm, ⟨rest.trans rest'.symm, last.trans h.ending,
    last'.trans h.closed⟩, ?_⟩
  by_cases enough : room ≤ whole.rest.length
  · rw [if_pos enough] at stop stop'
    exact .inl ⟨stop, stop'⟩
  · rw [if_neg enough] at stop stop'
    exact .inr ⟨stop, stop'⟩

theorem Alike.takeExactly (h : Alike ending source whole) (n : Nat) :
    Alike ending (source.takeExactly n).2 (whole.takeExactly n).2 ∧
      ((∃ bytes, (source.takeExactly n).1 = .ok bytes ∧ (whole.takeExactly n).1 = .ok bytes) ∨
        (source.takeExactly n).1 = .error ending.fault ∧
          (whole.takeExactly n).1 = .error .shortRead) := by
  obtain ⟨taken, rest, last⟩ := source.takeExactly_eq n
  obtain ⟨taken', rest', last'⟩ := whole.takeExactly_eq n
  rw [h.rest, h.ending] at taken
  rw [h.closed] at taken'
  rw [h.rest] at rest
  refine ⟨⟨rest.trans rest'.symm, last.trans h.ending, last'.trans h.closed⟩, ?_⟩
  by_cases enough : n ≤ whole.rest.length
  · rw [if_pos enough] at taken taken'
    exact .inl ⟨_, taken, taken'⟩
  · rw [if_neg enough] at taken taken'
    exact .inr ⟨taken, taken'⟩

end Source

/-! ### Calls -/

namespace BlockReader

/-- The calls of a run in turn: what each of them gives, and the reader behind it. A fault does not
end the run. -/
def calls (reader : BlockReader) : Nat → List (Logged Block × BlockReader)
  | 0 => []
  | n + 1 => reader.next :: reader.next.2.calls n

/-- Two readers have seen the same, and have the same bytes before them. -/
structure Alike (ending : Ending) (reader whole : BlockReader) : Prop where
  source : Source.Alike ending reader.source whole.source
  headerSeen : reader.headerSeen = whole.headerSeen
  ended : reader.ended = whole.ended

/-- Two calls give the same, but for the wording of faults, and leave the readers alike. -/
def SameCall (ending : Ending) (call whole : Logged Block × BlockReader) : Prop :=
  call.1 = whole.1.mapFault ending.reword ∧ Alike ending call.2 whole.2

variable {ending : Ending} {reader whole : BlockReader}

theorem alike_new {source other : Source} (h : Source.Alike ending source other) :
    Alike ending (new source) (new other) :=
  ⟨h, rfl, rfl⟩

theorem Alike.fail (h : Alike ending reader whole) {fault fault' : Fault}
    (words : ending.reword fault' = fault) :
    SameCall ending (.fail fault, reader) (.fail fault', whole) := by
  subst words
  exact ⟨rfl, h⟩

theorem Alike.give (h : Alike ending reader whole) (size : Int32) (doc : Bytes) :
    SameCall ending (reader.give size doc) (whole.give size doc) := by
  unfold BlockReader.give
  by_cases seen : whole.headerSeen = true
  · rw [if_pos (h.headerSeen.trans seen), if_pos seen]
    exact ⟨rfl, h⟩
  · rw [if_neg (by rw [h.headerSeen]; exact seen), if_neg seen]
    exact ⟨rfl, h.source, rfl, h.ended⟩

theorem Alike.finish (h : Alike ending reader whole) (slot : Bytes) :
    SameCall ending (reader.finish slot) (whole.finish slot) := by
  unfold BlockReader.finish
  dsimp only
  split
  · by_cases seen : whole.headerSeen = true
    · rw [if_pos (h.headerSeen.trans seen), if_pos seen]
      exact ⟨rfl, h.source, h.headerSeen, rfl⟩
    · rw [if_neg (by rw [h.headerSeen]; exact seen), if_neg seen]
      exact h.fail (ending.reword_eq_self rfl)
  · split
    · obtain ⟨later, outcome⟩ := h.source.takeExactly ((Bytes.toInt32 slot).toNatClampNeg - 4)
      generalize reader.source.takeExactly _ = result at later outcome ⊢
      generalize whole.source.takeExactly _ = result' at later outcome ⊢
      obtain ⟨result, source⟩ := result
      obtain ⟨result', source'⟩ := result'
      have behind : Alike ending { reader with source := source }
          { whole with source := source' } := ⟨later, h.headerSeen, h.ended⟩
      rcases outcome with ⟨body, rfl, rfl⟩ | ⟨rfl, rfl⟩
      · exact behind.give (Bytes.toInt32 slot) (slot ++ body)
      · exact behind.fail ending.reword_shortRead
    · exact h.fail (ending.reword_eq_self rfl)

/-- **One call gives the same on readers that are alike**, but for faults of the end, and leaves
them alike. -/
theorem Alike.next (h : Alike ending reader whole) :
    SameCall ending reader.next whole.next := by
  obtain ⟨bytes, later, stop⟩ := h.source.fill 4
  have behind : Alike ending { reader with source := (reader.source.fill 4).source }
      { whole with source := (whole.source.fill 4).source } := ⟨later, h.headerSeen, h.ended⟩
  unfold BlockReader.next
  dsimp only
  by_cases finished : whole.ended = true
  · rw [if_pos (h.ended.trans finished), if_pos finished]
    exact ⟨rfl, h⟩
  rw [if_neg (by rw [h.ended]; exact finished), if_neg finished]
  rcases stop with ⟨full, full'⟩ | ⟨stopped, ended⟩
  · rw [full, full', bytes]
    exact behind.finish _
  · rw [stopped, ended, bytes]
    cases ending with
    | closed => exact behind.fail rfl
    | failing cause =>
      refine behind.fail ?_
      split
      · rfl
      · rfl

/-- **Any number of calls give the same on readers that are alike.** -/
theorem Alike.calls (h : Alike ending reader whole) (n : Nat) :
    List.Forall₂ (SameCall ending) (reader.calls n) (whole.calls n) := by
  induction n generalizing reader whole with
  | zero => exact .nil
  | succ n ih => exact .cons h.next (ih h.next.2)

end BlockReader

end DumpCatalog
