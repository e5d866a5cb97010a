import DumpCatalog.Sink
import DumpCatalog.Source

/-! # Sinks: what arrives does not depend on how it is taken

A sink may take less than it is offered in one call, or be interrupted, and it is then offered the
rest again until it takes nothing (`PacedSink.send`). What it holds in the end, and whether
everything arrived, is the same as if it took in one call all that there is room for
(`PacedSink.sendAll_eq`), since what there is room for can be written first (`Sink.write_append`). -/

namespace DumpCatalog

/-! ### Room -/

namespace Sink

theorem room_room (sink : Sink) (n : Nat) : sink.room (sink.room n) = sink.room n := by
  unfold room
  cases sink.limit with
  | none => rfl
  | some limit =>
    dsimp only
    omega

theorem room_eq_zero {sink : Sink} {n : Nat} (positive : n ≠ 0) (full : sink.room n = 0) (m : Nat) :
    sink.room m = 0 := by
  unfold room at full ⊢
  cases limit : sink.limit with
  | none => exact absurd (by simpa [limit] using full) positive
  | some limit =>
    simp only [limit] at full ⊢
    omega

end Sink

/-! ### Taking bytes call by call -/

/-- A sink and how the coming calls behave: one may be interrupted, or take no more than some of the
bytes that it is offered. Calls beyond the schedule take all that there is room for. -/
structure PacedSink where
  sink : Sink
  schedule : List Delivery
  deriving DecidableEq, Repr

namespace PacedSink

/-- How many of the bytes that are offered one call takes, if it is not interrupted. -/
def offer (paced : PacedSink) (bs : Bytes) : Option Nat :=
  match paced.schedule with
  | [] => some (paced.sink.room bs.length)
  | .interrupted :: _ => none
  | .upTo more :: _ => some (paced.sink.room (min bs.length (more + 1)))

/-- The sink behind a call that takes bytes. -/
def after (paced : PacedSink) (taken : Bytes) : PacedSink :=
  ⟨{ paced.sink with held := paced.sink.held ++ taken }, paced.schedule.tail⟩

/-- Offers bytes until all of them are taken, or none is. Interrupted calls are tried again. -/
def send (paced : PacedSink) (bs : Bytes) : Except IoFault Unit × PacedSink :=
  if bs = [] then (.ok (), paced)
  else
    match h : paced.offer bs with
    | none => (paced.after []).send bs
    | some 0 => (.error .sinkFull, paced.after [])
    | some (n + 1) => (paced.after (bs.take (n + 1))).send (bs.drop (n + 1))
termination_by paced.schedule.length + bs.length
decreasing_by
  · have unheard : paced.schedule ≠ [] := by
      intro none
      simp [offer, none] at h
    have := List.length_pos_iff.mpr unheard
    simp only [after, List.length_tail]
    omega
  · have := List.length_pos_iff.mpr ‹bs ≠ []›
    simp only [after, List.length_tail, List.length_drop]
    omega

theorem offer_eq_some {paced : PacedSink} {bs : Bytes} {taken : Nat} (nonempty : bs ≠ [])
    (h : paced.offer bs = some taken) :
    ∃ most, most ≠ 0 ∧ most ≤ bs.length ∧ taken = paced.sink.room most := by
  have positive := List.length_pos_iff.mpr nonempty
  unfold offer at h
  split at h
  · exact ⟨bs.length, by omega, Nat.le_refl _, (Option.some.inj h).symm⟩
  · simp at h
  · next more _ _ =>
    exact ⟨min bs.length (more + 1), by omega, Nat.min_le_left .., (Option.some.inj h).symm⟩

/-- **What arrives of bytes does not depend on how they are taken.** -/
theorem send_eq (paced : PacedSink) (bs : Bytes) :
    (paced.send bs).1 = (paced.sink.write bs).1 ∧
      (paced.send bs).2.sink = (paced.sink.write bs).2 := by
  fun_induction send paced bs with
  | case1 paced =>
    have fits : paced.sink.room ([] : Bytes).length = ([] : Bytes).length :=
      Nat.le_zero.mp (paced.sink.room_le 0)
    rw [Sink.write_of_room fits, List.append_nil]
    exact ⟨rfl, rfl⟩
  | case2 paced bs nonempty interrupted ih => simpa only [after, List.append_nil] using ih
  | case3 paced bs nonempty refused =>
    obtain ⟨most, positive, -, full⟩ := offer_eq_some nonempty refused
    have none := Sink.room_eq_zero positive full.symm bs.length
    have short : 0 ≠ bs.length := Nat.ne_of_lt (List.length_pos_iff.mpr nonempty)
    rw [Sink.write, none, if_neg short]
    exact ⟨rfl, rfl⟩
  | case4 paced bs nonempty n offered ih =>
    obtain ⟨most, -, inside, taken⟩ := offer_eq_some nonempty offered
    have taken : n + 1 = paced.sink.room most := taken
    have less : n + 1 ≤ bs.length := by
      rw [taken]
      exact Nat.le_trans (paced.sink.room_le most) inside
    have fits : paced.sink.room (bs.take (n + 1)).length = (bs.take (n + 1)).length := by
      rw [List.length_take_of_le less, taken, Sink.room_room]
    have whole := Sink.write_append fits (bs.drop (n + 1))
    rw [List.take_append_drop] at whole
    rw [whole]
    exact ih

/-- Sends the pieces in turn, up to the first of which not everything is taken. -/
def sendAll (paced : PacedSink) : List Bytes → Except IoFault Unit × PacedSink
  | [] => (.ok (), paced)
  | piece :: pieces =>
    match paced.send piece with
    | (.error fault, later) => (.error fault, later)
    | (.ok (), later) => later.sendAll pieces

/-- **What arrives of pieces that are sent in turn does not depend on how they are taken.** -/
theorem sendAll_eq (paced : PacedSink) (pieces : List Bytes) :
    (paced.sendAll pieces).1 = (paced.sink.writeAll pieces).1 ∧
      (paced.sendAll pieces).2.sink = (paced.sink.writeAll pieces).2 := by
  induction pieces generalizing paced with
  | nil => exact ⟨rfl, rfl⟩
  | cons piece pieces ih =>
    obtain ⟨outcome, sink⟩ := paced.send_eq piece
    rw [sendAll, Sink.writeAll]
    generalize paced.send piece = sent at outcome sink ⊢
    generalize paced.sink.write piece = written at outcome sink ⊢
    obtain ⟨sent, later⟩ := sent
    obtain ⟨written, plain⟩ := written
    obtain rfl : sent = written := outcome
    obtain rfl : later.sink = plain := sink
    cases sent with
    | error fault => exact ⟨rfl, rfl⟩
    | ok done => exact ih later

end PacedSink

end DumpCatalog
