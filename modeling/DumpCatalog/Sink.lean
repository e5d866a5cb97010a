import DumpCatalog.Bytes
import DumpCatalog.Fault

/-! # Sinks for bytes

A sink holds what was written to it and may be full after a number of bytes. A write that does not
fit fills it up and fails. It does not matter how bytes are cut into pieces that are written in turn
(`Sink.writeAll_eq_write`): either all of them fit and are held (`Sink.writeAll_of_le`), or the sink
holds the beginning of what was sent to it, up to its limit, and writing fails
(`Sink.writeAll_of_lt`). -/

namespace DumpCatalog

/-- What was written, and how many bytes are taken in all; without a limit, every byte is. -/
structure Sink where
  held : Bytes
  limit : Option Nat
  deriving DecidableEq, Repr

namespace Sink

/-- A sink that holds nothing yet. -/
def empty (limit : Option Nat) : Sink := ⟨[], limit⟩

/-- How many of `n` more bytes are taken. -/
def room (sink : Sink) (n : Nat) : Nat :=
  match sink.limit with
  | none => n
  | some limit => min n (limit - sink.held.length)

/-- Writes all the bytes, or as many as there is room for. -/
def write (sink : Sink) (bs : Bytes) : Except IoFault Unit × Sink :=
  let taken := sink.room bs.length
  (if taken = bs.length then .ok () else .error .sinkFull,
    { sink with held := sink.held ++ bs.take taken })

/-- Writes the pieces in turn, up to the first that does not fit. -/
def writeAll (sink : Sink) : List Bytes → Except IoFault Unit × Sink
  | [] => (.ok (), sink)
  | piece :: pieces =>
    match sink.write piece with
    | (.error fault, later) => (.error fault, later)
    | (.ok (), later) => later.writeAll pieces

/-! ### Writing by pieces -/

theorem room_le (sink : Sink) (n : Nat) : sink.room n ≤ n := by
  rw [room]
  split
  · exact Nat.le_refl n
  · exact Nat.min_le_left ..

theorem write_of_room {sink : Sink} {bs : Bytes} (fits : sink.room bs.length = bs.length) :
    sink.write bs = (.ok (), { sink with held := sink.held ++ bs }) := by
  rw [write, if_pos fits, fits, List.take_length]

theorem write_append {sink : Sink} {front : Bytes}
    (fits : sink.room front.length = front.length) (back : Bytes) :
    sink.write (front ++ back) = { sink with held := sink.held ++ front }.write back := by
  have room : sink.room (front.length + back.length) =
      front.length + { sink with held := sink.held ++ front }.room back.length := by
    unfold Sink.room at fits ⊢
    cases limit : sink.limit with
    | none => rfl
    | some limit =>
      simp only [limit, List.length_append] at fits ⊢
      omega
  simp only [write, room, List.length_append, Nat.add_left_cancel_iff, List.append_assoc,
    List.take_length_add_append]

theorem write_append_of_ne {sink : Sink} {front : Bytes}
    (tooLong : sink.room front.length ≠ front.length) (back : Bytes) :
    sink.write (front ++ back) = sink.write front := by
  have room : sink.room (front ++ back).length = sink.room front.length := by
    unfold Sink.room at tooLong ⊢
    cases limit : sink.limit with
    | none => simp [limit] at tooLong
    | some limit =>
      simp only [limit, List.length_append] at tooLong ⊢
      omega
  have less : sink.room front.length ≤ front.length := sink.room_le _
  have short : sink.room front.length ≠ (front ++ back).length := by
    rw [List.length_append]
    omega
  rw [write, write, room, if_neg short, if_neg tooLong, List.take_append_of_le_length less]

theorem write_write_of_ne {sink : Sink} {front : Bytes}
    (tooLong : sink.room front.length ≠ front.length) (back : Bytes) :
    ((sink.write front).2.write back).2 = (sink.write front).2 := by
  have full : (sink.write front).2.room back.length = 0 := by
    unfold room at tooLong ⊢
    cases limit : sink.limit with
    | none => simp [limit] at tooLong
    | some limit =>
      simp only [limit, write, room, List.length_append, List.length_take] at tooLong ⊢
      omega
  rw [write, full]
  simp

/-- **It does not matter how bytes are cut into pieces** that are written in turn. -/
theorem writeAll_eq_write (sink : Sink) (pieces : List Bytes) :
    sink.writeAll pieces = sink.write pieces.flatten := by
  induction pieces generalizing sink with
  | nil =>
    have fits : sink.room ([] : Bytes).length = ([] : Bytes).length :=
      Nat.le_zero.mp (sink.room_le 0)
    rw [writeAll, List.flatten_nil, write_of_room fits, List.append_nil]
  | cons piece pieces ih =>
    rw [writeAll, List.flatten_cons]
    by_cases fits : sink.room piece.length = piece.length
    · rw [write_append fits, write_of_room fits]
      exact ih _
    · rw [write_append_of_ne fits, write, if_neg fits]

/-! ### What a sink holds -/

variable {sink : Sink} {limit : Nat}

theorem write_of_le {bs : Bytes} (h : sink.limit = some limit)
    (fits : sink.held.length + bs.length ≤ limit) :
    sink.write bs = (.ok (), { sink with held := sink.held ++ bs }) := by
  have taken : sink.room bs.length = bs.length := by
    simp only [room, h]
    omega
  simp [write, taken]

theorem write_of_lt {bs : Bytes} (h : sink.limit = some limit)
    (small : sink.held.length ≤ limit) (tooLong : limit < sink.held.length + bs.length) :
    sink.write bs = (.error .sinkFull, { sink with held := (sink.held ++ bs).take limit }) := by
  have taken : sink.room bs.length = limit - sink.held.length := by
    simp only [room, h]
    omega
  have short : limit - sink.held.length ≠ bs.length := by omega
  simp [write, taken, short, List.take_append, List.take_of_length_le small]

theorem writeAll_of_none (h : sink.limit = none) (pieces : List Bytes) :
    sink.writeAll pieces = (.ok (), { sink with held := sink.held ++ pieces.flatten }) := by
  rw [writeAll_eq_write]
  refine write_of_room ?_
  simp only [room, h]

theorem writeAll_of_le (h : sink.limit = some limit) {pieces : List Bytes}
    (fits : sink.held.length + pieces.flatten.length ≤ limit) :
    sink.writeAll pieces = (.ok (), { sink with held := sink.held ++ pieces.flatten }) := by
  rw [writeAll_eq_write]
  exact write_of_le h fits

/-- Of pieces that do not fit the sink holds the beginning, up to its limit. -/
theorem writeAll_of_lt (h : sink.limit = some limit) (small : sink.held.length ≤ limit)
    {pieces : List Bytes} (tooLong : limit < sink.held.length + pieces.flatten.length) :
    sink.writeAll pieces =
      (.error .sinkFull, { sink with held := (sink.held ++ pieces.flatten).take limit }) := by
  rw [writeAll_eq_write]
  exact write_of_lt h small tooLong

end Sink

end DumpCatalog
