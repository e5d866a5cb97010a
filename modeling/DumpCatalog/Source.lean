import DumpCatalog.Bytes
import DumpCatalog.Fault

/-! # Sources of bytes

A source serves its bytes in pieces. One read may be interrupted, bring fewer bytes than there is
room for, or find that the bytes are at an end; a schedule says how the coming reads behave, and
reads beyond the schedule bring all they can. `Source.fill` reads until it has what it wants. The
main statements say that it takes bytes off the front only and that it leaves no less than it
must. -/

namespace DumpCatalog

/-- How one read behaves. -/
inductive Delivery where
  /-- It brings nothing and is to be tried again. -/
  | interrupted
  /-- It brings one byte and at most this many more. -/
  | upTo (more : Nat)
  deriving DecidableEq, Repr

/-- How reads behave behind the last byte. -/
inductive Ending where
  | closed
  | failing (fault : IoFault)
  deriving DecidableEq, Repr

/-- The bytes still to come, and how they come. -/
structure Source where
  rest : Bytes
  schedule : List Delivery
  ending : Ending
  deriving DecidableEq, Repr

/-- What one read brings. No bytes mean that the source is at its end. -/
inductive Arrival where
  | interrupted
  | bytes (bs : Bytes)
  | failed (fault : IoFault)
  deriving DecidableEq, Repr

/-- Why filling stopped: there was no more room, no more to come, or a failure. -/
inductive Stop where
  | full
  | ended
  | failed (fault : IoFault)
  deriving DecidableEq, Repr

namespace Source

/-- A source that serves its bytes whole. -/
def ofBytes (bs : Bytes) : Source := ⟨bs, [], .closed⟩

/-- Takes at most `n` bytes off the front. -/
def serve (source : Source) (n : Nat) : Arrival × Source :=
  match source.rest with
  | [] =>
    match source.ending with
    | .closed => (.bytes [], source)
    | .failing fault => (.failed fault, source)
  | b :: bs => (.bytes ((b :: bs).take n), { source with rest := (b :: bs).drop n })

/-- One read into room for `room` bytes. -/
def read (source : Source) (room : Nat) : Arrival × Source :=
  match source.schedule with
  | [] => source.serve room
  | .interrupted :: later => (.interrupted, { source with schedule := later })
  | .upTo more :: later => { source with schedule := later }.serve (min room (more + 1))

theorem serve_rest {source later : Source} {n : Nat} {bs : Bytes}
    (h : source.serve n = (.bytes bs, later)) :
    source.rest = bs ++ later.rest ∧ later.schedule = source.schedule ∧
      later.ending = source.ending := by
  unfold serve at h
  split at h
  · split at h
    · cases h; simp_all
    · cases h
  · next hr => cases h; exact ⟨by rw [hr, List.take_append_drop], rfl, rfl⟩

theorem serve_ne_interrupted {source : Source} {n : Nat} :
    (source.serve n).1 ≠ .interrupted := by
  unfold serve
  split
  · split <;> simp
  · simp

theorem read_rest {source later : Source} {room : Nat} {bs : Bytes}
    (h : source.read room = (.bytes bs, later)) :
    source.rest = bs ++ later.rest ∧ later.schedule.length ≤ source.schedule.length ∧
      later.ending = source.ending := by
  unfold read at h
  split at h
  · have := serve_rest h
    exact ⟨this.1, Nat.le_of_eq (congrArg List.length this.2.1), this.2.2⟩
  · cases h
  · next hs =>
    have := serve_rest h
    exact ⟨this.1, by rw [this.2.1, hs]; simp, this.2.2⟩

theorem read_interrupted {source later : Source} {room : Nat}
    (h : source.read room = (.interrupted, later)) :
    later.rest = source.rest ∧ later.schedule.length < source.schedule.length ∧
      later.ending = source.ending := by
  unfold read at h
  split at h
  · exact absurd (congrArg Prod.fst h) serve_ne_interrupted
  · next hs => cases h; exact ⟨rfl, by rw [hs]; simp, rfl⟩
  · exact absurd (congrArg Prod.fst h) serve_ne_interrupted

/-! ### Filling -/

/-- What came, why it stopped, and the source behind it. -/
structure Filled where
  bytes : Bytes
  stop : Stop
  source : Source
  deriving DecidableEq, Repr

/-- Reads until the room is full, trying interrupted reads again. -/
def fill (source : Source) (room : Nat) : Filled :=
  if room = 0 then ⟨[], .full, source⟩
  else
    match h : source.read room with
    | (.interrupted, later) =>
      have := read_interrupted h
      later.fill room
    | (.failed fault, later) => ⟨[], .failed fault, later⟩
    | (.bytes [], later) => ⟨[], .ended, later⟩
    | (.bytes (b :: bs), later) =>
      have := read_rest h
      let more := later.fill (room - (bs.length + 1))
      { more with bytes := b :: bs ++ more.bytes }
termination_by source.schedule.length + source.rest.length
decreasing_by
  · simp_all
  · have length := congrArg List.length this.1
    simp only [List.length_append, List.length_cons] at length
    omega

/-- Takes exactly `n` bytes, or says what kept it from doing so. -/
def takeExactly (source : Source) (n : Nat) : Except IoFault Bytes × Source :=
  let filled := source.fill n
  match filled.stop with
  | .full => (.ok filled.bytes, filled.source)
  | .ended => (.error .shortRead, filled.source)
  | .failed fault => (.error fault, filled.source)

theorem serve_failed_rest {source later : Source} {n : Nat} {fault : IoFault}
    (h : source.serve n = (.failed fault, later)) : later.rest = source.rest := by
  unfold serve at h
  split at h
  · split at h
    · cases h
    · cases h; rfl
  · cases h

theorem read_failed_rest {source later : Source} {room : Nat} {fault : IoFault}
    (h : source.read room = (.failed fault, later)) : later.rest = source.rest := by
  unfold read at h
  split at h
  · exact serve_failed_rest h
  · cases h
  · have := serve_failed_rest h; simpa using this

theorem fill_rest (source : Source) (room : Nat) :
    source.rest = (source.fill room).bytes ++ (source.fill room).source.rest := by
  fun_induction fill source room with
  | case1 => rfl
  | case2 source room _ later h this ih => rw [← this.1, ih]
  | case3 source room _ fault later h => simp [read_failed_rest h]
  | case4 source room _ later h => simpa using (read_rest h).1
  | case5 source room _ b bs later h this more ih => rw [this.1, ih, List.append_assoc]

theorem length_le_of_serve {source later : Source} {n : Nat} {bs : Bytes}
    (h : source.serve n = (.bytes bs, later)) : bs.length ≤ n := by
  unfold serve at h
  split at h
  · split at h
    · cases h; exact Nat.zero_le _
    · cases h
  · cases h; exact List.length_take_le ..

theorem length_le_of_read {source later : Source} {room : Nat} {bs : Bytes}
    (h : source.read room = (.bytes bs, later)) : bs.length ≤ room := by
  unfold read at h
  split at h
  · exact length_le_of_serve h
  · cases h
  · exact Nat.le_trans (length_le_of_serve h) (Nat.min_le_left ..)

/-- Filling stops for lack of room exactly when as many bytes came as there was room for. -/
theorem length_fill_of_full {source : Source} {room : Nat} (h : (source.fill room).stop = .full) :
    (source.fill room).bytes.length = room := by
  fun_induction fill source room with
  | case1 => rfl
  | case2 source room _ later _ this ih => exact ih h
  | case3 => cases h
  | case4 => cases h
  | case5 source room _ b bs later read this more ih =>
    have filled : more.bytes.length = room - (bs.length + 1) := ih h
    have fits := length_le_of_read read
    simp only [List.length_cons, List.length_append] at fits ⊢
    omega

theorem length_source_fill_le (source : Source) (room : Nat) :
    (source.fill room).source.rest.length ≤ source.rest.length := by
  have := congrArg List.length (fill_rest source room)
  rw [List.length_append] at this
  omega

end Source

end DumpCatalog
