import DumpCatalog.Proofs.Block.Delivery
import DumpCatalog.Proofs.Block.Framing

/-! # Blocks: what a run of calls keeps to

A run is any number of calls in turn, going on behind faults. What a call finds of the stream is a
beginning of the bytes still to come, in any pieces and with any interruptions, behind which the
source is at its end or fails (`Feed`); the next call may find more. One call takes a piece off the
front of the stream (`Call.rest_eq`): a document that it gives is that piece (`Call.document`), and
a fault leaves what the reader has seen as it was (`Call.seen_of_error`). So the calls of a run give
the header, bodies behind it and terminators at last (`blocks_of_unseen`), and they take pieces that
stand one behind the other (`rest_of_append`). The main statement is `runs_keepOrder`. -/

namespace DumpCatalog.BlockReader

open Block

/-! ### Calls of a run -/

/-- Where a reader has come to: whether it has seen the header and the terminator, and the bytes
that are still to come. -/
structure Progress where
  headerSeen : Bool
  ended : Bool
  rest : Bytes

/-- The front of a stream. -/
def Progress.start (stream : Bytes) : Progress := ⟨false, false, stream⟩

/-- What one call finds: how many of the bytes still to come can be had, how reads bring them, and
how reads behave behind them. -/
structure Feed where
  available : Nat
  schedule : List Delivery
  ending : Ending

/-- The reader with what it is fed. -/
def Progress.fed (progress : Progress) (feed : Feed) : BlockReader :=
  ⟨⟨progress.rest.take feed.available, feed.schedule, feed.ending⟩, progress.headerSeen,
    progress.ended⟩

/-- One call of a run. -/
structure Call where
  before : Progress
  feed : Feed

namespace Call

/-- What the call gives, and the reader that it leaves. -/
def result (call : Call) : Logged Block × BlockReader := (call.before.fed call.feed).next

def outcome (call : Call) : Except Fault Block := call.result.1.outcome

/-- Where the reader has come to by the call. What could not be had is still to come. -/
def after (call : Call) : Progress :=
  ⟨call.result.2.headerSeen, call.result.2.ended,
    call.result.2.source.rest ++ call.before.rest.drop call.feed.available⟩

/-- The bytes that the call takes off the stream. -/
def taken (call : Call) : Bytes :=
  call.before.rest.take (call.before.rest.length - call.after.rest.length)

/-- The block that the call gives, if it does not fail. -/
def block? (call : Call) : Option Block := call.outcome.toOption

end Call

/-- The calls of a run in turn, by what each of them is fed. -/
def run (progress : Progress) : List Feed → List Call
  | [] => []
  | feed :: feeds => ⟨progress, feed⟩ :: run (Call.after ⟨progress, feed⟩) feeds

/-! ### One call -/

namespace Call

variable {call : Call}

theorem result_of_ended (h : call.before.ended = true) :
    call.result = (pure .terminator, call.before.fed call.feed) := by
  unfold result next
  exact if_pos h

theorem after_of_ended (h : call.before.ended = true) : call.after = call.before := by
  rw [after, result_of_ended h]
  simp only [Progress.fed, List.take_append_drop]

theorem step (h : call.before.ended = false) :
    Step call.before.headerSeen call.feed.ending (call.before.rest.take call.feed.available)
      call.outcome call.result.2.source.rest call.after.headerSeen call.after.ended :=
  (step_next (call.before.fed call.feed) h).1

theorem taken_eq {piece : Bytes} (h : call.before.rest = piece ++ call.after.rest) :
    call.taken = piece := by
  rw [taken, h, List.length_append, Nat.add_sub_cancel, List.take_left]

theorem rest_of_available {piece : Bytes}
    (h : call.before.rest.take call.feed.available = piece ++ call.result.2.source.rest) :
    call.before.rest = piece ++ call.after.rest := by
  rw [after, ← List.append_assoc, ← h, List.take_append_drop]

/-- **A call takes a piece off the front of the stream.** -/
theorem rest_eq (call : Call) : call.before.rest = call.taken ++ call.after.rest := by
  have front : ∃ piece, call.before.rest = piece ++ call.after.rest := by
    cases live : call.before.ended with
    | true => exact ⟨[], by rw [after_of_ended live]; rfl⟩
    | false =>
      obtain ⟨piece, front⟩ := (step live).suffix
      exact ⟨piece, rest_of_available front⟩
  obtain ⟨piece, front⟩ := front
  rw [taken_eq front]
  exact front

theorem document {doc : Bytes}
    (given : call.outcome = .ok (.header doc) ∨ call.outcome = .ok (.body doc)) :
    Framed doc ∧ call.taken = doc := by
  have live : call.before.ended = false := by
    by_contra ended
    rw [Bool.not_eq_false] at ended
    rw [outcome, result_of_ended ended] at given
    rcases given with given | given
    · cases given
    · cases given
  have front : Framed doc ∧
      call.before.rest.take call.feed.available = doc ++ call.result.2.source.rest := by
    have step := call.step live
    rcases given with given | given
    all_goals
      rw [given] at step
      rcases step.of_ok with ⟨doc', framed, front, block⟩ | ⟨-, -, block⟩
      · split at block
        all_goals cases block
        all_goals exact ⟨framed, front⟩
      · cases block
  exact ⟨front.1, taken_eq (rest_of_available front.2)⟩

theorem live_of_error {fault : Fault} (failed : call.outcome = .error fault) :
    call.before.ended = false := by
  by_contra ended
  rw [Bool.not_eq_false] at ended
  rw [outcome, result_of_ended ended] at failed
  cases failed

theorem seen_of_error {fault : Fault} (failed : call.outcome = .error fault) :
    call.after.headerSeen = call.before.headerSeen ∧ call.after.ended = call.before.ended := by
  have live := live_of_error failed
  rw [live]
  rcases (call.step live).seen_eq with ⟨⟨doc, given⟩, -⟩ | ⟨given, -⟩ | ⟨-, seen, ended⟩
  · cases failed.symm.trans given
  · cases failed.symm.trans given
  · exact ⟨seen, ended⟩

theorem ended_of_terminator (last : call.outcome = .ok .terminator) : call.after.ended = true := by
  cases live : call.before.ended with
  | true => rw [after_of_ended live, live]
  | false =>
    rcases (call.step live).seen_eq with ⟨⟨doc, given⟩, -⟩ | ⟨-, -, -, ended⟩ | ⟨⟨fault, given⟩, -⟩
    · rw [last] at given
      split at given
      all_goals cases given
    · exact ended
    · cases last.symm.trans given

end Call

/-! ### Runs -/

section Run
variable {progress : Progress} {feeds : List Feed}

/-- The blocks that the calls of a run give, in turn. -/
def blocks (calls : List Call) : List Block := calls.filterMap Call.block?

theorem exists_run_of_append {front back : List Call} {call : Call}
    (h : run progress feeds = front ++ call :: back) : ∃ later, back = run call.after later := by
  induction feeds generalizing progress front with
  | nil => simp [run] at h
  | cons feed feeds ih =>
    rw [run] at h
    cases front with
    | nil =>
      obtain ⟨rfl, rfl⟩ := List.cons_eq_cons.mp h
      exact ⟨feeds, rfl⟩
    | cons first front => exact ih (List.cons_eq_cons.mp h).2

theorem before_of_ended (h : progress.ended = true) :
    ∀ call ∈ run progress feeds, call.before = progress := by
  induction feeds with
  | nil => simp [run]
  | cons feed feeds ih =>
    have stays : Call.after ⟨progress, feed⟩ = progress := Call.after_of_ended h
    rw [run, stays]
    rintro call (_ | ⟨_, mem⟩)
    · rfl
    · exact ih call mem

theorem blocks_of_ok {call : Call} {calls : List Call} {block : Block}
    (given : call.outcome = .ok block) : blocks (call :: calls) = block :: blocks calls :=
  List.filterMap_cons_some (by rw [Call.block?, given]; rfl)

theorem blocks_of_error {call : Call} {calls : List Call} {fault : Fault}
    (failed : call.outcome = .error fault) : blocks (call :: calls) = blocks calls :=
  List.filterMap_cons_none (by rw [Call.block?, failed]; rfl)

theorem blocks_of_ended (h : progress.ended = true) :
    blocks (run progress feeds) = List.replicate feeds.length .terminator := by
  induction feeds with
  | nil => rfl
  | cons feed feeds ih =>
    have stays : Call.after ⟨progress, feed⟩ = progress := Call.after_of_ended h
    have again : Call.outcome ⟨progress, feed⟩ = .ok .terminator := by
      rw [Call.outcome, Call.result_of_ended h]
      rfl
    rw [run, stays, blocks_of_ok again, ih]
    rfl

/-- **Behind the header there are bodies and then terminators.** -/
theorem blocks_of_seen (seen : progress.headerSeen = true) (live : progress.ended = false) :
    ∃ (docs : List Bytes) (n : Nat), blocks (run progress feeds) =
      docs.map Block.body ++ List.replicate n .terminator := by
  induction feeds generalizing progress with
  | nil => exact ⟨[], 0, rfl⟩
  | cons feed feeds ih =>
    have step := @Call.step ⟨progress, feed⟩ live
    rw [run]
    rcases step.seen_eq with ⟨⟨doc, given⟩, known, goesOn⟩ | ⟨last, -, -, ended⟩ |
      ⟨⟨fault, failed⟩, known, goesOn⟩
    · obtain ⟨docs, n, rest⟩ := ih known goesOn
      rw [if_pos seen] at given
      exact ⟨doc :: docs, n, by rw [blocks_of_ok given, rest]; rfl⟩
    · exact ⟨[], feeds.length + 1, by rw [blocks_of_ok last, blocks_of_ended ended]; rfl⟩
    · obtain ⟨docs, n, rest⟩ := ih (known.trans seen) goesOn
      exact ⟨docs, n, by rw [blocks_of_error failed, rest]⟩

/-- **Before the header there is nothing but the header.** -/
theorem blocks_of_unseen (unseen : progress.headerSeen = false) (live : progress.ended = false) :
    blocks (run progress feeds) = [] ∨
      ∃ (header : Bytes) (docs : List Bytes) (n : Nat), blocks (run progress feeds) =
        .header header :: (docs.map Block.body ++ List.replicate n .terminator) := by
  induction feeds generalizing progress with
  | nil => exact .inl rfl
  | cons feed feeds ih =>
    have step := @Call.step ⟨progress, feed⟩ live
    rw [run]
    rcases step.seen_eq with ⟨⟨doc, given⟩, known, goesOn⟩ | ⟨-, known, -⟩ |
      ⟨⟨fault, failed⟩, known, goesOn⟩
    · obtain ⟨docs, n, rest⟩ := @blocks_of_seen _ feeds known goesOn
      rw [if_neg (by rw [unseen]; simp)] at given
      exact .inr ⟨doc, docs, n, by rw [blocks_of_ok given, rest]⟩
    · cases unseen.symm.trans known
    · rw [blocks_of_error failed]
      exact ih (known.trans unseen) goesOn

/-- Up to each call and with it a run has taken the front of the stream. -/
theorem rest_of_append {front back : List Call} {call : Call}
    (h : run progress feeds = front ++ call :: back) :
    progress.rest = front.flatMap Call.taken ++ (call.taken ++ call.after.rest) := by
  induction feeds generalizing progress front with
  | nil => simp [run] at h
  | cons feed feeds ih =>
    rw [run] at h
    cases front with
    | nil =>
      obtain ⟨rfl, -⟩ := List.cons_eq_cons.mp h
      exact Call.rest_eq ⟨progress, feed⟩
    | cons first front =>
      obtain ⟨rfl, tail⟩ := List.cons_eq_cons.mp h
      rw [List.flatMap_cons, List.append_assoc, ← ih tail]
      exact Call.rest_eq ⟨progress, feed⟩

end Run

/-! ### Any run -/

/-- **What the calls of a run keep to.** -/
structure KeepsOrder (stream : Bytes) (calls : List Call) : Prop where
  /-- The header is given at most once, bodies only behind it, and terminators behind them. -/
  blocks : blocks calls = [] ∨
    ∃ (header : Bytes) (docs : List Bytes) (n : Nat), blocks calls =
      .header header :: (docs.map Block.body ++ List.replicate n .terminator)
  /-- Behind a terminator every call gives the terminator and leaves the reader, and what it is fed,
  untouched. -/
  ends : ∀ front call back, calls = front ++ call :: back → call.outcome = .ok .terminator →
    ∀ later ∈ back, later.result = (pure .terminator, later.before.fed later.feed) ∧
      later.taken = []
  /-- A document is as long as its first four bytes say, within the limits, and it is the piece of
  the stream that its call takes. -/
  documents : ∀ call ∈ calls, ∀ doc,
    call.outcome = .ok (.header doc) ∨ call.outcome = .ok (.body doc) →
      Framed doc ∧ call.taken = doc
  /-- Each call takes the piece of the stream behind the pieces of the calls before it. -/
  pieces : ∀ front call back, calls = front ++ call :: back →
    stream = front.flatMap Call.taken ++ (call.taken ++ call.after.rest)
  /-- A call that fails leaves what the reader has seen as it was. -/
  faults : ∀ call ∈ calls, ∀ fault, call.outcome = .error fault →
    call.after.headerSeen = call.before.headerSeen ∧ call.after.ended = call.before.ended

theorem Call.taken_of_ended {call : Call} (h : call.before.ended = true) : call.taken = [] :=
  taken_eq (by rw [after_of_ended h]; rfl)

theorem keepsOrder_run (stream : Bytes) (feeds : List Feed) :
    KeepsOrder stream (run (.start stream) feeds) where
  blocks := blocks_of_unseen rfl rfl
  ends := by
    intro front call back split last later mem
    obtain ⟨feeds, rfl⟩ := exists_run_of_append split
    have ended := Call.ended_of_terminator last
    rw [← before_of_ended ended later mem] at ended
    exact ⟨Call.result_of_ended ended, Call.taken_of_ended ended⟩
  documents := fun _ _ _ given => Call.document given
  pieces := fun _ _ _ split => rest_of_append split
  faults := fun _ _ _ failed => Call.seen_of_error failed

/-- Where a reader of a source has come to. -/
def progress (reader : BlockReader) : Progress :=
  ⟨reader.headerSeen, reader.ended, reader.source.rest⟩

/-- A source whose bytes can all be had, as what one call finds. -/
def whole (source : Source) : Feed := ⟨source.rest.length, source.schedule, source.ending⟩

theorem result_whole (reader : BlockReader) :
    Call.result ⟨reader.progress, whole reader.source⟩ = reader.next := by
  simp only [Call.result, Progress.fed, progress, whole, List.take_length]

theorem after_whole (reader : BlockReader) :
    Call.after ⟨reader.progress, whole reader.source⟩ = reader.next.2.progress := by
  rw [Call.after, result_whole]
  simp only [progress, whole, List.drop_length, List.append_nil]

theorem exists_run_eq_calls (reader : BlockReader) (n : Nat) :
    ∃ feeds, feeds.length = n ∧ (run reader.progress feeds).map Call.result = reader.calls n := by
  induction n generalizing reader with
  | zero => exact ⟨[], rfl, rfl⟩
  | succ n ih =>
    obtain ⟨feeds, length, rest⟩ := ih reader.next.2
    refine ⟨whole reader.source :: feeds, by rw [List.length_cons, length], ?_⟩
    rw [run, List.map_cons, result_whole, after_whole, rest]
    rfl

/-- **Every run of calls keeps to the order of the stream**, whatever each call finds of it, and the
calls on one source are such a run. -/
theorem runs_keepOrder :
    (∀ (stream : Bytes) (feeds : List Feed), KeepsOrder stream (run (.start stream) feeds)) ∧
      ∀ (source : Source) (n : Nat), ∃ feeds, feeds.length = n ∧
        (run (.start source.rest) feeds).map Call.result = (new source).calls n :=
  ⟨keepsOrder_run, fun source n => exists_run_eq_calls (new source) n⟩

end DumpCatalog.BlockReader
