import DumpCatalog.Sink

/-! # Output files

Bytes for an output file are gathered, and go on to the file when there would be too many of them,
when they are asked to, and when the file is closed. So it may be long after a write that a file
turns out to be full. How bytes are gathered does not show in the file that is left, nor in whether
some were refused in the end (`OutputFile.writeAll_eq`). -/

namespace DumpCatalog

/-- A file, with the bytes that were accepted for it and have not gone on to it. -/
structure OutputFile where
  file : Sink
  gathered : Bytes
  deriving DecidableEq, Repr

namespace OutputFile

/-- How many bytes are gathered at most. -/
def capacity : Nat := 8192

/-- A file that holds nothing yet. -/
def empty (limit : Option Nat) : OutputFile := ⟨.empty limit, []⟩

/-- Lets bytes go to the file itself. One that is full has no space left, as the system says. -/
def pass (file : Sink) (bs : Bytes) : Except IoFault Unit × Sink :=
  let (sent, later) := file.write bs
  (sent.mapError fun _ => .system .noSpace, later)

/-- Lets the gathered bytes go on to the file. Those that it does not take stay. -/
def flush (output : OutputFile) : Except IoFault Unit × OutputFile :=
  let (sent, file) := pass output.file output.gathered
  (sent, ⟨file, output.gathered.drop (output.file.room output.gathered.length)⟩)

/-- Accepts bytes. They are gathered behind the others if there is room for them; else the others go
on to the file, and so do they if they are too many to be gathered by themselves. -/
def write (output : OutputFile) (bs : Bytes) : Except IoFault Unit × OutputFile :=
  if bs.length < capacity ∧ output.gathered.length + bs.length ≤ capacity then
    (.ok (), { output with gathered := output.gathered ++ bs })
  else
    match output.flush with
    | (.error fault, later) => (.error fault, later)
    | (.ok (), later) =>
      if bs.length < capacity then (.ok (), { later with gathered := bs })
      else
        let (sent, file) := pass later.file bs
        (sent, { later with file := file })

/-- Accepts the pieces in turn, up to the first that is refused. -/
def writeAll (output : OutputFile) : List Bytes → Except IoFault Unit × OutputFile
  | [] => (.ok (), output)
  | piece :: pieces =>
    match output.write piece with
    | (.error fault, later) => (.error fault, later)
    | (.ok (), later) => later.writeAll pieces

/-- The file when it is closed. What is still gathered is tried once more, whatever comes of it. -/
def closed (output : OutputFile) : Sink := output.flush.2.file

/-! ### What comes to the file -/

/-- What comes of the file if more bytes are accepted and all of them go on to it. -/
def whole (output : OutputFile) (more : Bytes) : Except IoFault Unit × Sink :=
  pass output.file (output.gathered ++ more)

/-- **Bytes come to a file** as they do when they are written at once: if they are accepted, they
still go before whatever is written next; and if some are refused, so they would have been, and what
the file holds when it is closed is what it would have held. -/
inductive Comes (output : OutputFile) (bs : Bytes) : Except IoFault Unit × OutputFile → Prop
  | accepted {later : OutputFile} (next : ∀ more, later.whole more = output.whole (bs ++ more)) :
      Comes output bs (.ok (), later)
  | refused {fault : IoFault} {later : OutputFile}
      (ended : ∀ more, output.whole (bs ++ more) = (.error fault, later.closed)) :
      Comes output bs (.error fault, later)

variable {output : OutputFile}

theorem pass_of_room {file : Sink} {bs : Bytes} (fits : file.room bs.length = bs.length) :
    pass file bs = (.ok (), { file with held := file.held ++ bs }) := by
  rw [pass, Sink.write_of_room fits]
  rfl

theorem pass_of_ne {file : Sink} {bs : Bytes} (tooLong : file.room bs.length ≠ bs.length) :
    pass file bs = (.error (.system .noSpace), (file.write bs).2) := by
  rw [pass, Sink.write, if_neg tooLong]
  rfl

theorem pass_append {file : Sink} {front : Bytes} (fits : file.room front.length = front.length)
    (back : Bytes) :
    pass file (front ++ back) = pass { file with held := file.held ++ front } back := by
  rw [pass, Sink.write_append fits]
  rfl

theorem pass_append_of_ne {file : Sink} {front : Bytes}
    (tooLong : file.room front.length ≠ front.length) (back : Bytes) :
    pass file (front ++ back) = pass file front := by
  rw [pass, Sink.write_append_of_ne tooLong]
  rfl

theorem flush_of_room (fits : output.file.room output.gathered.length = output.gathered.length) :
    output.flush =
      (.ok (), ⟨{ output.file with held := output.file.held ++ output.gathered }, []⟩) := by
  rw [flush, pass_of_room fits, fits, List.drop_length]

theorem comes_flush (output : OutputFile) : Comes output [] output.flush := by
  by_cases fits : output.file.room output.gathered.length = output.gathered.length
  · rw [flush_of_room fits]
    refine .accepted fun more => ?_
    exact (pass_append fits more).symm
  · rw [flush, pass_of_ne fits]
    refine .refused fun more => ?_
    rw [whole, pass_append_of_ne fits, pass_of_ne fits, closed, flush, pass]
    dsimp only
    rw [Sink.write_write_of_ne fits]

theorem gathered_of_flush {later : OutputFile} (h : output.flush = (.ok (), later)) :
    later.gathered = [] := by
  by_cases fits : output.file.room output.gathered.length = output.gathered.length
  · rw [flush_of_room fits] at h
    cases h
    rfl
  · rw [flush, pass_of_ne fits] at h
    cases h

theorem comes_write (output : OutputFile) (bs : Bytes) : Comes output bs (output.write bs) := by
  rw [write]
  split
  · refine .accepted fun more => ?_
    rw [whole, whole, List.append_assoc]
  · have flushed := comes_flush output
    cases gone : output.flush with
    | mk sent later =>
    rw [gone] at flushed
    cases flushed with
    | refused ended => exact .refused fun more => ended (bs ++ more)
    | accepted next =>
      have empty := gathered_of_flush gone
      have direct (more : Bytes) : output.whole (bs ++ more) = pass later.file (bs ++ more) := by
        have same := next (bs ++ more)
        rw [whole, empty] at same
        exact same.symm
      dsimp only
      split
      · exact .accepted fun more => (direct more).symm
      · by_cases fits : later.file.room bs.length = bs.length
        · rw [pass_of_room fits]
          refine .accepted fun more => ?_
          rw [direct, pass_append fits, whole, empty, List.nil_append]
        · rw [pass_of_ne fits]
          refine .refused fun more => ?_
          rw [direct, pass_append_of_ne fits, pass_of_ne fits, closed, flush, pass, empty]
          dsimp only
          rw [Sink.write_write_of_ne fits]

theorem comes_writeAll (output : OutputFile) (pieces : List Bytes) :
    Comes output pieces.flatten (output.writeAll pieces) := by
  induction pieces generalizing output with
  | nil => exact .accepted fun more => rfl
  | cons piece pieces ih =>
    have first := comes_write output piece
    rw [writeAll, List.flatten_cons]
    cases written : output.write piece with
    | mk sent later =>
    rw [written] at first
    cases first with
    | refused ended =>
      refine .refused fun more => ?_
      rw [List.append_assoc]
      exact ended _
    | accepted next =>
      have rest := ih later
      dsimp only
      generalize later.writeAll pieces = done at rest
      cases rest with
      | refused ended =>
        refine .refused fun more => ?_
        rw [List.append_assoc, ← next]
        exact ended more
      | accepted other =>
        refine .accepted fun more => ?_
        rw [List.append_assoc, ← next]
        exact other more

/-- **How bytes are gathered does not show.** When all pieces are written and the file is closed, it
holds what writing all bytes at once would have put there; and some bytes were refused, when they
were written or when the file was flushed, exactly when they would have been then. -/
theorem writeAll_eq (output : OutputFile) (pieces : List Bytes) :
    ((output.writeAll pieces).1 >>= fun _ => (output.writeAll pieces).2.flush.1,
      (output.writeAll pieces).2.closed) = output.whole pieces.flatten := by
  have done := comes_writeAll output pieces
  generalize output.writeAll pieces = result at done
  cases done with
  | accepted next =>
    have last := next []
    rw [List.append_nil] at last
    rw [← last, whole, List.append_nil]
    rfl
  | refused ended =>
    have last := ended []
    rw [List.append_nil] at last
    rw [last]
    rfl

/-- A file that holds nothing yet ends up with all bytes, or with as many as it takes. -/
theorem writeAll_empty (room : Option Nat) (pieces : List Bytes) :
    let written := (empty room).writeAll pieces
    let sent := written.1 >>= fun _ => written.2.flush.1
    ((∀ limit, room = some limit → pieces.flatten.length ≤ limit) ∧
        sent = .ok () ∧ written.2.closed.held = pieces.flatten) ∨
      ∃ limit, room = some limit ∧ limit < pieces.flatten.length ∧
        sent = .error (.system .noSpace) ∧ written.2.closed.held = pieces.flatten.take limit := by
  obtain ⟨sent, closed⟩ := Prod.ext_iff.mp (writeAll_eq (empty room) pieces)
  dsimp only at sent closed ⊢
  rw [sent, closed, whole, empty, List.nil_append]
  cases room with
  | none =>
    rw [pass_of_room rfl]
    exact .inl ⟨by simp, rfl, List.nil_append _⟩
  | some limit =>
    by_cases fits : pieces.flatten.length ≤ limit
    · rw [pass, Sink.write_of_le rfl (by simpa [Sink.empty] using fits)]
      exact .inl ⟨fun _ same => Option.some.inj same ▸ fits, rfl, List.nil_append _⟩
    · rw [pass, Sink.write_of_lt rfl (Nat.zero_le limit) (by simpa [Sink.empty] using fits)]
      exact .inr ⟨limit, rfl, Nat.lt_of_not_le fits, rfl, rfl⟩

end OutputFile

end DumpCatalog
