import DumpCatalog.Command.Run
import DumpCatalog.Proofs.Disk.Changes
import DumpCatalog.Proofs.Packing.Limits

/-! # Commands: the output of a pack that fails

Packing to a file makes the file, or empties it, before the dump directory is looked at. So when the
command fails, either the output could not be opened and the disk is as it was, or a front of the
archive is left at the output and nothing else has changed (`pack_leaves`): nothing of it if there
was no archive to write, and as much as the output took if that was too little. An archive that
stood there is lost. -/

namespace DumpCatalog.Command

/-! ### What a pack to a file leaves -/

/-- **What a pack that fails leaves in an output that it has opened**: nothing if the directory
cannot be packed, and a front of its archive if the output takes no more. -/
inductive LeftIn (directory : DumpDirectory) (n : Int32) (room : Option Nat) : Bytes → Prop
  | nothing (unreadable : ¬ directory.Readable) : LeftIn directory n room []
  | front {catalog : Catalog} {limit : Nat} (made : (directory.catalog n).outcome = .ok catalog)
      (bounded : room = some limit) (tooLong : limit < catalog.toBytes.length) :
      LeftIn directory n room (catalog.toBytes.take limit)

theorem LeftIn.unique {directory : DumpDirectory} {n : Int32} {room : Option Nat}
    {content other : Bytes} (h : LeftIn directory n room content)
    (h' : LeftIn directory n room other) : content = other := by
  cases h with
  | nothing unreadable =>
    cases h' with
    | nothing => rfl
    | front made => exact absurd ((DumpDirectory.readable_iff n).mpr ⟨_, made⟩) unreadable
  | front made bounded =>
    cases h' with
    | nothing unreadable => exact absurd ((DumpDirectory.readable_iff n).mpr ⟨_, made⟩) unreadable
    | front made' bounded' =>
      rw [made] at made'
      rw [bounded] at bounded'
      cases made'
      cases bounded'
      rfl

variable {disk : Disk} {room : Option Nat} {directory output : String} {n : Int32}

theorem packToFile_of_error {fault : SystemFault} (h : disk.locateNew output = .error fault) :
    packToFile disk room directory output n = failed disk [] (IoFault.system fault).detail := by
  rw [packToFile, h]

theorem packToFile_of_unreadable {names : List FileName} {fault : Fault}
    (h : disk.locateNew output = .ok names)
    (made : (DumpDirectory.catalog ⟨disk.putFile names [], directory⟩ n).outcome = .error fault) :
    (packToFile disk room directory output n).code = 1 ∧
      (packToFile disk room directory output n).disk = disk.putFile names [] := by
  have nothing : (OutputFile.empty room).closed.held = [] :=
    (List.nil_append _).trans List.take_nil
  rw [packToFile, h]
  dsimp only
  rw [DumpDirectory.packBy_of_error made (OutputFile.empty room) OutputFile.writeAll]
  dsimp only
  rw [made, nothing]
  exact ⟨rfl, rfl⟩

/-- What a pack of a directory with a catalog leaves is what has come to the file when it is closed,
and the pack is done when all pieces were accepted and have gone on to the file. -/
theorem packToFile_of_catalog {names : List FileName} {catalog : Catalog}
    (h : disk.locateNew output = .ok names)
    (made : (DumpDirectory.catalog ⟨disk.putFile names [], directory⟩ n).outcome = .ok catalog)
    (room : Option Nat) :
    let written := (OutputFile.empty room).writeAll catalog.pieces
    (packToFile disk room directory output n).code =
        (match written.1 >>= fun _ => written.2.flush.1 with
        | .ok _ => 0
        | .error _ => 1) ∧
      (packToFile disk room directory output n).disk =
        disk.putFile names written.2.closed.held := by
  obtain ⟨outcome, later⟩ :=
    DumpDirectory.packBy_of_ok made (OutputFile.empty room) OutputFile.writeAll
  rw [packToFile, h]
  dsimp only
  rw [outcome, later, Catalog.writeBy]
  rcases (OutputFile.empty room).writeAll catalog.pieces with ⟨⟨fault⟩ | ⟨⟩, written⟩
  · exact ⟨rfl, rfl⟩
  · dsimp only [Logged.report, Except.map]
    -- the pieces were accepted, and some may still be refused when they go on to the file
    rcases flushed : written.flush.1 with fault | done
    · exact ⟨rfl, rfl⟩
    · exact ⟨rfl, rfl⟩

/-- A pack to a file that can be opened either fails and leaves a front of the archive there, or
leaves the archive. -/
theorem packToFile_of_ok {names : List FileName} (h : disk.locateNew output = .ok names)
    (room : Option Nat) (directory : String) (n : Int32) :
    (∃ content, LeftIn ⟨disk.putFile names [], directory⟩ n room content ∧
        (packToFile disk room directory output n).code = 1 ∧
        (packToFile disk room directory output n).disk = disk.putFile names content) ∨
      ∃ catalog, (DumpDirectory.catalog ⟨disk.putFile names [], directory⟩ n).outcome = .ok catalog ∧
        (∀ limit, room = some limit → catalog.toBytes.length ≤ limit) ∧
        (packToFile disk room directory output n).code = 0 ∧
        (packToFile disk room directory output n).disk = disk.putFile names catalog.toBytes := by
  cases made : (DumpDirectory.catalog ⟨disk.putFile names [], directory⟩ n).outcome with
  | error fault =>
    have unreadable : ¬ (DumpDirectory.mk (disk.putFile names []) directory).Readable := by
      rw [DumpDirectory.readable_iff n]
      rintro ⟨catalog, other⟩
      rw [made] at other
      cases other
    exact .inl ⟨[], .nothing unreadable, packToFile_of_unreadable h made⟩
  | ok catalog =>
    obtain ⟨code, left⟩ := packToFile_of_catalog h made room
    rcases OutputFile.writeAll_empty room catalog.pieces with
      ⟨fits, done, held⟩ | ⟨limit, bounded, tooLong, refused, held⟩
    · rw [done] at code
      rw [held] at left
      exact .inr ⟨catalog, rfl, fits, code, left⟩
    · rw [refused] at code
      rw [held] at left
      exact .inl ⟨_, .front made bounded tooLong, code, left⟩

/-- **What a pack that fails leaves on disk.** An output that cannot be opened for writing leaves
everything as it was. Any other one, whether it was missing or a file, is a file with what is left
in it then, and every other place shows what it did. -/
inductive Leaves (surroundings : Surroundings) (directory output : String) (n : Int32) :
    Disk → Prop
  | untouched (refused : ∃ fault, surroundings.disk.locateNew output = .error fault) :
      Leaves surroundings directory output n surroundings.disk
  | begun {after : Disk} {names : List FileName} {content : Bytes}
      (opened : surroundings.disk.locateNew output = .ok names)
      (left : LeftIn ⟨surroundings.disk.putFile names [], directory⟩ n surroundings.room content)
      (old : surroundings.disk.lookup output = .error .noSuchFile ∨
        ∃ before, surroundings.disk.lookup output = .ok (.file before))
      (new : after.lookup output = .ok (.file content))
      (here : after.seen names = some (.file content))
      (elsewhere : ∀ other, other ≠ names → after.seen other = surroundings.disk.seen other)
      (working : after.working = surroundings.disk.working) :
      Leaves surroundings directory output n after

variable {surroundings : Surroundings}

theorem leaves_of_code
    (failed : (packToFile surroundings.disk surroundings.room directory output n).code ≠ 0) :
    Leaves surroundings directory output n
      (packToFile surroundings.disk surroundings.room directory output n).disk := by
  cases opened : surroundings.disk.locateNew output with
  | error fault =>
    rw [packToFile_of_error opened]
    exact .untouched ⟨fault, opened⟩
  | ok names =>
    rcases packToFile_of_ok opened surroundings.room directory n with
      ⟨content, left, -, disk⟩ | ⟨-, -, -, done, -⟩
    · rw [disk]
      obtain ⟨-, writable, -⟩ := Disk.exists_of_locateNew opened
      exact .begun opened left (Disk.lookup_of_locateNew opened)
        (Disk.lookup_putFile opened content) (Disk.seen_putFile writable content)
        (fun other => Disk.seen_putFile_of_ne writable content) rfl
    · exact absurd done failed

theorem Leaves.lookup_eq_iff {after : Disk} (h : Leaves surroundings directory output n after) :
    after.lookup output = surroundings.disk.lookup output ↔
      (∃ fault, surroundings.disk.locateNew output = .error fault) ∨
        ∃ names content, surroundings.disk.locateNew output = .ok names ∧
          LeftIn ⟨surroundings.disk.putFile names [], directory⟩ n surroundings.room content ∧
          surroundings.disk.lookup output = .ok (.file content) := by
  cases h with
  | untouched refused => simp [refused]
  | begun opened left old new here elsewhere working =>
    rw [new]
    constructor
    · exact fun same => .inr ⟨_, _, opened, left, same.symm⟩
    · rintro (⟨fault, refused⟩ | ⟨names, other, opened', left', same⟩)
      · rw [opened] at refused
        cases refused
      · rw [opened] at opened'
        cases opened'
        rw [same, left.unique left']

/-- **A pack to a file that fails** leaves the disk as it was, or with a front of the archive at the
output, which is empty if there was no archive to write; and the output is as before exactly when it
could not be opened, or held just that. -/
theorem pack_leaves (file : isDash output = false)
    (failed : (run surroundings (.pack directory output n)).code ≠ 0) :
    Leaves surroundings directory output n (run surroundings (.pack directory output n)).disk ∧
      ((run surroundings (.pack directory output n)).disk.lookup output =
          surroundings.disk.lookup output ↔
        (∃ fault, surroundings.disk.locateNew output = .error fault) ∨
          ∃ names content, surroundings.disk.locateNew output = .ok names ∧
            LeftIn ⟨surroundings.disk.putFile names [], directory⟩ n surroundings.room content ∧
            surroundings.disk.lookup output = .ok (.file content)) := by
  have same : run surroundings (.pack directory output n) =
      packToFile surroundings.disk surroundings.room directory output n := by
    rw [run, if_neg (by simp [file])]
  rw [same] at failed ⊢
  exact ⟨leaves_of_code failed, (leaves_of_code failed).lookup_eq_iff⟩

/-- A disk with an archive and an empty dump, which takes no more than some bytes. -/
def withArchive (room : Option Nat) : Surroundings :=
  ⟨⟨[(⟨"old.archive", by decide⟩, .file (Text.toBytes "old")),
    (⟨"empty", by decide⟩, .directory [])], []⟩, [], room⟩

/-- A pack that fails for want of a directory empties the archive, and one that fails for want of
space leaves the beginning of another. -/
theorem pack_leaves_withArchive :
    isDash "old.archive" = false ∧
      (run (withArchive none) (.pack "missing" "old.archive" 1)).code ≠ 0 ∧
      Leaves (withArchive none) "missing" "old.archive" 1
        (run (withArchive none) (.pack "missing" "old.archive" 1)).disk ∧
      (run (withArchive (some 3)) (.pack "empty" "old.archive" 1)).code ≠ 0 ∧
      Leaves (withArchive (some 3)) "empty" "old.archive" 1
        (run (withArchive (some 3)) (.pack "empty" "old.archive" 1)).disk := by
  have short : (run (withArchive (some 3)) (.pack "empty" "old.archive" 1)).code ≠ 0 := by
    intro done
    have opened : (withArchive (some 3)).disk.locateNew "old.archive" =
        .ok [⟨"old.archive", by decide⟩] := rfl
    rcases packToFile_of_ok opened (some 3) "empty" 1 with ⟨_, -, failed, -⟩ | ⟨catalog, -, fits, -⟩
    · have both : 1 = 0 := failed.symm.trans done
      cases both
    · have small := fits 3 rfl
      have magic : magicBytes.length = 4 := rfl
      rw [Catalog.toBytes, Catalog.pieces, List.cons_append, List.flatten_cons,
        List.length_append, magic] at small
      omega
  exact ⟨by decide, by decide, (pack_leaves (by decide) (by decide)).1, short,
    (pack_leaves (by decide) short).1⟩

/-- So a pack that fails need not leave its output as it was. -/
theorem not_pack_keeps_output :
    ¬ ∀ (surroundings : Surroundings) (directory output : String) (n : Int32),
      isDash output = false → (run surroundings (.pack directory output n)).code ≠ 0 →
        (run surroundings (.pack directory output n)).disk.lookup output =
          surroundings.disk.lookup output := by
  intro all
  have same := all (withArchive none) "missing" "old.archive" 1 (by decide) (by decide)
  have new : (run (withArchive none) (.pack "missing" "old.archive" 1)).disk.lookup "old.archive" =
      .ok (.file []) := rfl
  have old : (withArchive none).disk.lookup "old.archive" = .ok (.file (Text.toBytes "old")) := rfl
  rw [new, old] at same
  have bytes : [] = Text.toBytes "old" := Entry.file.inj (Except.ok.inj same)
  exact absurd bytes (by decide)

end DumpCatalog.Command
