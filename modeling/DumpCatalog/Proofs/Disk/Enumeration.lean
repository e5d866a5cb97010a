import DumpCatalog.Packing
import DumpCatalog.Proofs.Disk.Files

/-! # Disks: the order of enumeration does not show

A system enumerates the entries of a directory in some order, which may be another one at another
time. Two disks that differ in nothing else are `Disk.Reordered`. Every path leads to the same on
both of them (`Disk.Reordered.lookup`), and names are sorted before they are used
(`sortedNames_eq`), so the trees below a directory are equal (`DumpDirectory.tree_eq`), and so is
all that is made of them (`DumpDirectory.enumeration_unobservable`). -/

namespace DumpCatalog

/-! ### Results -/

/-- Two results that fail alike or have related values. -/
inductive Related {ε α β : Type} (R : α → β → Prop) : Except ε α → Except ε β → Prop
  | error (fault : ε) : Related R (.error fault) (.error fault)
  | ok {a : α} {b : β} (values : R a b) : Related R (.ok a) (.ok b)

theorem Related.bind {ε α β γ δ : Type} {R : α → β → Prop} {S : γ → δ → Prop} {x : Except ε α}
    {y : Except ε β} {f : α → Except ε γ} {g : β → Except ε δ} (h : Related R x y)
    (next : ∀ a b, R a b → Related S (f a) (g b)) : Related S (x >>= f) (y >>= g) := by
  cases h with
  | error fault => exact .error fault
  | ok values => exact next _ _ values

theorem Related.eq {ε α : Type} {x y : Except ε α} (h : Related Eq x y) : x = y := by
  cases h with
  | error fault => rfl
  | ok same => rw [same]

/-! ### Entries in another order -/

namespace Entry

/-- **The same files and directories, in any order**: in directories the same names are enumerated,
and what has the same name is the same, up to the order in it (see `reordered_of_perm`). -/
inductive Reordered : Entry → Entry → Prop
  | file (content : Bytes) : Reordered (file content) (file content)
  | directory {entries others : Entries}
      (names : (entries.map Prod.fst).Perm (others.map Prod.fst))
      (inside : ∀ name entry other, (name, entry) ∈ entries → (name, other) ∈ others →
        Reordered entry other) :
      Reordered (directory entries) (directory others)

/-- Entries that are enumerated once each, and then in another order, with other orders inside. -/
theorem reordered_of_perm {entries middle others : Entries}
    (once : (entries.map Prod.fst).Nodup) (order : entries.Perm middle)
    (inside : List.Forall₂ (fun a b => a.1 = b.1 ∧ Reordered a.2 b.2) middle others) :
    Reordered (directory entries) (directory others) := by
  have same : middle.map Prod.fst = others.map Prod.fst := by
    clear order
    induction inside with
    | nil => rfl
    | cons head _ ih => rw [List.map_cons, List.map_cons, head.1, ih]
  have names : (entries.map Prod.fst).Perm (others.map Prod.fst) := same ▸ order.map Prod.fst
  have once' : (others.map Prod.fst).Nodup := names.nodup_iff.mp once
  refine .directory names fun name entry other member member' => ?_
  obtain ⟨pair, listed, named, related⟩ :=
    exists_of_mem_forall₂ inside (order.mem_iff.mp member)
  have only : pair = (name, other) := List.inj_on_of_nodup_map once' listed member' named.symm
  rw [only] at related
  exact related

variable {entry other : Entry} {entries others : Entries}

theorem Reordered.symm (h : Reordered entry other) : Reordered other entry := by
  induction h with
  | file content => exact .file content
  | directory names _ ih =>
    exact .directory names.symm fun name entry other known known' => ih name other entry known' known

theorem get?_related (names : (entries.map Prod.fst).Perm (others.map Prod.fst))
    (inside : ∀ name entry other, (name, entry) ∈ entries → (name, other) ∈ others →
      Reordered entry other) (text : String) :
    Option.Rel (fun a b => a.1 = b.1 ∧ Reordered a.2 b.2) (Entries.get? entries text)
      (Entries.get? others text) := by
  have both : (Entries.get? entries text).isSome = true ↔
      (Entries.get? others text).isSome = true := by
    simp only [Entries.isSome_get?_iff, names.mem_iff]
  cases found : Entries.get? entries text with
  | none =>
    cases found' : Entries.get? others text with
    | none => exact .none
    | some pair => simp [found, found'] at both
  | some pair =>
    cases found' : Entries.get? others text with
    | none => simp [found, found'] at both
    | some pair' =>
      obtain ⟨name, entry⟩ := pair
      obtain ⟨name', other⟩ := pair'
      have here : name.text = text := Entries.text_of_get? found
      have here' : name'.text = text := Entries.text_of_get? found'
      obtain rfl : name = name' := FileName.ext (here.trans here'.symm)
      exact .some ⟨rfl, inside name entry other (List.mem_of_find?_eq_some found)
        (List.mem_of_find?_eq_some found')⟩

theorem Reordered.descend (h : Reordered entry other) (names : List String) :
    Related Reordered (entry.descend names) (other.descend names) := by
  induction names generalizing entry other with
  | nil =>
    cases h with
    | file content => exact .ok (.file content)
    | directory names inside => exact .ok (.directory names inside)
  | cons name later ih =>
    cases h with
    | file content => exact .error _
    | @directory entries others names inside =>
      have found := get?_related names inside name
      rw [Entry.descend, Entry.descend]
      generalize Entries.get? entries name = one at found
      generalize Entries.get? others name = two at found
      cases found with
      | none => exact .error _
      | some same => exact ih same.2

theorem heightBelow_le_iff {bound : Nat} :
    heightBelow entries ≤ bound ↔ ∀ pair ∈ entries, pair.2.height ≤ bound := by
  induction entries with
  | nil => simp [heightBelow]
  | cons first later ih =>
    obtain ⟨name, entry⟩ := first
    rw [heightBelow, List.forall_mem_cons, ← ih]
    exact Nat.max_le

theorem Reordered.height_le (h : Reordered entry other) : entry.height ≤ other.height := by
  induction h with
  | file content => exact Nat.le_refl _
  | @directory entries others names _ ih =>
    have below : heightBelow entries ≤ heightBelow others := by
      refine heightBelow_le_iff.mpr fun ⟨name, entry⟩ member => ?_
      have listed := names.mem_iff.mp (List.mem_map_of_mem (f := Prod.fst) member)
      obtain ⟨⟨name', other⟩, member', same⟩ := List.mem_map.mp listed
      obtain rfl : name' = name := same
      exact Nat.le_trans (ih name' entry other member member') (height_le_of_mem member')
    rw [height, height]
    omega

theorem Reordered.height_eq (h : Reordered entry other) : entry.height = other.height :=
  Nat.le_antisymm h.height_le h.symm.height_le

end Entry

/-! ### Paths -/

namespace Disk

/-- Two disks with the same files and directories, enumerated in any order. -/
structure Reordered (disk other : Disk) : Prop where
  working : disk.working = other.working
  top : Entry.Reordered disk.top other.top

variable {disk other : Disk}

theorem Reordered.entryAt (h : disk.Reordered other) (names : List FileName) :
    Related Entry.Reordered (disk.entryAt names) (other.entryAt names) :=
  h.top.descend _

theorem Reordered.step_eq (h : disk.Reordered other) : disk.step = other.step := by
  funext names component
  refine Related.eq ((h.entryAt names).bind fun entry other same => ?_)
  cases same with
  | file content => exact .error _
  | @directory entries others names' inside =>
    have found := Entry.get?_related names' inside component
    dsimp only
    split
    · exact .ok rfl
    · split
      · exact .ok rfl
      · generalize Entries.get? entries component = one at found
        generalize Entries.get? others component = two at found
        cases found with
        | none => exact .error _
        | some same => exact .ok (by rw [same.1])

theorem Reordered.locate_eq (h : disk.Reordered other) (path : String) :
    disk.locate path = other.locate path := by
  rw [locate, locate, h.step_eq, start, start, h.working]

/-- **Paths lead to the same files and directories.** -/
theorem Reordered.lookup (h : disk.Reordered other) (path : String) :
    Related Entry.Reordered (disk.lookup path) (other.lookup path) := by
  rw [Disk.lookup, Disk.lookup, h.locate_eq]
  cases other.locate path with
  | error fault => exact .error fault
  | ok names => exact h.entryAt names

end Disk

/-! ### Dump directories -/

namespace DumpDirectory

variable {disk other : Disk}

/-- **Sorted names do not depend on the order of enumeration.** -/
theorem sortedNames_eq {entries others : Entries}
    (names : (entries.map Prod.fst).Perm (others.map Prod.fst)) :
    sortedNames entries = sortedNames others := by
  have order : (sortedNames entries).Perm (sortedNames others) := by
    rw [List.perm_ext_iff_of_nodup (nodup_sortedNames entries) (nodup_sortedNames others)]
    intro name
    simp only [sortedNames, List.mem_mergeSort, List.mem_eraseDups]
    exact names.mem_iff
  exact order.eq_of_pairwise (fun a b _ _ less greater => absurd greater (List.lt_asymm less))
    (pairwise_sortedNames entries) (pairwise_sortedNames others)

theorem entry_related (h : disk.Reordered other) (path : String) (node : DiskNode) :
    Related Entry.Reordered ((mk disk path).entry node) ((mk other path).entry node) :=
  (h.lookup _).bind fun _ _ same => same.descend _

/-- All questions about a node have the same answers in two directories. -/
@[mk_iff] structure SameNode (one two : DumpDirectory) (node : DiskNode) : Prop where
  isDirectory : one.isDirectory node = two.isDirectory node
  size : one.fileSize node = two.fileSize node
  stat : one.stat node = two.stat node
  children : one.children node = two.children node
  height : one.height node = two.height node

theorem sameNode (h : disk.Reordered other) (path : String) (node : DiskNode) :
    SameNode ⟨disk, path⟩ ⟨other, path⟩ node := by
  rw [sameNode_iff]
  unfold isDirectory fileSize stat children height
  have related := entry_related h path node
  generalize (mk disk path).entry node = one at related ⊢
  generalize (mk other path).entry node = two at related ⊢
  cases related with
  | error fault => exact ⟨rfl, rfl, rfl, rfl, rfl⟩
  | ok same =>
    have height := same.height_eq
    cases same with
    | file content => exact ⟨rfl, rfl, rfl, rfl, rfl⟩
    | directory names inside =>
      dsimp only
      rw [sortedNames_eq names]
      exact ⟨rfl, rfl, rfl, rfl, height⟩

/-- **The trees are equal.** -/
theorem tree_eq (h : disk.Reordered other) (path : String) :
    (mk disk path).tree = (mk other path).tree := by
  have same := sameNode h path
  rw [tree, tree, DumpTree.mk.injEq]
  exact ⟨rfl, rfl, rfl, funext fun node => (same node).size,
    funext fun node => (same node).isDirectory, funext fun node => (same node).stat,
    funext fun node => (same node).children, rfl, funext fun node => (same node).height⟩

theorem content_eq (h : disk.Reordered other) (path relative : String) :
    (mk disk path).content relative = (mk other path).content relative := by
  refine Related.eq ((h.lookup _).bind fun entry other same => ?_)
  refine (same.descend _).bind fun entry other same => ?_
  cases same with
  | file content => exact .ok rfl
  | directory names inside => exact .error _

theorem hold_eq (h : disk.Reordered other) (path : String) :
    (mk disk path).hold = (mk other path).hold := by
  funext intent
  simp only [hold, text, content_eq h path]

theorem pack_eq (h : disk.Reordered other) (path : String) (n : Int32) (sink : Sink) :
    (mk disk path).pack n sink = (mk other path).pack n sink := by
  have catalog : (mk disk path).catalog n = (mk other path).catalog n := by
    rw [DumpDirectory.catalog, DumpDirectory.catalog, heldPlan, heldPlan, tree_eq h, hold_eq h]
  rw [pack, pack, packBy, packBy, catalog]

/-- **The order of enumeration does not show.** On two disks with the same files and directories,
enumerated in any order, a directory has the same nodes, listings and plans at every node below it,
with the same faults and events, and packing it leaves the same result, events and bytes. -/
theorem enumeration_unobservable (h : disk.Reordered other) (path : String) :
    (∀ node, (mk disk path).tree.children node = (mk other path).tree.children node) ∧
    (∀ node, (mk disk path).tree.walk node = (mk other path).tree.walk node) ∧
    (∀ node, (mk disk path).tree.planFrom node = (mk other path).tree.planFrom node) ∧
    ∀ n sink, (mk disk path).pack n sink = (mk other path).pack n sink := by
  rw [tree_eq h path]
  exact ⟨fun _ => rfl, fun _ => rfl, fun _ => rfl, pack_eq h path⟩

/-- A dump with a database of two files and a file of the top level, its directories enumerated in
an order. -/
def smallDump (order : Entries → Entries) : Disk :=
  ⟨[(⟨"weekly", by decide⟩, .directory (order
    [(⟨"library", by decide⟩, .directory (order
      [(⟨"books.bson", by decide⟩, .file [0, 0, 0]),
        (⟨"books.metadata.json", by decide⟩, .file (Text.toBytes "\x7b\x7d"))])),
      (⟨"oplog.bson", by decide⟩, .file [0])]))], []⟩

theorem reordered_smallDump : (smallDump id).Reordered (smallDump List.reverse) := by
  refine ⟨rfl, Entry.reordered_of_perm (by decide) (.refl _) (.cons ⟨rfl, ?_⟩ .nil)⟩
  refine Entry.reordered_of_perm (by decide) (List.reverse_perm _).symm
    (.cons ⟨rfl, .file _⟩ (.cons ⟨rfl, ?_⟩ .nil))
  exact Entry.reordered_of_perm (by decide) (List.reverse_perm _).symm
    (.cons ⟨rfl, .file _⟩ (.cons ⟨rfl, .file _⟩ .nil))

/-- Both orders of the small dump lead to the same archive. -/
theorem enumeration_unobservable_smallDump :
    (smallDump id).Reordered (smallDump List.reverse) ∧ ∀ n sink,
      (mk (smallDump id) "weekly").pack n sink =
        (mk (smallDump List.reverse) "weekly").pack n sink :=
  ⟨reordered_smallDump, (enumeration_unobservable reordered_smallDump "weekly").2.2.2⟩

end DumpDirectory

end DumpCatalog
