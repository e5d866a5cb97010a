import DumpCatalog.Plan.Basic
import DumpCatalog.Proofs.Lists
import Mathlib.Data.List.Nodup

/-! # Plans: putting intents in turn is grouping them

Intents that are put into a plan one after another are grouped by their namespaces: groups stand in
the order of their first members, and the plan has the merge of each group
(`Plan.forall₂_ofIntents`). What merging a group comes to is read off its members: the names are
those of the first, each path and the file is the last one that is set, and the size goes with the
last data (`Intent.MergeOf.fields`). -/

namespace DumpCatalog

/-! ### Groups -/

section Groups
variable {α κ : Type} [DecidableEq κ]

/-- The members of a list with a key, in their order. -/
def groupOf (key : α → κ) (l : List α) (k : κ) : List α := l.filter fun a => key a = k

/-- The members of a list grouped by their keys, groups in the order of their first members. -/
def groups (key : α → κ) (l : List α) : List (List α) :=
  (l.map key).eraseDups.map (groupOf key l)

variable {key : α → κ}

theorem mem_groupOf {l : List α} {k : κ} {a : α} : a ∈ groupOf key l k ↔ a ∈ l ∧ key a = k := by
  simp [groupOf]

theorem groupOf_concat (l : List α) (a : α) (k : κ) :
    groupOf key (l ++ [a]) k = if key a = k then groupOf key l k ++ [a] else groupOf key l k := by
  by_cases same : key a = k
  · simp [groupOf, same]
  · simp [groupOf, same]

theorem groupOf_eq_nil {l : List α} {k : κ} (absent : k ∉ l.map key) : groupOf key l k = [] := by
  rw [List.eq_nil_iff_forall_not_mem]
  intro a member
  obtain ⟨known, rfl⟩ := mem_groupOf.mp member
  exact absent (List.mem_map_of_mem known)

theorem of_mem_groups {l group : List α} (h : group ∈ groups key l) :
    group ≠ [] ∧ ∀ a ∈ group, a ∈ l := by
  obtain ⟨k, known, rfl⟩ := List.mem_map.mp h
  obtain ⟨a, member, same⟩ := List.mem_map.mp (List.mem_eraseDups.mp known)
  refine ⟨?_, fun b inside => (mem_groupOf.mp inside).1⟩
  exact List.ne_nil_of_mem (mem_groupOf.mpr ⟨member, same⟩)

theorem perm_flatten_groups {l : List α} (unique : l.Nodup) : (groups key l).flatten.Perm l := by
  have apart : (groups key l).flatten.Nodup := by
    rw [groups, ← List.flatMap_def, List.nodup_flatMap]
    refine ⟨fun k _ => unique.filter _, (nodup_eraseDups _).imp fun differ a here there => differ ?_⟩
    rw [← (mem_groupOf.mp here).2, (mem_groupOf.mp there).2]
  rw [List.perm_ext_iff_of_nodup apart unique]
  intro a
  rw [List.mem_flatten]
  constructor
  · rintro ⟨group, grouped, member⟩
    exact (of_mem_groups grouped).2 a member
  · intro member
    have known : key a ∈ (l.map key).eraseDups :=
      List.mem_eraseDups.mpr (List.mem_map_of_mem member)
    exact ⟨_, List.mem_map_of_mem known, mem_groupOf.mpr ⟨member, rfl⟩⟩

theorem groups_map {β : Type} (key : β → κ) (f : α → β) (l : List α) :
    groups key (l.map f) = (groups (fun a => key (f a)) l).map (List.map f) := by
  simp only [groups, List.map_map]
  refine List.map_congr_left fun k _ => ?_
  simp only [Function.comp, groupOf, List.filter_map]
  rfl

theorem groups_of_nodup {l : List α} (unique : (l.map key).Nodup) :
    groups key l = l.map fun a => [a] := by
  induction l using List.reverseRecOn with
  | nil => rfl
  | append_singleton l a ih =>
    rw [List.map_append, List.map_singleton, List.nodup_append] at unique
    obtain ⟨unique, -, apart⟩ := unique
    have absent : key a ∉ l.map key := fun known =>
      apart _ known _ (List.mem_singleton_self _) rfl
    have last : groupOf key (l ++ [a]) (key a) = [a] := by
      rw [groupOf_concat, if_pos rfl, groupOf_eq_nil absent, List.nil_append]
    have others : (l.map key).eraseDups.map (groupOf key (l ++ [a])) = groups key l := by
      refine List.map_congr_left fun k member => ?_
      rw [groupOf_concat, if_neg]
      rintro rfl
      exact absent (List.mem_eraseDups.mp member)
    rw [groups, List.map_append, List.map_singleton, eraseDups_concat, if_neg absent,
      List.map_append, others, ih unique, List.map_singleton, last, List.map_append,
      List.map_singleton]

section Parts
variable {β : Type} {key : β → κ} {keyOf : α → κ} {f : α → List β} {l : List α}

theorem eraseDups_map_flatMap (nonempty : ∀ a ∈ l, f a ≠ [])
    (keys : ∀ a ∈ l, ∀ b ∈ f a, key b = keyOf a) :
    ((l.flatMap f).map key).eraseDups = (l.map keyOf).eraseDups := by
  induction l using List.reverseRecOn with
  | nil => rfl
  | append_singleton l a ih =>
    rw [List.forall_mem_append, List.forall_mem_singleton] at nonempty keys
    have part : (f a).map key = List.replicate (f a).length (keyOf a) := by
      rw [List.eq_replicate_iff, List.length_map, List.forall_mem_map]
      exact ⟨rfl, keys.2⟩
    have same : keyOf a ∈ (l.flatMap f).map key ↔ keyOf a ∈ l.map keyOf := by
      rw [← List.mem_eraseDups, ih nonempty.1 keys.1, List.mem_eraseDups]
    rw [List.flatMap_append, List.flatMap_singleton, List.map_append, List.map_append,
      List.map_singleton, part, eraseDups_concat, ← ih nonempty.1 keys.1,
      eraseDups_append_replicate _ (List.length_eq_zero_iff.not.mpr nonempty.2)]
    simp only [same]

theorem groupOf_flatMap (keys : ∀ a ∈ l, ∀ b ∈ f a, key b = keyOf a) (k : κ) :
    groupOf key (l.flatMap f) k = (groupOf keyOf l k).flatMap f := by
  rw [groupOf, groupOf, flatMap_filter, List.filter_flatMap]
  refine List.flatMap_congr fun a member => ?_
  by_cases same : keyOf a = k
  · rw [if_pos (by simpa using same), List.filter_eq_self]
    intro b inside
    simpa [keys a member b inside] using same
  · rw [if_neg (by simpa using same), List.filter_eq_nil_iff]
    intro b inside
    simpa [keys a member b inside] using same

/-- **Parts are grouped as what they come from**, when each has members and all of them have its
key. -/
theorem groups_flatMap (nonempty : ∀ a ∈ l, f a ≠ [])
    (keys : ∀ a ∈ l, ∀ b ∈ f a, key b = keyOf a) :
    groups key (l.flatMap f) = (groups keyOf l).map fun group => group.flatMap f := by
  rw [groups, groups, eraseDups_map_flatMap nonempty keys, List.map_map]
  exact List.map_congr_left fun k _ => groupOf_flatMap keys k

end Parts

end Groups

/-! ### Merging a group -/

namespace Intent

/-- The intent is what merging the members of a group in turn comes to. -/
def MergeOf (intent : Intent) (group : List Intent) : Prop :=
  ∃ first later, group = first :: later ∧ intent = later.foldl merge first

theorem mergeOf_single (intent : Intent) : intent.MergeOf [intent] := ⟨intent, [], rfl, rfl⟩

theorem MergeOf.concat {intent : Intent} {group : List Intent} (h : intent.MergeOf group)
    (next : Intent) : (intent.merge next).MergeOf (group ++ [next]) := by
  obtain ⟨first, later, rfl, rfl⟩ := h
  refine ⟨first, later ++ [next], rfl, ?_⟩
  rw [List.foldl_append]
  rfl

/-- The last value that a field has in a group. -/
def lastOf {β : Type} (field : Intent → Option β) (group : List Intent) : Option β :=
  (group.filterMap field).getLast?

theorem lastOf_concat {β : Type} (field : Intent → Option β) (group : List Intent)
    (next : Intent) : lastOf field (group ++ [next]) = (field next).or (lastOf field group) := by
  cases set : field next with
  | none => simp [lastOf, List.filterMap_append, set]
  | some value => simp [lastOf, List.filterMap_append, set]

/-- The size of the data, if the intent has data. -/
def dataSize? (intent : Intent) : Option Int64 :=
  if intent.dataPath.isSome then some intent.size else none

/-- What the fields of a merged group are, by its members. -/
structure Sums (intent first : Intent) (group : List Intent) : Prop where
  database : intent.database = first.database
  collection : intent.collection = first.collection
  dataPath : intent.dataPath = lastOf Intent.dataPath group
  metadataPath : intent.metadataPath = lastOf Intent.metadataPath group
  file : intent.file = lastOf Intent.file group
  size : intent.size = (lastOf dataSize? group).getD first.size

theorem sums_single (intent : Intent) : intent.Sums intent [intent] := by
  have last {β : Type} (field : Intent → Option β) : lastOf field [intent] = field intent := by
    cases set : field intent with
    | none => simp [lastOf, set]
    | some value => simp [lastOf, set]
  refine ⟨rfl, rfl, (last _).symm, (last _).symm, (last _).symm, ?_⟩
  rw [last, dataSize?]
  split
  · rfl
  · rfl

theorem Sums.concat {intent first : Intent} {group : List Intent} (h : intent.Sums first group)
    (next : Intent) : (intent.merge next).Sums first (group ++ [next]) := by
  refine ⟨h.database, h.collection, ?_, ?_, ?_, ?_⟩
  · rw [lastOf_concat, ← h.dataPath]
    rfl
  · rw [lastOf_concat, ← h.metadataPath]
    rfl
  · rw [lastOf_concat, ← h.file]
    rfl
  · rw [lastOf_concat, dataSize?, merge]
    by_cases data : next.dataPath.isSome = true
    · simp [data]
    · simp [data, h.size]

/-- **A merged group has the names of its first member**, and of every other field the last value
that is set in it. -/
theorem MergeOf.fields {intent : Intent} {group : List Intent} (h : intent.MergeOf group) :
    ∃ first later, group = first :: later ∧ intent.Sums first group := by
  obtain ⟨first, later, rfl, rfl⟩ := h
  refine ⟨first, later, rfl, ?_⟩
  induction later using List.reverseRecOn with
  | nil => exact sums_single first
  | append_singleton later next ih =>
    rw [List.foldl_append]
    exact ih.concat next

theorem exists_lastOf {β : Type} {field : Intent → Option β} {group : List Intent}
    {intent : Intent} {value : β} (member : intent ∈ group) (set : field intent = some value) :
    ∃ other ∈ group, ∃ last, field other = some last ∧ lastOf field group = some last := by
  have nonempty : group.filterMap field ≠ [] :=
    List.ne_nil_of_mem (List.mem_filterMap.mpr ⟨intent, member, set⟩)
  have last := List.getLast?_eq_some_getLast nonempty
  obtain ⟨other, inside, given⟩ := List.mem_filterMap.mp (List.getLast_mem nonempty)
  exact ⟨other, inside, _, given, last⟩

theorem MergeOf.fullName_eq {intent : Intent} {group : List Intent} (h : intent.MergeOf group) :
    ∃ first ∈ group, first.fullName = intent.fullName := by
  obtain ⟨first, later, rfl, sums⟩ := h.fields
  refine ⟨first, List.mem_cons_self .., ?_⟩
  rw [fullName, fullName, sums.database, sums.collection]

end Intent

/-! ### Putting intents in turn -/

theorem mergeInto_of_notMem {intents : List Intent} {intent : Intent}
    (absent : intent.fullName ∉ intents.map Intent.fullName) :
    mergeInto intents intent = intents ++ [intent] := by
  induction intents with
  | nil => rfl
  | cons first later ih =>
    rw [List.map_cons, List.mem_cons, not_or] at absent
    rw [mergeInto, if_neg (Ne.symm absent.1), ih absent.2]
    rfl

theorem mergeInto_of_mem {intents : List Intent} {intent : Intent}
    (unique : (intents.map Intent.fullName).Nodup)
    (known : intent.fullName ∈ intents.map Intent.fullName) :
    mergeInto intents intent =
      intents.map fun other =>
        if other.fullName = intent.fullName then other.merge intent else other := by
  induction intents with
  | nil => simp at known
  | cons first later ih =>
    rw [List.map_cons, List.nodup_cons] at unique
    rw [mergeInto, List.map_cons]
    by_cases same : first.fullName = intent.fullName
    · have others : ∀ other ∈ later, other.fullName ≠ intent.fullName := by
        intro other member equal
        rw [same, ← equal] at unique
        exact unique.1 (List.mem_map_of_mem member)
      rw [if_pos same, if_pos same]
      congr 1
      conv => lhs; rw [← List.map_id later]
      exact List.map_congr_left fun other member => (if_neg (others other member)).symm
    · rw [List.map_cons, List.mem_cons] at known
      rw [if_neg same, if_neg same, ih unique.2 (known.resolve_left (Ne.symm same))]

namespace Plan

/-- The plan with intents put into it in turn. -/
def putAll (plan : Plan) (intents : List Intent) : Plan := intents.foldl put plan

/-- The plan of these intents. -/
def ofIntents (intents : List Intent) : Plan := empty.putAll intents

theorem ofIntents_concat (intents : List Intent) (intent : Intent) :
    (ofIntents (intents ++ [intent])).intents = mergeInto (ofIntents intents).intents intent := by
  rw [ofIntents, putAll, List.foldl_append]
  rfl

theorem map_fullName_ofIntents (intents : List Intent) :
    (ofIntents intents).intents.map Intent.fullName =
      (intents.map Intent.fullName).eraseDups := by
  induction intents using List.reverseRecOn with
  | nil => rfl
  | append_singleton intents intent ih =>
    rw [ofIntents_concat, map_fullName_mergeInto, ih, List.map_append, List.map_singleton,
      eraseDups_concat]
    simp only [List.mem_eraseDups]

theorem nodup_ofIntents (intents : List Intent) :
    ((ofIntents intents).intents.map Intent.fullName).Nodup := by
  rw [map_fullName_ofIntents]
  exact nodup_eraseDups _

/-- **The plan has the merge of each group of intents**, in the order of the groups. -/
theorem forall₂_ofIntents (intents : List Intent) :
    List.Forall₂ Intent.MergeOf (ofIntents intents).intents (groups Intent.fullName intents) := by
  rw [groups, List.forall₂_map_right_iff]
  induction intents using List.reverseRecOn with
  | nil => exact .nil
  | append_singleton intents intent ih =>
    rw [ofIntents_concat, List.map_append, List.map_singleton, eraseDups_concat]
    have planned : intent.fullName ∈ (ofIntents intents).intents.map Intent.fullName ↔
        intent.fullName ∈ intents.map Intent.fullName := by
      rw [map_fullName_ofIntents, List.mem_eraseDups]
    by_cases known : intent.fullName ∈ intents.map Intent.fullName
    · rw [if_pos known, mergeInto_of_mem (nodup_ofIntents intents) (planned.mpr known),
        List.forall₂_map_left_iff]
      refine ih.imp fun other name merged => ?_
      obtain ⟨first, member, same⟩ := merged.fullName_eq
      rw [(mem_groupOf.mp member).2] at same
      rw [groupOf_concat]
      by_cases hit : intent.fullName = name
      · rw [if_pos hit, if_pos (by rw [← same, hit])]
        exact merged.concat intent
      · rw [if_neg hit, if_neg (by rw [← same]; exact Ne.symm hit)]
        exact merged
    · rw [if_neg known, mergeInto_of_notMem (planned.not.mpr known)]
      refine List.rel_append (ih.imp fun other name merged => ?_) (.cons ?_ .nil)
      · obtain ⟨first, member, -⟩ := merged.fullName_eq
        obtain ⟨before, rfl⟩ := mem_groupOf.mp member
        rw [groupOf_concat, if_neg]
        · exact merged
        · intro hit
          exact known (hit ▸ List.mem_map_of_mem before)
      · rw [groupOf_concat, if_pos rfl, groupOf_eq_nil known]
        exact intent.mergeOf_single

theorem exists_mergeOf {intents : List Intent} {intent : Intent} (member : intent ∈ intents) :
    ∃ merged ∈ (ofIntents intents).intents,
      merged.MergeOf (groupOf Intent.fullName intents intent.fullName) := by
  have group : groupOf Intent.fullName intents intent.fullName ∈
      groups Intent.fullName intents :=
    List.mem_map_of_mem (List.mem_eraseDups.mpr (List.mem_map_of_mem member))
  exact exists_of_mem_forall₂ (forall₂_ofIntents intents).flip group

theorem eq_of_fullName {intents : List Intent} {intent other : Intent}
    (h : intent ∈ (ofIntents intents).intents) (h' : other ∈ (ofIntents intents).intents)
    (same : intent.fullName = other.fullName) : intent = other :=
  List.inj_on_of_nodup_map (nodup_ofIntents intents) h h' same

end Plan

end DumpCatalog
