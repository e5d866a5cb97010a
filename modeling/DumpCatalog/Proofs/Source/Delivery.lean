import DumpCatalog.Source

/-! # Sources: what is read does not depend on how it is delivered

Reads may be interrupted and may bring less than there is room for, but filling goes on until it has
what it wants. So what came, what is left, and why filling stopped follow from the bytes and the
ending alone (`fill_eq`), and the schedule matters only to the schedule that is left. -/

namespace DumpCatalog

/-- Why filling stops where there are no more bytes. -/
def Ending.stop : Ending → Stop
  | .closed => .ended
  | .failing fault => .failed fault

/-- What a read of a fixed number of bytes says where there are too few. -/
def Ending.fault : Ending → IoFault
  | .closed => .shortRead
  | .failing fault => fault

namespace Source

/-! ### One read -/

theorem serve_nil {source later : Source} {n : Nat} (hn : n ≠ 0)
    (h : source.serve n = (.bytes [], later)) :
    source.rest = [] ∧ source.ending = .closed ∧ later = source := by
  unfold serve at h
  split at h
  · next hr =>
    split at h
    · next he => cases h; exact ⟨hr, he, rfl⟩
    · simp at h
  · next b bs _ =>
    obtain ⟨m, rfl⟩ := Nat.exists_eq_succ_of_ne_zero hn
    simp at h

theorem serve_failed {source later : Source} {n : Nat} {fault : IoFault}
    (h : source.serve n = (.failed fault, later)) :
    source.rest = [] ∧ source.ending = .failing fault ∧ later = source := by
  unfold serve at h
  split at h
  · next hr =>
    split at h
    · simp at h
    · next he => cases h; exact ⟨hr, he, rfl⟩
  · simp at h

theorem read_nil {source later : Source} {room : Nat} (hroom : room ≠ 0)
    (h : source.read room = (.bytes [], later)) :
    source.rest = [] ∧ source.ending = .closed ∧ later.rest = [] ∧ later.ending = .closed := by
  unfold read at h
  split at h
  · obtain ⟨hr, he, rfl⟩ := serve_nil hroom h
    exact ⟨hr, he, hr, he⟩
  · simp at h
  · obtain ⟨hr, he, rfl⟩ := serve_nil (by omega) h
    exact ⟨hr, he, hr, he⟩

theorem read_failed {source later : Source} {room : Nat} {fault : IoFault}
    (h : source.read room = (.failed fault, later)) :
    source.rest = [] ∧ source.ending = .failing fault ∧ later.rest = [] ∧
      later.ending = .failing fault := by
  unfold read at h
  split at h
  · obtain ⟨hr, he, rfl⟩ := serve_failed h
    exact ⟨hr, he, hr, he⟩
  · simp at h
  · obtain ⟨hr, he, rfl⟩ := serve_failed h
    exact ⟨hr, he, hr, he⟩

/-! ### Filling -/

/-- **What filling brings follows from the bytes and the ending.** -/
theorem fill_eq (source : Source) (room : Nat) :
    (source.fill room).bytes = source.rest.take room ∧
      (source.fill room).source.rest = source.rest.drop room ∧
      (source.fill room).source.ending = source.ending ∧
      (source.fill room).stop =
        if room ≤ source.rest.length then .full else source.ending.stop := by
  fun_induction fill source room with
  | case1 => simp
  | case2 source room _ later read this ih =>
    obtain ⟨hr, -, he⟩ := this
    rwa [hr, he] at ih
  | case3 source room hroom fault later read =>
    obtain ⟨hr, he, hr', he'⟩ := read_failed read
    have short : ¬ room ≤ 0 := by omega
    simp [hr, he, hr', he', Ending.stop, short]
  | case4 source room hroom later read =>
    obtain ⟨hr, he, hr', he'⟩ := read_nil hroom read
    have short : ¬ room ≤ 0 := by omega
    simp [hr, he, hr', he', Ending.stop, short]
  | case5 source room hroom b bs later read this more ih =>
    obtain ⟨hr, -, he⟩ := this
    obtain ⟨ih1, ih2, ih3, ih4⟩ := ih
    have fits : bs.length + 1 ≤ room := by simpa using length_le_of_read read
    have hlen : source.rest.length = bs.length + 1 + later.rest.length := by
      rw [hr, List.length_append, List.length_cons]
    refine ⟨?_, ?_, ih3.trans he, ?_⟩
    · rw [hr, List.take_append, List.take_of_length_le (by simpa using fits), List.length_cons]
      exact congrArg (b :: bs ++ ·) ih1
    · rw [hr, List.drop_append, List.drop_eq_nil_of_le (by simpa using fits), List.length_cons]
      exact ih2
    · refine ih4.trans ?_
      rw [he, hlen]
      congr 1
      exact propext (by omega)

theorem takeExactly_eq (source : Source) (n : Nat) :
    (source.takeExactly n).1 =
        (if n ≤ source.rest.length then .ok (source.rest.take n) else .error source.ending.fault) ∧
      (source.takeExactly n).2.rest = source.rest.drop n ∧
      (source.takeExactly n).2.ending = source.ending := by
  obtain ⟨bytes, rest, ending, stop⟩ := fill_eq source n
  unfold takeExactly
  dsimp only
  by_cases enough : n ≤ source.rest.length
  · rw [if_pos enough] at stop ⊢
    rw [stop]
    exact ⟨congrArg Except.ok bytes, rest, ending⟩
  · rw [if_neg enough] at stop ⊢
    rw [stop]
    cases closed : source.ending with
    | closed => exact ⟨rfl, rest, ending.trans closed⟩
    | failing fault => exact ⟨rfl, rest, ending.trans closed⟩

end Source

end DumpCatalog
