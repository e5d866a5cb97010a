import Mathlib.Data.List.Forall2
import Mathlib.Data.List.Induction
import Mathlib.Logic.Function.Iterate

/-! # Lists

Facts about lists that are not about dumps: the members of a list each once, computations over
lists, which succeed with results that are related to the members (`mapM_eq_ok_iff`), and relations
between lists, which are composed and exchanged member by member. -/

namespace DumpCatalog

/-! ### Each member once -/

section EachOnce
variable {κ : Type} [DecidableEq κ]

/-- A key that is repeated behind others counts once, and not at all when it is among them. -/
theorem eraseDups_append_replicate (keys : List κ) {n : Nat} (positive : n ≠ 0) (key : κ) :
    (keys ++ List.replicate n key).eraseDups =
      if key ∈ keys then keys.eraseDups else keys.eraseDups ++ [key] := by
  obtain ⟨n, rfl⟩ := Nat.exists_eq_succ_of_ne_zero positive
  rw [List.eraseDups_append]
  by_cases known : key ∈ keys
  · have nothing : (List.replicate (n + 1) key).removeAll keys = [] := by
      simp [List.removeAll, known]
    rw [if_pos known, nothing, List.eraseDups_nil, List.append_nil]
  · have every : (List.replicate (n + 1) key).removeAll keys = List.replicate (n + 1) key := by
      simp [List.removeAll, known]
    have once : (List.replicate (n + 1) key).eraseDups = [key] := by
      rw [List.replicate_succ, List.eraseDups_cons]
      simp
    rw [if_neg known, every, once]

theorem eraseDups_concat (keys : List κ) (key : κ) :
    (keys ++ [key]).eraseDups = if key ∈ keys then keys.eraseDups else keys.eraseDups ++ [key] :=
  eraseDups_append_replicate keys Nat.one_ne_zero key

theorem nodup_eraseDups (keys : List κ) : keys.eraseDups.Nodup := by
  induction keys using List.reverseRecOn with
  | nil => exact List.nodup_nil
  | append_singleton keys key ih =>
    rw [eraseDups_concat]
    split
    · exact ih
    · next absent =>
      rw [List.nodup_append]
      refine ⟨ih, by simp, ?_⟩
      rintro other member _ (single : _ ∈ [key]) rfl
      rw [List.mem_singleton.mp single] at member
      exact absent (List.mem_eraseDups.mp member)

theorem eraseDups_of_nodup {keys : List κ} (h : keys.Nodup) : keys.eraseDups = keys := by
  induction keys using List.reverseRecOn with
  | nil => rfl
  | append_singleton keys key ih =>
    obtain ⟨distinct, -, apart⟩ := List.nodup_append.mp h
    have absent : key ∉ keys := fun known => apart _ known _ (List.mem_singleton_self _) rfl
    rw [eraseDups_concat, if_neg absent, ih distinct]

theorem eraseDups_map {α : Type} [DecidableEq α] {f : α → κ} (injective : ∀ a b, f a = f b → a = b)
    (l : List α) : (l.map f).eraseDups = l.eraseDups.map f := by
  induction l using List.reverseRecOn with
  | nil => rfl
  | append_singleton l a ih =>
    have known : f a ∈ l.map f ↔ a ∈ l := by
      rw [List.mem_map]
      exact ⟨fun ⟨b, member, same⟩ => injective b a same ▸ member, fun member => ⟨a, member, rfl⟩⟩
    rw [List.map_append, List.map_singleton, eraseDups_concat, eraseDups_concat, ih]
    by_cases member : a ∈ l
    · rw [if_pos (known.mpr member), if_pos member]
    · rw [if_neg (known.not.mpr member), if_neg member, List.map_append, List.map_singleton]

end EachOnce

/-! ### Parts -/

theorem exists_first_of_not_all {α : Type} {p : α → Prop} {l : List α}
    (h : ¬ ∀ a ∈ l, p a) : ∃ front a back, l = front ++ a :: back ∧ (∀ b ∈ front, p b) ∧ ¬ p a := by
  induction l with
  | nil => simp at h
  | cons a l ih =>
    by_cases holds : p a
    · obtain ⟨front, first, back, rfl, before, fails⟩ :=
        ih fun all => h (List.forall_mem_cons.mpr ⟨holds, all⟩)
      exact ⟨a :: front, first, back, rfl, List.forall_mem_cons.mpr ⟨holds, before⟩, fails⟩
    · exact ⟨[], a, l, rfl, by simp, holds⟩

/-- A list from whose end nothing can be cut off is whole. -/
theorem eq_of_trimmed {α : Type} {p : α → Bool} {l : List α}
    (long : l.length ≤ (l.reverse.dropWhile p).reverse.length) :
    (l.reverse.dropWhile p).reverse = l := by
  have cut : (l.reverse.dropWhile p).reverse <+: l := by
    have := List.reverse_prefix.mpr (List.dropWhile_suffix (p := p) (l := l.reverse))
    rwa [List.reverse_reverse] at this
  exact cut.eq_of_length_le long

theorem flatMap_filter {α β : Type} (p : α → Bool) (f : α → List β) (l : List α) :
    (l.filter p).flatMap f = l.flatMap fun a => if p a then f a else [] := by
  induction l with
  | nil => rfl
  | cons a l ih =>
    rw [List.flatMap_cons, List.filter_cons, ← ih]
    by_cases holds : p a = true
    · rw [if_pos holds, if_pos holds, List.flatMap_cons]
    · rw [if_neg holds, if_neg holds, List.nil_append]

theorem dropLast_eq_self_iff {α : Type} {l : List α} : l.dropLast = l ↔ l = [] := by
  constructor
  · intro same
    have length := congrArg List.length same
    rw [List.length_dropLast] at length
    exact List.eq_nil_of_length_eq_zero (by omega)
  · rintro rfl
    rfl

theorem iterate_dropLast {α : Type} (l : List α) : List.dropLast^[l.length] l = [] := by
  induction l using List.reverseRecOn with
  | nil => rfl
  | append_singleton l a ih =>
    rw [List.length_append, List.length_singleton, Function.iterate_succ_apply,
      List.dropLast_concat]
    exact ih

/-! ### Computations -/

theorem bind_eq_ok_iff {α β ε : Type} {x : Except ε α} {f : α → Except ε β} {b : β} :
    x >>= f = .ok b ↔ ∃ a, x = .ok a ∧ f a = .ok b := by
  cases x with
  | error fault =>
    refine ⟨fun h => (by cases h), ?_⟩
    rintro ⟨a, none, -⟩
    simp at none
  | ok a =>
    constructor
    · exact fun h => ⟨a, rfl, h⟩
    · rintro ⟨_, same, h⟩
      cases same
      exact h

theorem mapM_eq_ok_iff {α β ε : Type} {f : α → Except ε β} {l : List α} {results : List β} :
    l.mapM f = .ok results ↔ List.Forall₂ (fun a b => f a = .ok b) l results := by
  induction l generalizing results with
  | nil =>
    rw [List.forall₂_nil_left_iff]
    exact ⟨fun h => (Except.ok.inj h).symm, fun h => by rw [h]; rfl⟩
  | cons a l ih =>
    rw [List.mapM_cons, List.forall₂_cons_left_iff, bind_eq_ok_iff]
    constructor
    · rintro ⟨b, first, h⟩
      obtain ⟨later, rest, same⟩ := bind_eq_ok_iff.mp h
      exact ⟨b, later, first, ih.mp rest, (Except.ok.inj same).symm⟩
    · rintro ⟨b, later, first, rest, rfl⟩
      exact ⟨b, first, bind_eq_ok_iff.mpr ⟨later, ih.mpr rest, rfl⟩⟩

/-! ### Relations -/

section Related
variable {α β γ : Type} {R : α → β → Prop} {S : β → γ → Prop}

theorem forall₂_comp_iff {as : List α} {cs : List γ} :
    (∃ bs, List.Forall₂ R as bs ∧ List.Forall₂ S bs cs) ↔
      List.Forall₂ (fun a c => ∃ b, R a b ∧ S b c) as cs := by
  constructor
  · rintro ⟨bs, first, second⟩
    induction first generalizing cs with
    | nil =>
      cases second
      exact .nil
    | cons head _ ih =>
      cases second with
      | cons head' second => exact .cons ⟨_, head, head'⟩ (ih second)
  · intro both
    induction both with
    | nil => exact ⟨[], .nil, .nil⟩
    | cons head _ ih =>
      obtain ⟨b, first, second⟩ := head
      obtain ⟨bs, firsts, seconds⟩ := ih
      exact ⟨b :: bs, .cons first firsts, .cons second seconds⟩

theorem forall₂_iff_of_forall₂ {T : α → γ → Prop} {U : γ → β → Prop} {as : List α} {bs : List β}
    {cs : List γ} (h : List.Forall₂ R as bs)
    (step : ∀ a, ∀ b ∈ bs, R a b → ∀ c, T a c ↔ U c b) :
    List.Forall₂ T as cs ↔ List.Forall₂ U cs bs := by
  induction h generalizing cs with
  | nil => rw [List.forall₂_nil_left_iff, List.forall₂_nil_right_iff]
  | @cons a b as bs head _ ih =>
    rw [List.forall₂_cons_left_iff, List.forall₂_cons_right_iff]
    have later (cs : List γ) := @ih cs fun a b member => step a b (List.mem_cons_of_mem _ member)
    constructor
    · rintro ⟨c, cs, first, rest, rfl⟩
      exact ⟨c, cs, (step a b (List.mem_cons_self ..) head c).mp first, (later cs).mp rest, rfl⟩
    · rintro ⟨c, cs, first, rest, rfl⟩
      exact ⟨c, cs, (step a b (List.mem_cons_self ..) head c).mpr first, (later cs).mpr rest, rfl⟩

theorem forall₂_imp_of_mem {T : α → β → Prop} {as : List α} {bs : List β}
    (h : List.Forall₂ R as bs) (step : ∀ a, ∀ b ∈ bs, R a b → T a b) : List.Forall₂ T as bs := by
  induction h with
  | nil => exact .nil
  | cons head _ ih =>
    exact .cons (step _ _ (List.mem_cons_self ..) head)
      (ih fun a b member => step a b (List.mem_cons_of_mem _ member))

theorem exists_of_mem_forall₂ {as : List α} {bs : List β} (h : List.Forall₂ R as bs) {a : α}
    (member : a ∈ as) : ∃ b ∈ bs, R a b := by
  induction h with
  | nil => simp at member
  | @cons first b as bs head _ ih =>
    rcases List.mem_cons.mp member with rfl | later
    · exact ⟨b, List.mem_cons_self .., head⟩
    · obtain ⟨other, inside, related⟩ := ih later
      exact ⟨other, List.mem_cons_of_mem _ inside, related⟩

theorem exists_forall₂_iff {bs : List β} :
    (∃ as, List.Forall₂ R as bs) ↔ ∀ b ∈ bs, ∃ a, R a b := by
  induction bs with
  | nil => exact ⟨fun _ b member => (by simp at member), fun _ => ⟨[], .nil⟩⟩
  | cons b bs ih =>
    rw [List.forall_mem_cons, ← ih]
    constructor
    · rintro ⟨as, all⟩
      obtain ⟨a, later, first, rest, -⟩ := List.forall₂_cons_right_iff.mp all
      exact ⟨⟨a, first⟩, later, rest⟩
    · rintro ⟨⟨a, first⟩, later, rest⟩
      exact ⟨a :: later, .cons first rest⟩

end Related

end DumpCatalog
