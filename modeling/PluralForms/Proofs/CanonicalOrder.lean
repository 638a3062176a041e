import PluralForms.Category
import Mathlib.Data.List.Basic

/-!
# Canonical order

Items are put in canonical order by taking the buckets of the categories one after another. So the
outcome is a permutation of the items (`sortBy_perm`), the ranks in it never decrease
(`pairwise_sortBy`), and looking for the first item with a property amounts to looking for the first
category that has such an item (`find?_sortBy`): the order of the items themselves is forgotten but
for those of one category.
-/

namespace PluralForms.Category

variable {α : Type} {category : α → Category}

theorem mem_all (c : Category) : c ∈ all := by
  cases c <;> decide

/-- The categories are listed in their canonical order. -/
theorem pairwise_all : all.Pairwise (·.rank < ·.rank) := by
  decide

theorem nodup_all : all.Nodup := by
  decide

/-- Every other category comes before the catch-all. -/
theorem rank_lt_of_ne_other {c : Category} (h : c ≠ .other) : c.rank < other.rank := by
  cases c <;> simp_all [rank]

theorem mem_sortBy {items : List α} {x : α} : x ∈ sortBy category items ↔ x ∈ items := by
  simp [sortBy, mem_all]

/-- The buckets of some categories hold exactly the items of those categories. -/
theorem flatMap_bucket_perm (items : List α) {cs : List Category} (h : cs.Nodup) :
    (cs.flatMap fun c ↦ items.filter (category · == c)).Perm
      (items.filter fun x ↦ decide (category x ∈ cs)) := by
  induction cs with
  | nil => simp
  | cons c cs ih =>
    obtain ⟨hc, hcs⟩ := List.nodup_cons.1 h
    -- the bucket of `c` and the rest are the two sides of one filter
    have hsplit := List.filter_append_perm (category · == c)
      (items.filter fun x ↦ decide (category x ∈ c :: cs))
    rw [List.filter_filter, List.filter_filter] at hsplit
    have hbucket : (items.filter fun x ↦ category x == c && decide (category x ∈ c :: cs)) =
        items.filter (category · == c) :=
      List.filter_congr fun x _ ↦ by grind
    have hrest : (items.filter fun x ↦ !category x == c && decide (category x ∈ c :: cs)) =
        items.filter fun x ↦ decide (category x ∈ cs) :=
      List.filter_congr fun x _ ↦ by grind
    rw [hbucket, hrest] at hsplit
    rw [List.flatMap_cons]
    exact ((List.Perm.refl _).append (ih hcs)).trans hsplit

/-- **Sorting keeps the items.** -/
theorem sortBy_perm (items : List α) : (sortBy category items).Perm items := by
  have hperm : (all.flatMap fun c ↦ items.filter (category · == c)).Perm _ :=
    flatMap_bucket_perm items nodup_all
  rwa [List.filter_eq_self.2 fun x _ ↦ by simp [mem_all]] at hperm

/-- **Sorted items have their ranks in order.** -/
theorem pairwise_sortBy (items : List α) :
    (sortBy category items).Pairwise fun a b ↦ (category a).rank ≤ (category b).rank := by
  rw [sortBy, List.pairwise_flatMap]
  constructor
  · intro c _
    refine List.pairwise_of_forall_mem_list fun a ha b hb ↦ ?_
    obtain rfl : category a = c := by simpa using (List.mem_filter.1 ha).2
    have hb : category b = category a := by simpa using (List.mem_filter.1 hb).2
    exact Nat.le_of_eq (congrArg rank hb.symm)
  · refine pairwise_all.imp fun {c d} hlt a ha b hb ↦ ?_
    obtain rfl : category a = c := by simpa using (List.mem_filter.1 ha).2
    obtain rfl : category b = d := by simpa using (List.mem_filter.1 hb).2
    exact Nat.le_of_lt hlt

/-- **The first sorted item with a property is of the first category that has one.** -/
theorem find?_sortBy (p : α → Bool) (items : List α) :
    ((sortBy category items).find? p).map category =
      all.find? fun c ↦ items.any fun x ↦ category x == c && p x := by
  rw [sortBy, List.find?_flatMap]
  generalize all = cs
  induction cs with
  | nil => rfl
  | cons c cs ih =>
    rw [List.findSome?_cons, List.find?_cons]
    cases hfind : (items.filter (category · == c)).find? p with
    | none =>
      have hnone : (items.any fun x ↦ category x == c && p x) = false := by
        simpa [List.find?_eq_none] using hfind
      rw [hnone]
      exact ih
    | some x =>
      obtain ⟨hx, hp⟩ : x ∈ items.filter (category · == c) ∧ p x :=
        ⟨List.mem_of_find?_eq_some hfind, List.find?_some hfind⟩
      obtain ⟨hmem, hc⟩ : x ∈ items ∧ category x = c := by simpa using hx
      have hsome : (items.any fun x ↦ category x == c && p x) = true :=
        List.any_eq_true.2 ⟨x, hmem, by simp [hc, hp]⟩
      rw [hsome, Option.map_some, hc]

end PluralForms.Category
