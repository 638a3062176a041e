import Mathlib.Data.List.Induction
import Mathlib.Data.List.Nodup
import Mathlib.Data.List.Perm.Subperm
import PluralForms.Proofs.Table

/-!
# Tables as finite maps

A table is determined by what is found in it (`ext_get?`), so an equation between tables can be
proved key by key. That is how a restriction is pushed through an insertion: an entry with a key in
question is inserted into the restriction, and any other leaves it as it is.

A table made of a list has at most as many entries as the list, and as many exactly when no key is
repeated (`size_ofList_eq_iff`).
-/

namespace PluralForms.Table

variable {κ α : Type} [Ord κ] [Std.LawfulEqOrd κ]

theorem nodup_keys (t : Table κ α) : t.keys.Nodup :=
  List.pairwise_map.2 (t.ordered.imp fun {a b} hlt heq ↦ by simp [heq] at hlt)

/-! ### Lookup -/

/-- **A value is found under a key** exactly when the two are an entry. -/
theorem get?_eq_some_iff {t : Table κ α} {k : κ} {v : α} :
    t.get? k = some v ↔ (k, v) ∈ t.entries := by
  constructor
  · intro h
    obtain ⟨⟨k', v'⟩, hfind, rfl⟩ := Option.map_eq_some_iff.1 h
    obtain rfl : k' = k := by simpa using List.find?_some hfind
    exact List.mem_of_find?_eq_some hfind
  · intro h
    have hsome : (t.entries.find? fun e ↦ compare e.1 k == .eq).isSome :=
      List.find?_isSome.2 ⟨(k, v), h, by simp⟩
    obtain ⟨e, hfind⟩ := Option.isSome_iff_exists.1 hsome
    have hkey : e.1 = k := by simpa using List.find?_some hfind
    obtain rfl : e = (k, v) :=
      List.inj_on_of_nodup_map t.nodup_keys (List.mem_of_find?_eq_some hfind) h hkey
    rw [get?, hfind, Option.map_some]

/-- The keys are those that have a value. -/
theorem mem_keys_iff {t : Table κ α} {k : κ} : k ∈ t.keys ↔ ∃ v, t.get? k = some v := by
  simp [keys, get?_eq_some_iff]

/-- The entries left when some keys are erased are those with other keys. -/
theorem entries_foldl_erase [DecidableEq κ] (ks : List κ) (t : Table κ α) :
    (ks.foldl erase t).entries = t.entries.filter fun e ↦ decide (e.1 ∉ ks) := by
  induction ks generalizing t with
  | nil => simp
  | cons k ks ih =>
    rw [List.foldl_cons, ih, erase, List.filter_filter]
    refine List.filter_congr fun e _ ↦ ?_
    rw [Bool.eq_iff_iff]
    simp [and_comm]

/-! ### Restriction -/

omit [Std.LawfulEqOrd κ] in
/-- The part of a table whose keys satisfy `p`. -/
def restrict (t : Table κ α) (p : κ → Bool) : Table κ α :=
  ⟨t.entries.filter fun e ↦ p e.1, t.ordered.filter _⟩

/-- A restricted table has the values of the keys it is restricted to, and no others. -/
theorem get?_restrict (t : Table κ α) (p : κ → Bool) (k : κ) :
    (t.restrict p).get? k = if p k then t.get? k else none := by
  ext v
  rw [get?_eq_some_iff, restrict, List.mem_filter, ← get?_eq_some_iff]
  cases p k <;> simp

variable [Std.TransOrd κ]

/-- **A table is determined by what is found in it.** -/
theorem ext_get? {t t' : Table κ α} (h : ∀ k, t.get? k = t'.get? k) : t = t' := by
  have hmem : ∀ e, e ∈ t.entries ↔ e ∈ t'.entries := by
    rintro ⟨k, v⟩
    rw [← get?_eq_some_iff, ← get?_eq_some_iff, h]
  have hperm : t.entries.Perm t'.entries :=
    (List.perm_ext_iff_of_nodup t.nodup_keys.of_map t'.nodup_keys.of_map).2 hmem
  refine Table.ext (hperm.eq_of_pairwise (fun a b _ _ hab hba ↦ ?_) t.ordered t'.ordered)
  exact absurd hba (Std.OrientedCmp.not_lt_of_lt hab)

/-- A key is in a table with one more entry if it is new or was there. -/
theorem mem_keys_insert {t : Table κ α} {k k' : κ} {v : α} :
    k' ∈ (t.insert k v).keys ↔ k' = k ∨ k' ∈ t.keys := by
  rw [mem_keys_iff, mem_keys_iff]
  by_cases hk : k = k'
  · simp [← hk]
  · simp [get?_insert_of_ne t v hk, Ne.symm hk]

/-- Two tables with the same restriction have the same values at the keys in question. -/
theorem restrict_eq_restrict_iff {t t' : Table κ α} {p : κ → Bool} :
    t.restrict p = t'.restrict p ↔ ∀ k, p k → t.get? k = t'.get? k := by
  constructor
  · intro h k hk
    have hget := congrArg (get? · k) h
    simpa [get?_restrict, hk] using hget
  · intro h
    refine ext_get? fun k ↦ ?_
    rw [get?_restrict, get?_restrict]
    split
    next hk => exact h k hk
    next => rfl

/-- Restriction keeps an insertion at a key that it keeps. -/
theorem restrict_insert_of_pos (t : Table κ α) {p : κ → Bool} {k : κ} (v : α) (hk : p k) :
    (t.insert k v).restrict p = (t.restrict p).insert k v := by
  refine ext_get? fun k' ↦ ?_
  by_cases heq : k = k'
  · subst heq
    simp [get?_restrict, hk]
  · rw [get?_restrict, get?_insert_of_ne _ v heq, get?_insert_of_ne _ v heq, get?_restrict]

/-- An entry with a key outside leaves a restriction as it is. -/
theorem restrict_insert_of_neg (t : Table κ α) {p : κ → Bool} {k : κ} (v : α) (hk : ¬p k) :
    (t.insert k v).restrict p = t.restrict p := by
  refine restrict_eq_restrict_iff.2 fun k' hk' ↦ get?_insert_of_ne t v ?_
  rintro rfl
  exact hk hk'

/-! ### Tables made of lists with repeated keys -/

theorem ofList_concat (l : List (κ × α)) (k : κ) (v : α) :
    ofList (l ++ [(k, v)]) = (ofList l).insert k v := by
  rw [ofList, List.foldl_append]
  rfl

/-- The keys of a table that is made from a list are those in the list. -/
theorem mem_keys_ofList {l : List (κ × α)} {k : κ} :
    k ∈ (ofList l).keys ↔ k ∈ l.map (·.1) := by
  induction l using List.reverseRecOn with
  | nil => rfl
  | append_singleton l e ih =>
    rw [ofList_concat, mem_keys_insert, ih, or_comm, List.map_append, List.mem_append]
    simp

/-- What is found in a table made of a list is in the list. -/
theorem mem_of_get?_ofList {l : List (κ × α)} {k : κ} {v : α} (h : (ofList l).get? k = some v) :
    (k, v) ∈ l := by
  induction l using List.reverseRecOn with
  | nil => cases h
  | append_singleton l e ih =>
    rw [ofList_concat] at h
    by_cases hk : e.1 = k
    · obtain rfl := hk
      rw [get?_insert_self] at h
      obtain rfl := Option.some.inj h
      exact List.mem_append_right _ List.mem_cons_self
    · rw [get?_insert_of_ne _ _ hk] at h
      exact List.mem_append_left _ (ih h)

/-- With no key repeated, what is found is what is in the list. -/
theorem get?_ofList_eq_some_iff {l : List (κ × α)} (h : (l.map (·.1)).Nodup) {k : κ} {v : α} :
    (ofList l).get? k = some v ↔ (k, v) ∈ l := by
  refine ⟨mem_of_get?_ofList, fun hmem ↦ ?_⟩
  obtain ⟨v', hv'⟩ := mem_keys_iff.1 (mem_keys_ofList.2 (List.mem_map_of_mem hmem))
  have heq := List.inj_on_of_nodup_map h (mem_of_get?_ofList hv') hmem rfl
  rw [hv', (Prod.mk.inj heq).2]

/-- With no key repeated, a table made of a list has the entries of the list. -/
theorem entries_ofList_perm {l : List (κ × α)} (h : (l.map (·.1)).Nodup) :
    (ofList l).entries.Perm l := by
  refine (List.perm_ext_iff_of_nodup (ofList l).nodup_keys.of_map h.of_map).2 fun e ↦ ?_
  rw [← get?_ofList_eq_some_iff h, get?_eq_some_iff]

/-- The entries of a table make the table, in whatever order. -/
theorem ofList_eq_of_perm {t : Table κ α} {l : List (κ × α)} (h : l.Perm t.entries) :
    ofList l = t := by
  have hnodup : (l.map (·.1)).Nodup := (h.map _).nodup_iff.2 t.nodup_keys
  refine ext_get? fun k ↦ Option.ext fun v ↦ ?_
  rw [get?_ofList_eq_some_iff hnodup, get?_eq_some_iff, h.mem_iff]

/-- A table can be made of what is found in it under some keys, if they include all of its own. -/
theorem ofList_filterMap_get? {t : Table κ α} {ks : List κ} (h : ∀ k ∈ t.keys, k ∈ ks) :
    ofList (ks.filterMap fun k ↦ (t.get? k).map (k, ·)) = t := by
  have hfound : ∀ {k v}, (k, v) ∈ (ks.filterMap fun k ↦ (t.get? k).map (k, ·)) →
      t.get? k = some v := by
    intro k v hkv
    obtain ⟨k', -, hk'⟩ := List.mem_filterMap.1 hkv
    obtain ⟨v', hv', heq⟩ := Option.map_eq_some_iff.1 hk'
    obtain ⟨rfl, rfl⟩ := Prod.mk.inj heq
    exact hv'
  refine ext_get? fun k ↦ Option.ext fun v ↦ ⟨fun hv ↦ hfound (mem_of_get?_ofList hv), fun hv ↦ ?_⟩
  have hmem : (k, v) ∈ ks.filterMap fun k ↦ (t.get? k).map (k, ·) :=
    List.mem_filterMap.2 ⟨k, h k (mem_keys_iff.2 ⟨v, hv⟩), by rw [hv]; rfl⟩
  obtain ⟨v', hv'⟩ := mem_keys_iff.1 (mem_keys_ofList.2 (List.mem_map_of_mem hmem))
  rw [hv', ← hfound (mem_of_get?_ofList hv'), hv]

/-- A table made of a list has no more entries than the list. -/
theorem size_ofList_le (l : List (κ × α)) : (ofList l).size ≤ l.length := by
  have hsubperm := (ofList l).nodup_keys.subperm fun k hk ↦ mem_keys_ofList.1 hk
  simpa [keys, size] using hsubperm.length_le

/-- **It has as many exactly when no key is repeated.** -/
theorem size_ofList_eq_iff {l : List (κ × α)} :
    (ofList l).size = l.length ↔ (l.map (·.1)).Nodup := by
  have hkeys : (ofList l).keys.length = (ofList l).size := List.length_map _
  have hsubperm := (ofList l).nodup_keys.subperm fun k hk ↦ mem_keys_ofList.1 hk
  constructor
  · intro h
    have hlength : (l.map (·.1)).length = (ofList l).keys.length := by
      rw [hkeys, h, List.length_map]
    exact (hsubperm.perm_of_length_le (Nat.le_of_eq hlength)).nodup_iff.1 (ofList l).nodup_keys
  · intro h
    have hperm : (ofList l).keys.Perm (l.map (·.1)) :=
      (List.perm_ext_iff_of_nodup (ofList l).nodup_keys h).2 fun _ ↦ mem_keys_ofList
    rw [← hkeys, hperm.length_eq, List.length_map]

end PluralForms.Table
