import PluralForms.Proofs.Table.Lookup
import PluralForms.Proofs.Text.Bytes
import PluralForms.Proofs.Traversal

/-!
# Passes over tables

A pass that turns the entries of a table into entries with the same keys gives a table again. As
with lists, it succeeds exactly when it does at every key (`exists_mapM_entries_iff`), and it fails
at the first key where it does (`mapM_entries_eq_error_iff`), but both can be said without the list:
by what is found at the keys, and by the order of the keys. For texts that is the order of their
bytes (`mapM_entries_eq_error_iff_firstAmiss`).
-/

namespace PluralForms

theorem rel_some_left_iff {α β : Type} {r : α → β → Prop} {a : α} {o : Option β} :
    Option.Rel r (some a) o ↔ ∃ b, o = some b ∧ r a b := by
  rcases o with _ | b <;> simp

theorem rel_none_left_iff {α β : Type} {r : α → β → Prop} {o : Option β} :
    Option.Rel r none o ↔ o = none := by
  rcases o with _ | b <;> simp

namespace Table

variable {κ α β ε : Type} [Ord κ] [Std.TransOrd κ] [Std.LawfulEqOrd κ] {t : Table κ α}
  {f : κ × α → Except ε (κ × β)}

omit [Ord κ] [Std.TransOrd κ] [Std.LawfulEqOrd κ] in
/-- What a pass comes to has the keys of the table. -/
theorem map_fst_of_forall₂ (hf : ∀ e e', f e = .ok e' → e'.1 = e.1) {entries : List (κ × α)}
    {l : List (κ × β)} (h : List.Forall₂ (fun e e' ↦ f e = .ok e') entries l) :
    l.map (·.1) = entries.map (·.1) := by
  induction h with
  | nil => rfl
  | cons hee' _ ih => rw [List.map_cons, List.map_cons, ih, hf _ _ hee']

/-- The table that a pass comes to, key by key. -/
theorem rel_get?_of_forall₂ (hf : ∀ e e', f e = .ok e' → e'.1 = e.1) {l : List (κ × β)}
    (h : List.Forall₂ (fun e e' ↦ f e = .ok e') t.entries l) (k : κ) :
    Option.Rel (fun v w ↦ f (k, v) = .ok (k, w)) (t.get? k) ((ofList l).get? k) := by
  have hkeys := map_fst_of_forall₂ hf h
  have hnodup : (l.map (·.1)).Nodup := hkeys ▸ t.nodup_keys
  rcases hget : t.get? k with _ | v
  · have hnone : (ofList l).get? k = none := by
      refine Option.eq_none_iff_forall_ne_some.2 fun w hw ↦ ?_
      have hmem : k ∈ t.keys := by
        rw [keys, ← hkeys]
        exact List.mem_map_of_mem (mem_of_get?_ofList hw)
      obtain ⟨v, hv⟩ := mem_keys_iff.1 hmem
      rw [hget] at hv
      exact absurd hv (by simp)
    rw [hnone]
    exact .none
  · obtain ⟨⟨k', w⟩, hmem, hw⟩ := exists_of_forall₂_of_mem h (get?_eq_some_iff.1 hget)
    obtain rfl : k' = k := hf _ _ hw
    rw [(get?_ofList_eq_some_iff hnodup).2 hmem]
    exact .some hw

/-- **A pass over a table succeeds exactly when it does at every key**, and gives the table of the
outcomes. -/
theorem exists_mapM_entries_iff (hf : ∀ e e', f e = .ok e' → e'.1 = e.1) {u : Table κ β} :
    (∃ l, t.entries.mapM f = .ok l ∧ ofList l = u) ↔
      ∀ k, Option.Rel (fun v w ↦ f (k, v) = .ok (k, w)) (t.get? k) (u.get? k) := by
  simp only [mapM_eq_ok_iff]
  constructor
  · rintro ⟨l, hl, rfl⟩
    exact rel_get?_of_forall₂ hf hl
  · intro h
    have hentry : ∀ e ∈ t.entries, ∃ e', f e = .ok e' := by
      rintro ⟨k, v⟩ he
      obtain ⟨w, -, hw⟩ := rel_some_left_iff.1 (get?_eq_some_iff.2 he ▸ h k)
      exact ⟨_, hw⟩
    obtain ⟨l, hl⟩ := exists_forall₂_of_forall_mem hentry
    refine ⟨l, hl, ext_get? fun k ↦ ?_⟩
    have hpass := rel_get?_of_forall₂ hf hl k
    have hgiven := h k
    rcases hget : t.get? k with _ | v <;> rw [hget] at hpass hgiven
    · rw [rel_none_left_iff.1 hpass, rel_none_left_iff.1 hgiven]
    · obtain ⟨w, hw, hfv⟩ := rel_some_left_iff.1 hpass
      obtain ⟨w', hw', hfv'⟩ := rel_some_left_iff.1 hgiven
      rw [hw, hw', (Prod.mk.inj (Except.ok.inj (hfv.symm.trans hfv'))).2]

/-- **A pass over a table fails at the first key where it does.** -/
theorem mapM_entries_eq_error_iff {e : ε} :
    t.entries.mapM f = .error e ↔ ∃ k v, t.get? k = some v ∧ f (k, v) = .error e ∧
      ∀ k' v', t.get? k' = some v' → compare k' k = .lt → ∃ b, f (k', v') = .ok b := by
  rw [mapM_eq_error_iff, exists_leftmost_iff_of_pairwise t.ordered Std.OrientedCmp.not_lt_of_lt]
  simp only [Prod.exists, Prod.forall, get?_eq_some_iff]

/-! ### Texts as keys -/

/-- The key is amiss, and it is the first such key by its bytes. -/
structure FirstAmiss (t : Table String α) (amiss : String → α → Prop) (key : String)
    (value : α) : Prop where
  found : t.get? key = some value
  isAmiss : amiss key value
  first : ∀ key' value', t.get? key' = some value' → amiss key' value' →
    ¬Text.bytes key' < Text.bytes key

/-- A pass that succeeds where nothing is amiss fails at the first key where something is. -/
theorem mapM_entries_eq_error_iff_firstAmiss {t : Table String α}
    {f : String × α → Except ε (String × β)} {amiss : String → α → Prop}
    (hf : ∀ key value, (∃ b, f (key, value) = .ok b) ↔ ¬amiss key value) {e : ε} :
    t.entries.mapM f = .error e ↔
      ∃ key value, t.FirstAmiss amiss key value ∧ f (key, value) = .error e := by
  simp only [mapM_entries_eq_error_iff, Text.compare_eq_lt_iff_bytes, hf]
  constructor
  · rintro ⟨key, value, hfound, herror, hbefore⟩
    refine ⟨key, value, ⟨hfound, ?_, fun key' value' hfound' hamiss hlt ↦
      hbefore key' value' hfound' hlt hamiss⟩, herror⟩
    by_contra hfine
    obtain ⟨b, hb⟩ := (hf key value).2 hfine
    rw [hb] at herror
    exact absurd herror (by simp)
  · rintro ⟨key, value, h, herror⟩
    exact ⟨key, value, h.found, herror, fun key' value' hfound' hlt hamiss ↦
      h.first key' value' hfound' hamiss hlt⟩

/-- Removing a key takes away what is found there, and nothing else. -/
theorem get?_erase (t : Table String α) (k k' : String) :
    (t.erase k).get? k' = if k' = k then none else t.get? k' := by
  split
  next h => rw [h, get?_erase_self]
  next h => exact get?_erase_of_ne t (Ne.symm h)

/-- A key that has been removed is not amiss. -/
theorem firstAmiss_erase_iff {t : Table String α} {amiss : String → α → Prop}
    {k key : String} {value : α} : (t.erase k).FirstAmiss amiss key value ↔
      t.FirstAmiss (fun key value ↦ key ≠ k ∧ amiss key value) key value := by
  have hfound : ∀ {key value}, (t.erase k).get? key = some value ↔
      key ≠ k ∧ t.get? key = some value := fun {key value} ↦ by
    rw [get?_erase]
    split
    next h => simp [h]
    next h => simp [h]
  constructor
  · intro h
    obtain ⟨hne, hkey⟩ := hfound.1 h.found
    exact ⟨hkey, ⟨hne, h.isAmiss⟩, fun key' value' hkey' hamiss ↦
      h.first key' value' (hfound.2 ⟨hamiss.1, hkey'⟩) hamiss.2⟩
  · intro h
    refine ⟨hfound.2 ⟨h.isAmiss.1, h.found⟩, h.isAmiss.2, fun key' value' hkey' hamiss ↦ ?_⟩
    obtain ⟨hne, hkey'⟩ := hfound.1 hkey'
    exact h.first key' value' hkey' ⟨hne, hamiss⟩

end Table

end PluralForms
