/-!
# Tables

A table maps keys to values and is read in the order of its keys. It is a list of entries whose keys
increase strictly; that order is part of the type, so a table is determined by its entries and there
is one list for each finite map.

`insertEntry` is the only place where the order has to be kept; `ordered_insertEntry` does so, and
`ofList` gets it from there.
-/

namespace PluralForms

/-- A finite map with its keys in strictly increasing order. -/
@[ext]
structure Table (κ α : Type) [Ord κ] where
  /-- The entries in the order of their keys. -/
  entries : List (κ × α)
  /-- Each key is smaller than all keys after it. -/
  ordered : entries.Pairwise fun a b ↦ compare a.1 b.1 = .lt

namespace Table

variable {κ α : Type} [Ord κ]

/-- No entries. -/
def empty : Table κ α :=
  ⟨[], .nil⟩

instance : EmptyCollection (Table κ α) := ⟨empty⟩

instance : Inhabited (Table κ α) := ⟨empty⟩

/-- The number of entries. -/
def size (t : Table κ α) : Nat :=
  t.entries.length

/-- The value at a key. -/
def get? (t : Table κ α) (k : κ) : Option α :=
  (t.entries.find? fun e ↦ compare e.1 k == .eq).map (·.2)

/-! ### Insertion -/

/-- Put an entry where its key belongs, in place of one with the same key. -/
def insertEntry (k : κ) (v : α) : List (κ × α) → List (κ × α)
  | [] => [(k, v)]
  | e :: rest =>
    match compare k e.1 with
    | .lt => (k, v) :: e :: rest
    | .eq => (k, v) :: rest
    | .gt => e :: insertEntry k v rest

/-- Nothing but the new entry is added. -/
theorem mem_insertEntry {k : κ} {v : α} {e : κ × α} :
    ∀ {l : List (κ × α)}, e ∈ insertEntry k v l → e = (k, v) ∨ e ∈ l
  | [], h => by simpa [insertEntry] using h
  | d :: rest, h => by
    rw [insertEntry] at h
    split at h
    · simpa using h
    · rcases List.mem_cons.1 h with h | h
      · exact .inl h
      · exact .inr (List.mem_cons_of_mem _ h)
    · rcases List.mem_cons.1 h with h | h
      · exact .inr (h ▸ List.mem_cons_self)
      · exact (mem_insertEntry h).imp_right (List.mem_cons_of_mem _)

/-- **Insertion keeps the order of the keys.** -/
theorem ordered_insertEntry [Std.TransOrd κ] [Std.LawfulEqOrd κ] {k : κ} {v : α} :
    ∀ {l : List (κ × α)}, l.Pairwise (fun a b ↦ compare a.1 b.1 = .lt) →
      (insertEntry k v l).Pairwise fun a b ↦ compare a.1 b.1 = .lt
  | [], _ => List.pairwise_singleton _ _
  | d :: rest, h => by
    obtain ⟨hd, hrest⟩ := List.pairwise_cons.1 h
    rw [insertEntry]
    split
    next hlt =>
      refine List.pairwise_cons.2 ⟨fun b hb ↦ ?_, h⟩
      rcases List.mem_cons.1 hb with rfl | hb
      · exact hlt
      · exact Std.TransCmp.lt_trans hlt (hd b hb)
    next heq =>
      have hk : k = d.1 := Std.LawfulEqCmp.eq_of_compare heq
      exact List.pairwise_cons.2 ⟨fun b hb ↦ by rw [hk]; exact hd b hb, hrest⟩
    next hgt =>
      refine List.pairwise_cons.2 ⟨fun b hb ↦ ?_, ordered_insertEntry hrest⟩
      rcases mem_insertEntry hb with rfl | hb
      · exact Std.OrientedCmp.lt_of_gt hgt
      · exact hd b hb

/-- The table with the value at the key, whatever was there before. -/
def insert [Std.TransOrd κ] [Std.LawfulEqOrd κ] (t : Table κ α) (k : κ) (v : α) : Table κ α :=
  ⟨insertEntry k v t.entries, ordered_insertEntry t.ordered⟩

/-- The entry put in is the one found under its key. -/
theorem find?_insertEntry_self [Std.TransOrd κ] (k : κ) (v : α) :
    ∀ l : List (κ × α), (insertEntry k v l).find? (fun e ↦ compare e.1 k == .eq) = some (k, v)
  | [] => by simp [insertEntry]
  | d :: rest => by
    rw [insertEntry]
    split
    · simp
    · simp
    next hgt =>
      have hlt : compare d.1 k = .lt := Std.OrientedCmp.lt_of_gt hgt
      rw [List.find?_cons_of_neg (by simp [hlt]), find?_insertEntry_self k v rest]

/-- Under another key the same is found as before. -/
theorem find?_insertEntry_of_ne [Std.TransOrd κ] [Std.LawfulEqOrd κ] {k k' : κ} (v : α)
    (h : k ≠ k') :
    ∀ l : List (κ × α), (insertEntry k v l).find? (fun e ↦ compare e.1 k' == .eq) =
      l.find? fun e ↦ compare e.1 k' == .eq
  | [] => by simp [insertEntry, h]
  | d :: rest => by
    rw [insertEntry]
    split
    · rw [List.find?_cons_of_neg (by simpa using h)]
    next heq =>
      have hd : k = d.1 := Std.LawfulEqCmp.eq_of_compare heq
      rw [List.find?_cons_of_neg (by simpa using h),
        List.find?_cons_of_neg (by simpa [← hd] using h)]
    · rw [List.find?_cons, List.find?_cons, find?_insertEntry_of_ne v h rest]

/-- The value put in is found. -/
@[simp] theorem get?_insert_self [Std.TransOrd κ] [Std.LawfulEqOrd κ] (t : Table κ α) (k : κ)
    (v : α) : (t.insert k v).get? k = some v := by
  simp [get?, insert, find?_insertEntry_self]

/-- The other keys keep their values. -/
theorem get?_insert_of_ne [Std.TransOrd κ] [Std.LawfulEqOrd κ] (t : Table κ α) {k k' : κ} (v : α)
    (h : k ≠ k') : (t.insert k v).get? k' = t.get? k' := by
  simp [get?, insert, find?_insertEntry_of_ne v h]

/-- The entries of a list; of several with one key the last counts. -/
def ofList [Std.TransOrd κ] [Std.LawfulEqOrd κ] (l : List (κ × α)) : Table κ α :=
  l.foldl (fun t e ↦ t.insert e.1 e.2) empty

/-! ### Removal -/

/-- The table without the key. -/
def erase (t : Table κ α) (k : κ) : Table κ α :=
  ⟨t.entries.filter fun e ↦ compare e.1 k != .eq, t.ordered.filter _⟩

/-- What is removed is not found. -/
@[simp] theorem get?_erase_self (t : Table κ α) (k : κ) : (t.erase k).get? k = none := by
  simp [get?, erase]

/-- The other keys keep their values. -/
theorem get?_erase_of_ne [Std.LawfulEqOrd κ] (t : Table κ α) {k k' : κ} (h : k ≠ k') :
    (t.erase k).get? k' = t.get? k' := by
  simp only [get?, erase, List.find?_filter]
  congr 2
  funext e
  by_cases hk : e.1 = k' <;> grind

/-! ### Keys and values -/

/-- The keys in their order. -/
def keys (t : Table κ α) : List κ :=
  t.entries.map (·.1)

end Table

end PluralForms
