import PluralForms.Table

/-!
# Tables made of lists

A list whose keys already increase strictly is the list of entries of the table made of it: each
entry goes to the end of those before it.
-/

namespace PluralForms.Table

variable {κ α : Type} [Ord κ]

/-- A key beyond all others goes to the end. -/
theorem insertEntry_of_forall_lt [Std.TransOrd κ] {k : κ} {v : α} {l : List (κ × α)}
    (h : ∀ e ∈ l, compare e.1 k = .lt) : insertEntry k v l = l ++ [(k, v)] := by
  induction l with
  | nil => rfl
  | cons d l ih =>
    have hgt : compare k d.1 = .gt := Std.OrientedCmp.gt_of_lt (h d List.mem_cons_self)
    rw [insertEntry, hgt]
    exact congrArg (d :: ·) (ih fun e he ↦ h e (List.mem_cons_of_mem _ he))

variable [Std.TransOrd κ] [Std.LawfulEqOrd κ]

/-- Entries that come in the order of their keys are put at the end one after the other. -/
theorem entries_foldl_insert {l : List (κ × α)} {t : Table κ α}
    (h : (t.entries ++ l).Pairwise fun a b ↦ compare a.1 b.1 = .lt) :
    (l.foldl (fun t e ↦ t.insert e.1 e.2) t).entries = t.entries ++ l := by
  induction l generalizing t with
  | nil => simp
  | cons e l ih =>
    have hlast : (t.insert e.1 e.2).entries = t.entries ++ [e] :=
      insertEntry_of_forall_lt fun d hd ↦ (List.pairwise_append.1 h).2.2 d hd e List.mem_cons_self
    have happend : t.entries ++ e :: l = (t.insert e.1 e.2).entries ++ l := by
      rw [hlast, List.append_assoc, List.singleton_append]
    rw [List.foldl_cons, happend]
    exact ih (happend ▸ h)

/-- **An ordered list makes a table with just its entries.** -/
theorem entries_ofList {l : List (κ × α)}
    (h : l.Pairwise fun a b ↦ compare a.1 b.1 = .lt) : (ofList l).entries = l :=
  entries_foldl_insert (t := empty) h

end PluralForms.Table
