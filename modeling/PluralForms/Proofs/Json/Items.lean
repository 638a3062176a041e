import PluralForms.Proofs.Json.Scalars

/-!
# Items between brackets

Elements and members are read by loops of one shape: an item, then a comma and the rest of the
items, or the closing bracket. What such a loop does with a whole list follows from what it does
with one item (`TakesItem`), be the commas between the items (`loop_intercalate`) or one after each
of them (`loop_terminated`).

The readers are blind to white space, so it is left open here how much of it there is.
-/

namespace PluralForms.Json

/-! ### White space -/

/-- Nothing but white space. -/
def IsGap (gap : List Char) : Prop :=
  ∀ c ∈ gap, isSpace c = true

theorem isGap_nil : IsGap [] :=
  List.forall_mem_nil _

theorem isGap_space : IsGap [' '] := by
  simp [IsGap, isSpace]

/-- The end of a line and the indentation of the next. -/
theorem isGap_lineBreak (n : Nat) : IsGap ('\n' :: List.replicate n ' ') := by
  intro c hc
  rcases List.mem_cons.1 hc with rfl | hspace
  · rfl
  · rw [List.eq_of_mem_replicate hspace]
    rfl

/-- White space is skipped, and as much of it as there is. -/
theorem skipSpace_append {gap : List Char} (h : IsGap gap) (cs : List Char) :
    skipSpace (gap ++ cs) = skipSpace cs :=
  List.dropWhile_append_of_pos h

theorem skipSpace_cons {c : Char} (h : isSpace c = false) (cs : List Char) :
    skipSpace (c :: cs) = c :: cs :=
  List.dropWhile_cons_of_neg (by simp [h])

/-- White space in front of a sign does not go on with a number. -/
theorem IsGap.ends_append {gap rest : List Char} (h : IsGap gap) (hrest : Ends rest) :
    Ends (gap ++ rest) := by
  rcases gap with _ | ⟨c, gap⟩
  · exact hrest
  · have hc := h c List.mem_cons_self
    refine ends_cons _ (Bool.eq_false_iff.2 fun hmore ↦ ?_)
    simp only [isSpace, Bool.or_eq_true, beq_iff_eq] at hc hmore
    rcases hc with ((rfl | rfl) | rfl) | rfl <;> exact absurd hmore (by decide)

/-! ### Loops over items -/

section Loops

variable {ι α : Type} {loop : Nat → List Char → Option (List α × List Char)} {closing : Char}
  {item : ι → α} {form : ι → List Char} {gap trail : List Char}

/-- The loop reads the item from the text, be it the last or not. -/
structure TakesItem (loop : Nat → List Char → Option (List α × List Char)) (closing : Char)
    (item : α) (text : List Char) : Prop where
  starts : ∃ c cs, text = c :: cs ∧ isSpace c = false ∧ c ≠ closing
  last : ∀ {trail : List Char}, IsGap trail → ∀ bound rest,
    loop (bound + 1) (text ++ (trail ++ closing :: rest)) = some ([item], rest)
  next : ∀ bound more, loop (bound + 1) (text ++ ',' :: more) =
    (loop bound more).map fun p ↦ (item :: p.1, p.2)

theorem TakesItem.ne_nil {item : α} {text : List Char} (h : TakesItem loop closing item text) :
    text ≠ [] := by
  obtain ⟨c, cs, rfl, -⟩ := h.starts
  exact List.cons_ne_nil c cs

/-- There are no more items than characters, so the length of the text bounds the reading. -/
theorem length_le_length_intercalate {xs : List ι} (h : ∀ x ∈ xs, form x ≠ [])
    (sep : List Char) : xs.length ≤ (sep.intercalate (xs.map form)).length := by
  induction xs with
  | nil => exact Nat.zero_le _
  | cons x xs ih =>
    obtain ⟨hx, hxs⟩ := List.forall_mem_cons.1 h
    have hone := List.length_pos_iff.2 hx
    have hrest := ih hxs
    cases xs with
    | nil =>
      rw [List.map_singleton, List.intercalate_singleton]
      exact hone
    | cons x' xs =>
      rw [List.map_cons, List.map_cons, List.intercalate_cons_cons, List.length_append,
        List.length_append, List.length_cons, ← List.map_cons]
      omega

/-- **Items with commas between them are read one after the other**, up to the closing bracket. -/
theorem loop_intercalate {xs : List ι} (h : ∀ x ∈ xs, TakesItem loop closing (item x) (form x))
    (hloop : ∀ bound cs, loop bound (gap ++ cs) = loop bound cs) (hne : xs ≠ [])
    (htrail : IsGap trail) {bound : Nat} (hbound : xs.length ≤ bound) (rest : List Char) :
    loop bound ((',' :: gap).intercalate (xs.map form) ++ (trail ++ closing :: rest)) =
      some (xs.map item, rest) := by
  induction xs generalizing bound with
  | nil => exact absurd rfl hne
  | cons x xs ih =>
    obtain ⟨bound, rfl⟩ := Nat.exists_eq_add_one_of_ne_zero (Nat.ne_zero_of_lt hbound)
    obtain ⟨hx, hxs⟩ := List.forall_mem_cons.1 h
    cases xs with
    | nil =>
      rw [List.map_singleton, List.intercalate_singleton]
      exact hx.last htrail bound rest
    | cons x' xs =>
      rw [List.map_cons, List.map_cons, List.intercalate_cons_cons, List.append_assoc,
        List.append_assoc, List.cons_append, hx.next, hloop, ← List.map_cons,
        ih hxs (List.cons_ne_nil _ _) (Nat.le_of_succ_le_succ hbound)]
      rfl

/-- **Items that all have a comma after them are read one after the other**, if the loop takes the
closing bracket in place of an item. -/
theorem loop_terminated {xs : List ι} (h : ∀ x ∈ xs, TakesItem loop closing (item x) (form x))
    (hloop : ∀ bound cs, loop bound (gap ++ cs) = loop bound cs) {rest : List Char}
    (hclose : ∀ bound, loop (bound + 1) (trail ++ closing :: rest) = some ([], rest)) {bound : Nat}
    (hbound : xs.length < bound) :
    loop bound (xs.flatMap (fun x ↦ gap ++ (form x ++ [','])) ++ (trail ++ closing :: rest)) =
      some (xs.map item, rest) := by
  induction xs generalizing bound with
  | nil =>
    obtain ⟨bound, rfl⟩ := Nat.exists_eq_add_one_of_ne_zero (Nat.ne_zero_of_lt hbound)
    exact hclose bound
  | cons x xs ih =>
    obtain ⟨bound, rfl⟩ := Nat.exists_eq_add_one_of_ne_zero (Nat.ne_zero_of_lt hbound)
    obtain ⟨hx, hxs⟩ := List.forall_mem_cons.1 h
    rw [List.flatMap_cons, List.append_assoc, List.append_assoc, hloop, List.append_assoc,
      List.singleton_append, hx.next, ih hxs (Nat.lt_of_succ_lt_succ hbound)]
    rfl

end Loops

end PluralForms.Json
