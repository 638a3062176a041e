import PluralForms.Proofs.Text.Words

/-!
# Cutting a text at a separator

A text is cut at the places where a separator occurs, taken from left to right and without overlap
(`Cut`). When the separator is a word between blanks and the words of the text stand one blank
apart, an occurrence of the separator is an occurrence of its word among the words of the text,
neither first nor last (`unwords_eq_append_iff`).
-/

namespace PluralForms.Text

/-- The pieces of a text between the occurrences of the separator. Each cut is made at the first
occurrence in what is left of the text. -/
inductive Cut (sep : List Char) : List Char → List (List Char) → Prop
  | last {cs : List Char} (h : ∀ x y, cs ≠ x ++ sep ++ y) : Cut sep cs [cs]
  | cons {piece cs : List Char} {pieces : List (List Char)}
      (hfirst : ∀ x y, piece ++ sep ++ cs = x ++ sep ++ y → piece.length ≤ x.length)
      (h : Cut sep cs pieces) : Cut sep (piece ++ sep ++ cs) (piece :: pieces)

/-- **A text is cut in one way only.** -/
theorem Cut.unique {sep cs : List Char} {pieces pieces' : List (List Char)}
    (h : Cut sep cs pieces) (h' : Cut sep cs pieces') : pieces = pieces' := by
  induction h generalizing pieces' with
  | last h =>
    cases h' with
    | last => rfl
    | cons => exact absurd rfl (h _ _)
  | @cons piece cs pieces hfirst _ ih =>
    generalize htext : piece ++ sep ++ cs = text at h'
    cases h' with
    | last h' => exact absurd htext.symm (h' _ _)
    | @cons piece' cs' pieces' hfirst' h' =>
      have hle := hfirst _ _ htext
      have hle' := hfirst' _ _ htext.symm
      rw [List.append_assoc, List.append_assoc] at htext
      obtain ⟨rfl, hrest⟩ := List.append_inj htext (Nat.le_antisymm hle hle')
      rw [List.append_cancel_left hrest] at ih
      rw [ih h']

/-- What stands in front of a text belongs to its first piece, if no occurrence of the separator
reaches into it. -/
theorem Cut.prepend {sep a cs piece : List Char} {pieces : List (List Char)}
    (h : Cut sep cs (piece :: pieces))
    (hlater : ∀ x y, a ++ cs = x ++ sep ++ y → ∃ x', x = a ++ x' ∧ cs = x' ++ sep ++ y) :
    Cut sep (a ++ cs) ((a ++ piece) :: pieces) := by
  cases h with
  | last h =>
    refine .last fun x y hxy ↦ ?_
    obtain ⟨x', -, hcs⟩ := hlater x y hxy
    exact h x' y hcs
  | @cons _ cs _ hfirst h =>
    rw [List.append_assoc, ← List.append_assoc a]
    refine List.append_assoc (a ++ piece) sep cs ▸ .cons (fun x y hxy ↦ ?_) h
    obtain ⟨x', rfl, hcs⟩ := hlater x y (by rw [← hxy]; simp)
    have hle := hfirst x' y hcs
    rw [List.length_append, List.length_append]
    omega

/-- A word between single blanks. -/
def betweenBlanks (w : List Char) : List Char :=
  ' ' :: w ++ [' ']

theorem unwords_singleton (w : List Char) : unwords [w] = w :=
  List.intercalate_singleton

theorem unwords_cons {ws : List (List Char)} (hne : ws ≠ []) (w : List Char) :
    unwords (w :: ws) = w ++ ' ' :: unwords ws := by
  rw [unwords, List.intercalate_cons_of_ne_nil hne, List.append_assoc]
  rfl

theorem mem_unwords {ws : List (List Char)} {c : Char} (h : c ∈ unwords ws) :
    c = ' ' ∨ ∃ w ∈ ws, c ∈ w := by
  induction ws with
  | nil => cases h
  | cons w ws ih =>
    by_cases hnil : ws = []
    · rw [hnil, unwords_singleton] at h
      exact .inr ⟨w, List.mem_cons_self, h⟩
    · rw [unwords_cons hnil, List.mem_append, List.mem_cons] at h
      rcases h with h | h | h
      · exact .inr ⟨w, List.mem_cons_self, h⟩
      · exact .inl h
      · refine (ih h).imp_right ?_
        rintro ⟨u, hu, hc⟩
        exact ⟨u, List.mem_cons_of_mem _ hu, hc⟩

theorem length_le_length_unwords (w : List Char) (ws : List (List Char)) :
    w.length ≤ (unwords (w :: ws)).length := by
  by_cases hnil : ws = []
  · have hlength := congrArg List.length (unwords_singleton w)
    rw [hnil]
    exact Nat.le_of_eq hlength.symm
  · rw [unwords_cons hnil, List.length_append]
    exact Nat.le_add_right _ _

/-- Words in two parts have one blank between the parts. -/
theorem unwords_append {us vs : List (List Char)} (hus : us ≠ []) (hvs : vs ≠ []) :
    unwords (us ++ vs) = unwords us ++ ' ' :: unwords vs := by
  induction us with
  | nil => exact absurd rfl hus
  | cons u us ih =>
    by_cases hnil : us = []
    · rw [hnil, List.singleton_append, unwords_cons hvs, unwords_singleton]
    · have hne : us ++ vs ≠ [] := List.append_ne_nil_of_left_ne_nil hnil vs
      rw [List.cons_append, unwords_cons hne, ih hnil, unwords_cons hnil]
      simp

theorem IsWord.space_notMem {w : List Char} (h : IsWord w) : ' ' ∉ w :=
  fun hmem ↦ absurd (h.not_blank _ hmem) (by decide)

/-- Two texts that are the same up to a first blank and beyond it. -/
theorem append_space_inj {w w' s t : List Char} (hw : ' ' ∉ w) (hw' : ' ' ∉ w')
    (h : w ++ ' ' :: s = w' ++ ' ' :: t) : w = w' ∧ s = t := by
  rcases List.append_eq_append_iff.1 h with ⟨m, rfl, hm⟩ | ⟨m, rfl, hm⟩
  · cases m with
    | nil => exact ⟨by simp, by simpa using hm⟩
    | cons c m =>
      obtain ⟨rfl, -⟩ := List.cons.inj hm
      exact absurd (List.mem_append_right _ List.mem_cons_self) hw'
  · cases m with
    | nil => exact ⟨by simp, by simpa using hm.symm⟩
    | cons c m =>
      obtain ⟨rfl, -⟩ := List.cons.inj hm
      exact absurd (List.mem_append_right _ List.mem_cons_self) hw

/-- Words that start with a word and a blank start with the word. -/
theorem exists_of_unwords_eq_append {ws : List (List Char)} (hws : ∀ w ∈ ws, IsWord w)
    {sep y : List Char} (hsep : ' ' ∉ sep) (h : unwords ws = sep ++ ' ' :: y) :
    ∃ vs, vs ≠ [] ∧ ws = sep :: vs ∧ y = unwords vs := by
  match ws, hws, h with
  | [], _, h => simp [unwords] at h
  | [w], hws, h =>
    rw [unwords_singleton] at h
    have hmem : ' ' ∈ w := h ▸ List.mem_append_right _ List.mem_cons_self
    exact absurd hmem (hws w List.mem_cons_self).space_notMem
  | w :: v :: vs, hws, h =>
    rw [unwords_cons (List.cons_ne_nil v vs)] at h
    obtain ⟨rfl, hy⟩ := append_space_inj (hws w List.mem_cons_self).space_notMem hsep h
    exact ⟨v :: vs, List.cons_ne_nil _ _, rfl, hy.symm⟩

theorem betweenBlanks_append (x sep y : List Char) :
    x ++ betweenBlanks sep ++ y = x ++ ' ' :: (sep ++ ' ' :: y) := by
  simp [betweenBlanks]

/-- Where a word between blanks occurs, it is one of the words. -/
theorem exists_of_unwords_eq_append_space {ws : List (List Char)} (hws : ∀ w ∈ ws, IsWord w)
    {sep x y : List Char} (hsep : ' ' ∉ sep) (h : unwords ws = x ++ ' ' :: (sep ++ ' ' :: y)) :
    ∃ us vs, us ≠ [] ∧ vs ≠ [] ∧ ws = us ++ sep :: vs ∧ x = unwords us ∧ y = unwords vs := by
  induction ws generalizing x with
  | nil => simp [unwords] at h
  | cons w ws ih =>
    obtain ⟨hw, htail⟩ := List.forall_mem_cons.1 hws
    by_cases hnil : ws = []
    · rw [hnil, unwords_singleton] at h
      have hmem : ' ' ∈ w := h ▸ List.mem_append_right _ List.mem_cons_self
      exact absurd hmem hw.space_notMem
    rw [unwords_cons hnil] at h
    -- the first word either is all that stands before the occurrence, or more words do
    by_cases hx : ' ' ∈ x
    · obtain ⟨a, x, rfl, ha⟩ := List.eq_append_cons_of_mem hx
      rw [List.append_assoc, List.cons_append] at h
      obtain ⟨rfl, hrest⟩ := append_space_inj hw.space_notMem ha h
      obtain ⟨us, vs, hus, hvs, rfl, rfl, rfl⟩ := ih htail hrest
      exact ⟨w :: us, vs, List.cons_ne_nil _ _, hvs, rfl, (unwords_cons hus w).symm, rfl⟩
    · obtain ⟨rfl, hrest⟩ := append_space_inj hw.space_notMem hx h
      obtain ⟨vs, hvs, rfl, rfl⟩ := exists_of_unwords_eq_append htail hsep hrest
      exact ⟨[w], vs, List.cons_ne_nil _ _, hvs, rfl, (unwords_singleton w).symm, rfl⟩

/-- **A separator between blanks is a word among the words.** -/
theorem unwords_eq_append_iff {ws : List (List Char)} (hws : ∀ w ∈ ws, IsWord w)
    {sep : List Char} (hsep : IsWord sep) {x y : List Char} :
    unwords ws = x ++ betweenBlanks sep ++ y ↔
      ∃ us vs, us ≠ [] ∧ vs ≠ [] ∧ ws = us ++ sep :: vs ∧ x = unwords us ∧ y = unwords vs := by
  rw [betweenBlanks_append]
  refine ⟨exists_of_unwords_eq_append_space hws hsep.space_notMem, ?_⟩
  rintro ⟨us, vs, hus, hvs, rfl, rfl, rfl⟩
  rw [unwords_append hus (List.cons_ne_nil _ _), unwords_cons hvs]

end PluralForms.Text
