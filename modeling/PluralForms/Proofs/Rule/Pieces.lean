import PluralForms.Rule
import PluralForms.Proofs.Text.Cut
import Mathlib.Data.List.Forall2

/-!
# The pieces of a rule

A rule is read by words: its words are cut at the word `or`, and each piece at the word `and`. This
file ties the cutting of words to texts. Cutting is the inverse of joining
(`cutAtWord_intercalate`, `intercalate_cutAtWord`). Pieces of words that stand apart are pieces of
the text, with the separator and blanks between them (`apart_intercalate_of_joined`,
`exists_joined_of_apart`). And in a text whose words stand one blank apart, the words are cut where
the text is cut at the separator between blanks (`cut_unwords`).
-/

namespace PluralForms.Rule

open Text

variable {sep : List Char}

/-- The texts stand in the text with a word between any two, and blanks on both sides of it. -/
inductive Joined (sep : List Char) : List (List Char) → List Char → Prop
  | single (t : List Char) : Joined sep [t] t
  | cons (t : List Char) {gap gap' cs : List Char} {ts : List (List Char)} (hgap : Blank gap)
      (hne : gap ≠ []) (hgap' : Blank gap') (hne' : gap' ≠ []) (h : Joined sep ts cs) :
      Joined sep (t :: ts) (t ++ gap ++ (sep ++ gap' ++ cs))

/-! ### Cutting and joining words -/

theorem intercalate_cons {pieces : List (List (List Char))} (hne : pieces ≠ [])
    (ws : List (List Char)) :
    [sep].intercalate (ws :: pieces) = ws ++ sep :: [sep].intercalate pieces := by
  rw [List.intercalate_cons_of_ne_nil hne, List.append_assoc]
  rfl

theorem intercalate_ne_nil {ws : List (List Char)} (hne : ws ≠ [])
    (pieces : List (List (List Char))) : [sep].intercalate (ws :: pieces) ≠ [] := by
  cases pieces with
  | nil => simpa using hne
  | cons vs pieces =>
    rw [intercalate_cons (List.cons_ne_nil _ _)]
    simp

theorem mem_intercalate {pieces : List (List (List Char))} {w : List Char}
    (h : w ∈ [sep].intercalate pieces) : w = sep ∨ ∃ ws ∈ pieces, w ∈ ws := by
  induction pieces with
  | nil => cases h
  | cons ws pieces ih =>
    by_cases hnil : pieces = []
    · subst hnil
      rw [List.intercalate_singleton] at h
      exact .inr ⟨ws, List.mem_cons_self, h⟩
    · rw [intercalate_cons hnil] at h
      rcases List.mem_append.1 h with h | h
      · exact .inr ⟨ws, List.mem_cons_self, h⟩
      · rcases List.mem_cons.1 h with rfl | h
        · exact .inl rfl
        · refine (ih h).imp_right ?_
          rintro ⟨vs, hvs, h⟩
          exact ⟨vs, List.mem_cons_of_mem _ hvs, h⟩

theorem mem_intercalate_of_mem {pieces : List (List (List Char))} {ws : List (List Char)}
    (hws : ws ∈ pieces) {w : List Char} (hw : w ∈ ws) : w ∈ [sep].intercalate pieces := by
  induction pieces with
  | nil => cases hws
  | cons vs pieces ih =>
    by_cases hnil : pieces = []
    · subst hnil
      rw [List.intercalate_singleton, ← List.mem_singleton.1 hws]
      exact hw
    · rw [intercalate_cons hnil]
      rcases List.mem_cons.1 hws with rfl | hws
      · exact List.mem_append_left _ hw
      · exact List.mem_append_right _ (List.mem_cons_of_mem _ (ih hws))

theorem intercalate_consWord {pieces : List (List (List Char))} (hne : pieces ≠ [])
    (w : List Char) : [sep].intercalate (consWord w pieces) = w :: [sep].intercalate pieces := by
  obtain ⟨piece, pieces, rfl⟩ := List.exists_cons_of_ne_nil hne
  cases pieces <;> simp [consWord, List.intercalate_cons_cons]

theorem cutAtWord_ne_nil (sep : List Char) (ws : List (List Char)) : cutAtWord sep ws ≠ [] := by
  fun_induction cutAtWord sep ws with
  | case4 w s rest hsep ih =>
    obtain ⟨piece, pieces, hpieces⟩ := List.exists_cons_of_ne_nil ih
    rw [hpieces]
    exact List.cons_ne_nil _ _
  | _ => exact List.cons_ne_nil _ _

theorem cutAtWord_of_notMem {ws : List (List Char)} (h : sep ∉ ws) : cutAtWord sep ws = [ws] := by
  fun_induction cutAtWord sep ws with
  | case1 => rfl
  | case2 => rfl
  | case3 w rest hsep => simp_all
  | case4 w s rest hsep ih =>
    obtain ⟨-, htail⟩ : sep ≠ w ∧ sep ∉ s :: rest := by simpa using h
    rw [ih htail]
    rfl

/-- A separator after words that are none is where the first cut is made. -/
theorem cutAtWord_append_cons {ws rest : List (List Char)} (hne : ws ≠ []) (h : sep ∉ ws)
    (hrest : rest ≠ []) : cutAtWord sep (ws ++ sep :: rest) = ws :: cutAtWord sep rest := by
  induction ws with
  | nil => exact absurd rfl hne
  | cons w ws ih =>
    obtain ⟨-, htail⟩ : sep ≠ w ∧ sep ∉ ws := by simpa using h
    match ws, ih, htail with
    | [], _, _ => rw [List.singleton_append, cutAtWord, if_pos ⟨rfl, hrest⟩]
    | s :: ws, ih, htail =>
      have hs : ¬(s = sep ∧ ws ++ sep :: rest ≠ []) := fun hs ↦ htail (by simp [hs.1])
      have ih := ih (List.cons_ne_nil _ _) htail
      rw [List.cons_append] at ih
      rw [List.cons_append, List.cons_append, cutAtWord, if_neg hs, ih]
      rfl

/-- **Cutting undoes joining**, when no piece is empty or holds the separator. -/
theorem cutAtWord_intercalate {wss : List (List (List Char))} (hne : wss ≠ [])
    (h : ∀ ws ∈ wss, ws ≠ [] ∧ sep ∉ ws) : cutAtWord sep ([sep].intercalate wss) = wss := by
  induction wss with
  | nil => exact absurd rfl hne
  | cons ws wss ih =>
    obtain ⟨⟨hws, hsep⟩, htail⟩ := List.forall_mem_cons.1 h
    match wss, ih, htail with
    | [], _, _ => rw [List.intercalate_singleton, cutAtWord_of_notMem hsep]
    | vs :: wss, ih, htail =>
      have hrest : [sep].intercalate (vs :: wss) ≠ [] :=
        intercalate_ne_nil (htail vs List.mem_cons_self).1 wss
      rw [intercalate_cons (List.cons_ne_nil _ _), cutAtWord_append_cons hws hsep hrest,
        ih (List.cons_ne_nil _ _) htail]

/-- **Joining undoes cutting.** -/
theorem intercalate_cutAtWord (sep : List Char) (ws : List (List Char)) :
    [sep].intercalate (cutAtWord sep ws) = ws := by
  fun_induction cutAtWord sep ws with
  | case1 => rfl
  | case2 => rfl
  | case3 w s rest hsep ih =>
    rw [intercalate_cons (cutAtWord_ne_nil sep rest), ih, hsep.1]
    rfl
  | case4 w s rest hsep ih => rw [intercalate_consWord (cutAtWord_ne_nil sep _), ih]

theorem ne_nil_of_mem_cutAtWord {ws piece : List (List Char)} (hne : ws ≠ [])
    (h : piece ∈ cutAtWord sep ws) : piece ≠ [] := by
  fun_induction cutAtWord sep ws with
  | case1 => exact absurd rfl hne
  | case2 w =>
    obtain rfl := List.mem_singleton.1 h
    exact List.cons_ne_nil _ _
  | case3 w s rest hsep ih =>
    rcases List.mem_cons.1 h with rfl | h
    · exact List.cons_ne_nil _ _
    · exact ih hsep.2 h
  | case4 w s rest hsep ih =>
    obtain ⟨first, pieces, hpieces⟩ := List.exists_cons_of_ne_nil (cutAtWord_ne_nil sep (s :: rest))
    rw [hpieces] at h ih
    rcases List.mem_cons.1 h with rfl | h
    · exact List.cons_ne_nil _ _
    · exact ih (List.cons_ne_nil _ _) (List.mem_cons_of_mem _ h)

/-- The words of the pieces are words of the whole. -/
theorem mem_of_mem_cutAtWord {ws piece : List (List Char)} (h : piece ∈ cutAtWord sep ws)
    {w : List Char} (hw : w ∈ piece) : w ∈ ws := by
  rw [← intercalate_cutAtWord sep ws]
  exact mem_intercalate_of_mem h hw

theorem mem_of_mem_pieces {ws piece : List (List Char)} {group : List (List (List Char))}
    (hgroup : group ∈ pieces ws) (hpiece : piece ∈ group) {w : List Char} (hw : w ∈ piece) :
    w ∈ ws := by
  obtain ⟨vs, hvs, rfl⟩ := List.mem_map.1 hgroup
  exact mem_of_mem_cutAtWord hvs (mem_of_mem_cutAtWord hpiece hw)

/-! ### Pieces of a text -/

/-- The characters of joined texts are theirs, those of the separator, and blanks. -/
theorem Joined.mem {texts : List (List Char)} {cs : List Char} (h : Joined sep texts cs) {c : Char}
    (hc : c ∈ cs) : isBlank c = true ∨ c ∈ sep ∨ ∃ t ∈ texts, c ∈ t := by
  induction h with
  | single t => exact .inr (.inr ⟨t, List.mem_cons_self, hc⟩)
  | cons t hgap _ hgap' _ _ ih =>
    rcases List.mem_append.1 hc with hc | hc
    · rcases List.mem_append.1 hc with hc | hc
      · exact .inr (.inr ⟨t, List.mem_cons_self, hc⟩)
      · exact .inl (hgap c hc)
    · rcases List.mem_append.1 hc with hc | hc
      · rcases List.mem_append.1 hc with hc | hc
        · exact .inr (.inl hc)
        · exact .inl (hgap' c hc)
      · refine (ih hc).imp_right (Or.imp_right ?_)
        rintro ⟨u, hu, hc⟩
        exact ⟨u, List.mem_cons_of_mem _ hu, hc⟩

theorem exists_joined (sep : List Char) {texts : List (List Char)} (hne : texts ≠ []) :
    ∃ cs, Joined sep texts cs := by
  induction texts with
  | nil => exact absurd rfl hne
  | cons t texts ih =>
    by_cases hnil : texts = []
    · subst hnil
      exact ⟨t, .single t⟩
    · obtain ⟨cs, hcs⟩ := ih hnil
      exact ⟨_, .cons t blank_space (List.cons_ne_nil _ _) blank_space (List.cons_ne_nil _ _) hcs⟩

theorem Joined.ne_nil {texts : List (List Char)} {cs : List Char} (h : Joined sep texts cs) :
    texts ≠ [] := by
  cases h <;> exact List.cons_ne_nil _ _

/-- **Joined words are the words of joined texts.** -/
theorem apart_intercalate_of_joined (hsep : IsWord sep) {wss : List (List (List Char))}
    {texts : List (List Char)} {cs : List Char} (h : Joined sep texts cs)
    (hwss : List.Forall₂ Apart wss texts) : Apart ([sep].intercalate wss) cs := by
  induction h generalizing wss with
  | single t =>
    obtain ⟨ws, wss, hws, hnil, rfl⟩ := List.forall₂_cons_right_iff.1 hwss
    obtain rfl := List.forall₂_nil_right_iff.1 hnil
    rwa [List.intercalate_singleton]
  | cons t hgap hne hgap' hne' h ih =>
    obtain ⟨ws, wss, hws, htail, rfl⟩ := List.forall₂_cons_right_iff.1 hwss
    have hrest := ih htail
    have hnonempty : wss ≠ [] := fun hnil ↦ hrest.ne_nil (by rw [hnil]; rfl)
    rw [intercalate_cons hnonempty]
    exact hws.append hgap hne (.cons hsep hgap' hne' hrest)

/-- **Texts of joined words are joined texts.** -/
theorem exists_joined_of_apart {wss : List (List (List Char))} (hne : wss ≠ [])
    (hwss : ∀ ws ∈ wss, ws ≠ []) {cs : List Char} (h : Apart ([sep].intercalate wss) cs) :
    ∃ texts, Joined sep texts cs ∧ List.Forall₂ Apart wss texts := by
  induction wss generalizing cs with
  | nil => exact absurd rfl hne
  | cons ws wss ih =>
    obtain ⟨hws, hwss⟩ := List.forall_mem_cons.1 hwss
    by_cases hnil : wss = []
    · subst hnil
      rw [List.intercalate_singleton] at h
      exact ⟨[cs], .single cs, .cons h .nil⟩
    · have hrest : [sep].intercalate wss ≠ [] := by
        obtain ⟨vs, wss, rfl⟩ := List.exists_cons_of_ne_nil hnil
        exact intercalate_ne_nil (hwss vs List.mem_cons_self) wss
      rw [intercalate_cons hnil] at h
      obtain ⟨t, gap, u, rfl, ht, hgap, hgapne, hu⟩ := h.exists_of_append hws (List.cons_ne_nil _ _)
      obtain ⟨s, gap', cs, rfl, hs, hgap', hgapne', hcs⟩ :=
        Apart.exists_of_append (List.singleton_append ▸ hu) (List.cons_ne_nil _ _) hrest
      obtain rfl := hs.eq_of_singleton
      obtain ⟨texts, hjoined, htexts⟩ := ih hnil hwss hcs
      exact ⟨t :: texts, .cons t hgap hgapne hgap' hgapne' hjoined, .cons ht htexts⟩

/-- A word in front of other words goes to their first piece, unless a separator follows it. -/
theorem cut_unwords_cons (hsep : IsWord sep) {w s : List Char} {rest piece : List (List Char)}
    {pieces : List (List Char)} (hws : ∀ v ∈ w :: s :: rest, IsWord v)
    (h : ¬(s = sep ∧ rest ≠ [])) (hpiece : piece ≠ [])
    (hcut : Cut (betweenBlanks sep) (unwords (s :: rest)) (unwords piece :: pieces)) :
    Cut (betweenBlanks sep) (unwords (w :: s :: rest)) (unwords (w :: piece) :: pieces) := by
  have htext := unwords_cons (List.cons_ne_nil s rest) w
  have htail : ∀ v ∈ s :: rest, IsWord v := fun v hv ↦ hws v (List.mem_cons_of_mem _ hv)
  have hprepend : Cut (betweenBlanks sep) ((w ++ [' ']) ++ unwords (s :: rest))
      (((w ++ [' ']) ++ unwords piece) :: pieces) := by
    refine hcut.prepend fun x y hxy ↦ ?_
    -- an occurrence in the whole is one in what follows the first word
    rw [List.append_assoc, List.singleton_append, ← htext] at hxy
    obtain ⟨us, vs, hus, hvs, hsplit, rfl, rfl⟩ := (unwords_eq_append_iff hws hsep).1 hxy
    obtain ⟨u, us, rfl⟩ := List.exists_cons_of_ne_nil hus
    obtain ⟨rfl, hrest⟩ := List.cons.inj hsplit
    have hne : us ≠ [] := by
      rintro rfl
      obtain ⟨hs, hvs'⟩ := List.cons.inj hrest
      exact h ⟨hs, hvs' ▸ hvs⟩
    refine ⟨unwords us, by rw [unwords_cons hne]; simp, ?_⟩
    exact (unwords_eq_append_iff htail hsep).2 ⟨us, vs, hne, hvs, hrest, rfl, rfl⟩
  rw [unwords_cons hpiece, htext]
  simpa using hprepend

/-- **Words one blank apart are cut where their text is cut** at the separator between blanks. -/
theorem cut_unwords (hsep : IsWord sep) {ws : List (List Char)} (hws : ∀ w ∈ ws, IsWord w) :
    Cut (betweenBlanks sep) (unwords ws) ((cutAtWord sep ws).map unwords) := by
  fun_induction cutAtWord sep ws with
  | case1 => exact .last fun x y h ↦ by simp [unwords, betweenBlanks] at h
  | case2 w =>
    refine .last fun x y h ↦ ?_
    obtain ⟨us, vs, hus, hvs, hsplit, -⟩ := (unwords_eq_append_iff hws hsep).1 h
    have hlength := congrArg List.length hsplit
    have := List.length_pos_of_ne_nil hus
    simp at hlength
    omega
  | case3 w s rest h ih =>
    obtain ⟨rfl, hrest⟩ := h
    have htail : ∀ w ∈ rest, IsWord w := fun v hv ↦ hws v (by simp [hv])
    have htext : unwords (w :: s :: rest) = unwords [w] ++ betweenBlanks s ++ unwords rest := by
      rw [unwords_eq_append_iff hws hsep]
      exact ⟨[w], rest, List.cons_ne_nil _ _, hrest, rfl, rfl, rfl⟩
    rw [htext, List.map_cons]
    refine .cons (fun x y h ↦ ?_) (ih htail)
    -- every occurrence comes after the first word
    obtain ⟨us, vs, hus, -, hsplit, rfl, -⟩ := (unwords_eq_append_iff hws hsep).1 (htext.trans h)
    obtain ⟨u, us, rfl⟩ := List.exists_cons_of_ne_nil hus
    obtain ⟨rfl, -⟩ := List.cons.inj hsplit
    rw [unwords_singleton]
    exact length_le_length_unwords w us
  | case4 w s rest h ih =>
    obtain ⟨piece, pieces, hpieces⟩ := List.exists_cons_of_ne_nil (cutAtWord_ne_nil sep (s :: rest))
    have hpiece : piece ≠ [] :=
      ne_nil_of_mem_cutAtWord (List.cons_ne_nil s rest) (hpieces ▸ List.mem_cons_self)
    have hcut := ih fun v hv ↦ hws v (List.mem_cons_of_mem _ hv)
    rw [hpieces, List.map_cons] at hcut
    rw [hpieces, consWord, List.map_cons]
    exact cut_unwords_cons hsep hws h hpiece hcut

end PluralForms.Rule
