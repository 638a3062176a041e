import PluralForms.Text.Blank

/-!
# Words and the blanks between them

Two ways for texts to stand in a text. Words stand **apart** when there is a blank or more between
any two neighbours (`Apart`); this is how words stand in every text, once the blanks at its ends are
taken away (`exists_apart`), and it determines the words (`Apart.words_eq`). Parts are **spaced**
when there may be blanks between neighbours or not (`Spaced`).

Whether parts are spaced in a text depends on the words of the text alone (`Spaced.of_apart`): each
word is a run of parts with nothing in between. So nothing is lost when the blanks of a text are
collapsed.
-/

namespace PluralForms.Text

/-- All characters are blank. -/
def Blank (cs : List Char) : Prop :=
  ∀ c ∈ cs, isBlank c = true

/-- Not empty, and without a blank. -/
structure IsWord (w : List Char) : Prop where
  ne_nil : w ≠ []
  not_blank : ∀ c ∈ w, isBlank c = false

theorem isWord_of_any_eq_false {w : List Char} (hne : w ≠ []) (h : w.any isBlank = false) :
    IsWord w :=
  ⟨hne, fun c hc ↦ Bool.eq_false_iff.2 (List.any_eq_false.1 h c hc)⟩

/-- The words stand in the text with at least one blank between any two. -/
inductive Apart : List (List Char) → List Char → Prop
  | single {w : List Char} (hw : IsWord w) : Apart [w] w
  | cons {w gap cs : List Char} {ws : List (List Char)} (hw : IsWord w) (hgap : Blank gap)
      (hne : gap ≠ []) (h : Apart ws cs) : Apart (w :: ws) (w ++ gap ++ cs)

/-- The parts stand in the text with blanks or nothing between any two. -/
inductive Spaced : List (List Char) → List Char → Prop
  | single (p : List Char) : Spaced [p] p
  | cons (p : List Char) {gap cs : List Char} {ps : List (List Char)} (hgap : Blank gap)
      (h : Spaced ps cs) : Spaced (p :: ps) (p ++ gap ++ cs)

theorem blank_nil : Blank [] :=
  nofun

theorem blank_space : Blank [' '] :=
  List.forall_mem_singleton.2 (by decide)

theorem blank_cons {c : Char} {cs : List Char} : Blank (c :: cs) ↔ isBlank c = true ∧ Blank cs :=
  List.forall_mem_cons

theorem Blank.append {b b' : List Char} (h : Blank b) (h' : Blank b') : Blank (b ++ b') :=
  fun _ hc ↦ (List.mem_append.1 hc).elim (h _) (h' _)

/-- A text that does not end in a blank has no blanks at its end. -/
theorem eq_nil_of_blank_end {s b : List Char} (hb : Blank b)
    (hend : ∀ c ∈ (s ++ b).getLast?, isBlank c = false) : b = [] := by
  by_cases hne : b = []
  · exact hne
  · have hlast : b.getLast hne ∈ (s ++ b).getLast? := by
      simp [List.getLast?_append, List.getLast?_eq_some_getLast hne]
    have hblank := hb _ (List.getLast_mem hne)
    simp [hend _ hlast] at hblank

/-! ### The words of a text -/

/-- **Words split at a blank.** -/
theorem words_append_cons_blank {c : Char} (hc : isBlank c = true) (x y : List Char) :
    words (x ++ c :: y) = words x ++ words y := by
  rw [words, List.splitOnP_append_cons x y hc, List.filter_append]
  rfl

/-- A gap separates the words on its two sides. -/
theorem words_append_gap {gap : List Char} (hgap : Blank gap) (hne : gap ≠ []) (x y : List Char) :
    words (x ++ gap ++ y) = words x ++ words y := by
  induction gap generalizing x with
  | nil => exact absurd rfl hne
  | cons c gap ih =>
    obtain ⟨hc, hgap⟩ := blank_cons.1 hgap
    rw [List.append_assoc, List.cons_append, words_append_cons_blank hc]
    by_cases hnil : gap = []
    · rw [hnil, List.nil_append]
    · have hrest := ih hgap hnil []
      rw [List.nil_append] at hrest
      rw [hrest]
      rfl

theorem words_of_blank {b : List Char} (h : Blank b) : words b = [] := by
  by_cases hne : b = []
  · rw [hne]
    rfl
  · have hwords := words_append_gap h hne [] []
    rw [List.nil_append, List.append_nil] at hwords
    rw [hwords]
    rfl

theorem IsWord.words_eq {w : List Char} (h : IsWord w) : words w = [w] := by
  rw [words, List.splitOnP_eq_singleton h.not_blank]
  simp [h.ne_nil]

/-- Blanks at the ends belong to no word. -/
theorem words_between {b b' : List Char} (hb : Blank b) (hb' : Blank b') (cs : List Char) :
    words (b ++ cs ++ b') = words cs := by
  have hleft : words (b ++ cs) = words cs := by
    by_cases hne : b = []
    · rw [hne, List.nil_append]
    · have hwords := words_append_gap hb hne [] cs
      rwa [List.nil_append] at hwords
  by_cases hne : b' = []
  · rw [hne, List.append_nil, hleft]
  · have hwords := words_append_gap hb' hne (b ++ cs) []
    rw [List.append_nil, hleft] at hwords
    rw [hwords]
    exact List.append_nil _

/-! ### Words that stand apart -/

/-- **Words that stand apart are the words of the text.** -/
theorem Apart.words_eq {ws : List (List Char)} {cs : List Char} (h : Apart ws cs) :
    words cs = ws := by
  induction h with
  | single hw => exact hw.words_eq
  | cons hw hgap hne _ ih => rw [words_append_gap hgap hne, hw.words_eq, ih, List.singleton_append]

theorem Apart.isWord {ws : List (List Char)} {cs : List Char} (h : Apart ws cs) :
    ∀ w ∈ ws, IsWord w := by
  induction h with
  | single hw => simpa using hw
  | cons hw _ _ _ ih => exact List.forall_mem_cons.2 ⟨hw, ih⟩

theorem Apart.ne_nil {ws : List (List Char)} {cs : List Char} (h : Apart ws cs) : ws ≠ [] := by
  cases h <;> exact List.cons_ne_nil _ _

theorem Apart.eq_of_singleton {w cs : List Char} (h : Apart [w] cs) : cs = w := by
  cases h with
  | single => rfl
  | cons _ _ _ h => exact absurd rfl h.ne_nil

theorem Apart.text_ne_nil {ws : List (List Char)} {cs : List Char} (h : Apart ws cs) :
    cs ≠ [] := by
  cases h with
  | single hw => exact hw.ne_nil
  | cons hw => simp [hw.ne_nil]

/-- Every character of a word is in the text. -/
theorem Apart.mem_of_mem_word {ws : List (List Char)} {cs w : List Char} (h : Apart ws cs)
    (hw : w ∈ ws) {c : Char} (hc : c ∈ w) : c ∈ cs := by
  induction h with
  | single => exact List.mem_singleton.1 hw ▸ hc
  | cons _ _ _ _ ih =>
    rcases List.mem_cons.1 hw with rfl | hw
    · exact List.mem_append_left _ (List.mem_append_left _ hc)
    · exact List.mem_append_right _ (ih hw)

theorem Apart.not_blank_head? {ws : List (List Char)} {cs : List Char} (h : Apart ws cs) :
    ∀ c ∈ cs.head?, isBlank c = false := by
  cases h with
  | single hw => exact fun c hc ↦ hw.not_blank c (List.mem_of_mem_head? hc)
  | @cons w gap cs ws hw =>
    intro c hc
    obtain ⟨d, w, rfl⟩ := List.exists_cons_of_ne_nil hw.ne_nil
    exact hw.not_blank c (Option.some.inj hc ▸ List.mem_cons_self)

theorem Apart.not_blank_getLast? {ws : List (List Char)} {cs : List Char} (h : Apart ws cs) :
    ∀ c ∈ cs.getLast?, isBlank c = false := by
  induction h with
  | single hw => exact fun c hc ↦ hw.not_blank c (List.mem_of_getLast? hc)
  | @cons w gap cs ws hw _ _ h ih =>
    have hlast := List.getLast?_eq_some_getLast h.text_ne_nil
    intro c hc
    rw [List.getLast?_append, hlast] at hc
    exact ih c (hlast ▸ hc)

/-- Text with nothing blank in it, put directly in front of words, goes to the first of them. -/
theorem Apart.prepend {p w : List Char} {ws : List (List Char)} {cs : List Char}
    (hp : IsWord p) (h : Apart (w :: ws) cs) : Apart ((p ++ w) :: ws) (p ++ cs) := by
  have happend : ∀ {w}, IsWord w → IsWord (p ++ w) := fun hw ↦
    { ne_nil := List.append_ne_nil_of_left_ne_nil hp.ne_nil _
      not_blank := fun c hc ↦ (List.mem_append.1 hc).elim (hp.not_blank c) (hw.not_blank c) }
  cases h with
  | single hw => exact .single (happend hw)
  | cons hw hgap hne h =>
    have hcons := Apart.cons (happend hw) hgap hne h
    rwa [List.append_assoc p, List.append_assoc p] at hcons

/-- Texts with a gap between them have the words of both. -/
theorem Apart.append {ws us : List (List Char)} {s t gap : List Char} (hs : Apart ws s)
    (hgap : Blank gap) (hne : gap ≠ []) (ht : Apart us t) : Apart (ws ++ us) (s ++ gap ++ t) := by
  induction hs with
  | single hw => exact .cons hw hgap hne ht
  | cons hw hgap' hne' _ ih =>
    have hcons := Apart.cons hw hgap' hne' ih
    simpa using hcons

/-- Words that stand apart can be parted anywhere. -/
theorem Apart.exists_of_append {ws us : List (List Char)} {cs : List Char}
    (h : Apart (ws ++ us) cs) (hws : ws ≠ []) (hus : us ≠ []) :
    ∃ s gap t, cs = s ++ gap ++ t ∧ Apart ws s ∧ Blank gap ∧ gap ≠ [] ∧ Apart us t := by
  induction ws generalizing cs with
  | nil => exact absurd rfl hws
  | cons w ws ih =>
    rw [List.cons_append] at h
    generalize hrest : ws ++ us = rest at h
    cases h with
    | single => exact absurd (List.append_eq_nil_iff.1 hrest).2 hus
    | @cons _ gap cs _ hw hgap hne h =>
      subst hrest
      by_cases hnil : ws = []
      · subst hnil
        exact ⟨w, gap, cs, rfl, .single hw, hgap, hne, h⟩
      · obtain ⟨s, gap', t, rfl, hs, hgap', hne', ht⟩ := ih h hnil
        exact ⟨w ++ gap ++ s, gap', t, by simp, .cons hw hgap hne hs, hgap', hne', ht⟩

/-- **In every text the words stand apart**, with blanks at its ends, unless there is no word. -/
theorem exists_apart (cs : List Char) :
    Blank cs ∨ ∃ b core b', cs = b ++ core ++ b' ∧ Blank b ∧ Blank b' ∧ Apart (words cs) core := by
  suffices h : Blank cs ∨
      ∃ b core b' ws, cs = b ++ core ++ b' ∧ Blank b ∧ Blank b' ∧ Apart ws core by
    refine h.imp_right ?_
    rintro ⟨b, core, b', ws, rfl, hb, hb', hcore⟩
    exact ⟨b, core, b', rfl, hb, hb', by rwa [words_between hb hb', hcore.words_eq]⟩
  induction cs with
  | nil => exact .inl blank_nil
  | cons c cs ih =>
    cases hc : isBlank c with
    | true =>
      rcases ih with hblank | ⟨b, core, b', ws, rfl, hb, hb', hcore⟩
      · exact .inl (blank_cons.2 ⟨hc, hblank⟩)
      · exact .inr ⟨c :: b, core, b', ws, rfl, blank_cons.2 ⟨hc, hb⟩, hb', hcore⟩
    | false =>
      have hword : IsWord [c] := ⟨List.cons_ne_nil c [], by simpa using hc⟩
      rcases ih with hblank | ⟨b, core, b', ws, rfl, hb, hb', hcore⟩
      · exact .inr ⟨[], [c], cs, [[c]], rfl, blank_nil, hblank, .single hword⟩
      -- the character starts a word of its own exactly if a blank follows
      · by_cases hne : b = []
        · obtain ⟨w, ws, rfl⟩ := List.exists_cons_of_ne_nil hcore.ne_nil
          exact .inr ⟨[], c :: core, b', _, by simp [hne], blank_nil, hb', hcore.prepend hword⟩
        · exact .inr ⟨[], [c] ++ b ++ core, b', _, by simp, blank_nil, hb',
            .cons hword hb hne hcore⟩

theorem isWord_of_mem_words {cs w : List Char} (h : w ∈ words cs) : IsWord w := by
  rcases exists_apart cs with hblank | ⟨-, core, -, -, -, -, hcore⟩
  · rw [words_of_blank hblank] at h
    cases h
  · exact hcore.isWord w h

theorem mem_of_mem_words {cs w : List Char} (h : w ∈ words cs) {c : Char} (hc : c ∈ w) :
    c ∈ cs := by
  rcases exists_apart cs with hblank | ⟨b, core, b', hcs, -, -, hcore⟩
  · rw [words_of_blank hblank] at h
    cases h
  · rw [hcs]
    exact List.mem_append_left _ (List.mem_append_right _ (hcore.mem_of_mem_word h hc))

theorem apart_unwords {ws : List (List Char)} (hne : ws ≠ []) (h : ∀ w ∈ ws, IsWord w) :
    Apart ws (unwords ws) := by
  induction ws with
  | nil => exact absurd rfl hne
  | cons w ws ih =>
    obtain ⟨hw, hws⟩ := List.forall_mem_cons.1 h
    match ws, ih, hws with
    | [], _, _ => simpa [unwords] using Apart.single hw
    | u :: us, ih, hws =>
      rw [unwords, List.intercalate_cons_cons]
      exact .cons hw blank_space (List.cons_ne_nil _ _) (ih (List.cons_ne_nil _ _) hws)

theorem not_blank_getLast?_unwords {ws : List (List Char)} (h : ∀ w ∈ ws, IsWord w) :
    ∀ c ∈ (unwords ws).getLast?, isBlank c = false := by
  by_cases hne : ws = []
  · subst hne
    exact nofun
  · exact (apart_unwords hne h).not_blank_getLast?

/-! ### Spaced parts -/

theorem Spaced.ne_nil {ps : List (List Char)} {cs : List Char} (h : Spaced ps cs) : ps ≠ [] := by
  cases h <;> exact List.cons_ne_nil _ _

theorem Spaced.eq_of_singleton {p cs : List Char} (h : Spaced [p] cs) : cs = p := by
  cases h with
  | single => rfl
  | cons _ _ h => exact absurd rfl h.ne_nil

theorem Spaced.exists_of_cons {p cs : List Char} {ps : List (List Char)} (h : Spaced (p :: ps) cs)
    (hne : ps ≠ []) : ∃ gap rest, cs = p ++ gap ++ rest ∧ Blank gap ∧ Spaced ps rest := by
  cases h with
  | single => exact absurd rfl hne
  | cons _ hgap h => exact ⟨_, _, rfl, hgap, h⟩

/-- Spaced parts may be put behind each other, with or without blanks between them. -/
theorem Spaced.append {ps qs : List (List Char)} {s t gap : List Char} (hs : Spaced ps s)
    (hgap : Blank gap) (ht : Spaced qs t) : Spaced (ps ++ qs) (s ++ gap ++ t) := by
  induction hs with
  | single p => exact .cons p hgap ht
  | cons p hgap' _ ih =>
    have hcons := Spaced.cons p hgap' ih
    simpa using hcons

/-- The characters of a spaced text are those of its parts, and blanks. -/
theorem Spaced.mem {ps : List (List Char)} {cs : List Char} (h : Spaced ps cs) {c : Char}
    (hc : c ∈ cs) : isBlank c = true ∨ ∃ p ∈ ps, c ∈ p := by
  induction h with
  | single p => exact .inr ⟨p, List.mem_singleton_self p, hc⟩
  | cons p hgap _ ih =>
    rcases List.mem_append.1 hc with hc | hc
    · rcases List.mem_append.1 hc with hc | hc
      · exact .inr ⟨p, List.mem_cons_self, hc⟩
      · exact .inl (hgap c hc)
    · refine (ih hc).imp_right ?_
      rintro ⟨q, hq, hc⟩
      exact ⟨q, List.mem_cons_of_mem _ hq, hc⟩

/-- Parts with nothing between them are spaced. -/
theorem spaced_flatten {ps : List (List Char)} (hne : ps ≠ []) : Spaced ps ps.flatten := by
  induction ps with
  | nil => exact absurd rfl hne
  | cons p ps ih =>
    by_cases hnil : ps = []
    · subst hnil
      simpa using Spaced.single p
    · have hcons : Spaced (p :: ps) (p ++ [] ++ ps.flatten) := .cons p nofun (ih hnil)
      simpa using hcons

/-- **Parts are spaced in a text whose words are runs of parts.** -/
theorem spaced_of_apart {runs : List (List (List Char))} {cs : List Char} (hruns : [] ∉ runs)
    (h : Apart (runs.map List.flatten) cs) : Spaced runs.flatten cs := by
  induction runs generalizing cs with
  | nil => exact absurd rfl h.ne_nil
  | cons run runs ih =>
    obtain ⟨hrun, hruns⟩ : [] ≠ run ∧ [] ∉ runs := by simpa using hruns
    rw [List.map_cons] at h
    generalize hws : runs.map List.flatten = ws at h
    cases h with
    | single =>
      obtain rfl := List.map_eq_nil_iff.1 hws
      simpa using spaced_flatten hrun.symm
    | cons _ hgap _ h => exact (spaced_flatten hrun.symm).append hgap (ih hruns (hws ▸ h))

/-- **The words of a text with spaced parts are runs of them.** -/
theorem Spaced.exists_runs {ps : List (List Char)} {cs : List Char} (h : Spaced ps cs)
    (hps : ∀ p ∈ ps, IsWord p) :
    ∃ runs : List (List (List Char)), runs.flatten = ps ∧ [] ∉ runs ∧
      Apart (runs.map List.flatten) cs := by
  induction h with
  | single p => exact ⟨[[p]], rfl, by simp, by simpa using Apart.single (hps p (by simp))⟩
  | @cons p gap cs ps hgap _ ih =>
    obtain ⟨hp, hps⟩ := List.forall_mem_cons.1 hps
    obtain ⟨runs, rfl, hruns, hcs⟩ := ih hps
    -- without a blank after it, the part belongs to the run that follows
    by_cases hne : gap = []
    · obtain ⟨run, runs, rfl⟩ : ∃ run rest, runs = run :: rest :=
        List.exists_cons_of_ne_nil fun hnil ↦ hcs.ne_nil (by rw [hnil]; rfl)
      obtain ⟨-, hruns⟩ : [] ≠ run ∧ [] ∉ runs := by simpa using hruns
      exact ⟨(p :: run) :: runs, rfl, by simpa using hruns, by simpa [hne] using hcs.prepend hp⟩
    · refine ⟨[p] :: runs, rfl, by simpa using hruns, ?_⟩
      simpa using Apart.cons hp hgap hne hcs

/-- **Whether parts are spaced depends on the words alone.** -/
theorem Spaced.of_apart {ps ws : List (List Char)} {s t : List Char} (h : Spaced ps s)
    (hps : ∀ p ∈ ps, IsWord p) (hs : Apart ws s) (ht : Apart ws t) : Spaced ps t := by
  obtain ⟨runs, rfl, hruns, hapart⟩ := h.exists_runs hps
  have hwords : runs.map List.flatten = ws := hapart.words_eq.symm.trans hs.words_eq
  exact spaced_of_apart hruns (hwords ▸ ht)

end PluralForms.Text
