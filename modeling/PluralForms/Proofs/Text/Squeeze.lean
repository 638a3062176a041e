import PluralForms.Proofs.Text.Cut
import PluralForms.Proofs.Text.Scan
import Mathlib.Data.List.Basic

/-!
# Collapsed text, character by character

To collapse a text is to put its words together again. It can also be done without looking at words:
make every run of blanks a single one (`squeeze`) and trim the ends (`collapse_eq_tidy`).
Said so, it is plain that a character that is not blank keeps its place. A text that is cut at such
a character has the same pieces afterwards, each of them squeezed (`splitOn_squeeze`), the first one
trimmed at its start (`splitOn_dropWhile`) and the last one at its end (`splitOn_trimEndWhile`). And
a word at the start of a piece stays there (`isPrefixOf?_squeeze`).
-/

namespace PluralForms.Text

/-- Make every run of blanks a single one. A run at the very start is dropped if there is one
already in front of the text. -/
def squeezeAfter (blankBefore : Bool) : List Char → List Char
  | [] => []
  | c :: cs =>
    if isBlank c then
      if blankBefore then squeezeAfter true cs else ' ' :: squeezeAfter true cs
    else c :: squeezeAfter false cs

/-- Make every run of blanks a single one. -/
def squeeze (cs : List Char) : List Char :=
  squeezeAfter false cs

/-- Make every run of blanks a single one, and leave none at the ends. -/
def tidy (cs : List Char) : List Char :=
  trim (squeeze cs)

/-! ### Squeezing -/

/-- Blanks are squeezed on each side of a character that is none. -/
theorem squeezeAfter_append_cons {c : Char} (hc : isBlank c = false) (blankBefore : Bool)
    (x y : List Char) :
    squeezeAfter blankBefore (x ++ c :: y) = squeezeAfter blankBefore x ++ c :: squeeze y := by
  induction x generalizing blankBefore with
  | nil => simp [squeezeAfter, squeeze, hc]
  | cons d x ih => cases hd : isBlank d <;> cases blankBefore <;> simp [squeezeAfter, hd, ih]

/-- **A character that is not blank parts the runs of blanks.** -/
theorem squeeze_append_cons {c : Char} (hc : isBlank c = false) (x y : List Char) :
    squeeze (x ++ c :: y) = squeeze x ++ c :: squeeze y :=
  squeezeAfter_append_cons hc false x y

theorem mem_squeezeAfter {c : Char} {blankBefore : Bool} {cs : List Char}
    (h : c ∈ squeezeAfter blankBefore cs) : c = ' ' ∨ c ∈ cs := by
  induction cs generalizing blankBefore with
  | nil => cases h
  | cons d cs ih =>
    have hrest : ∀ {after}, c ∈ squeezeAfter after cs → c = ' ' ∨ c ∈ d :: cs := fun h ↦
      (ih h).imp_right (List.mem_cons_of_mem d)
    rw [squeezeAfter] at h
    split at h
    · split at h
      · exact hrest h
      · exact (List.mem_cons.1 h).elim .inl hrest
    · rcases List.mem_cons.1 h with rfl | h
      · exact .inr List.mem_cons_self
      · exact hrest h

theorem notMem_squeeze {c : Char} (hc : isBlank c = false) {cs : List Char} (h : c ∉ cs) :
    c ∉ squeeze cs := by
  intro hmem
  rcases mem_squeezeAfter hmem with rfl | hmem
  · exact absurd hc (by decide)
  · exact h hmem

theorem Blank.squeeze {b : List Char} (hb : Blank b) : Blank (squeeze b) := by
  intro c hc
  rcases mem_squeezeAfter hc with rfl | hc
  · decide
  · exact hb c hc

theorem squeezeAfter_word {w : List Char} (hw : IsWord w) (blankBefore : Bool) (cs : List Char) :
    squeezeAfter blankBefore (w ++ cs) = w ++ squeeze cs := by
  obtain ⟨hne, hblank⟩ := hw
  induction w generalizing blankBefore with
  | nil => exact absurd rfl hne
  | cons c w ih =>
    obtain ⟨hc, hblank⟩ := List.forall_mem_cons.1 hblank
    rw [List.cons_append, ← List.nil_append (c :: (w ++ cs)), squeezeAfter_append_cons hc]
    by_cases hnil : w = []
    · rw [hnil]
      rfl
    · rw [squeeze, ih false hnil hblank]
      rfl

/-- A gap is squeezed to one blank. -/
theorem squeeze_gap {gap : List Char} (hgap : Blank gap) (hne : gap ≠ []) (cs : List Char) :
    squeeze (gap ++ cs) = ' ' :: squeezeAfter true cs := by
  have hdrop : ∀ {b}, Blank b → squeezeAfter true (b ++ cs) = squeezeAfter true cs := by
    intro b hb
    induction b with
    | nil => rfl
    | cons c b ih =>
      obtain ⟨hc, hb⟩ := blank_cons.1 hb
      simp [squeezeAfter, hc, ih hb]
  obtain ⟨c, gap, rfl⟩ := List.exists_cons_of_ne_nil hne
  obtain ⟨hc, hgap⟩ := blank_cons.1 hgap
  simp [squeeze, squeezeAfter, hc, hdrop hgap]

/-- Words that stand apart are squeezed until they stand one blank apart. -/
theorem Apart.squeezeAfter_append {ws : List (List Char)} {cs : List Char} (h : Apart ws cs)
    (blankBefore : Bool) (rest : List Char) :
    squeezeAfter blankBefore (cs ++ rest) = unwords ws ++ squeeze rest := by
  induction h generalizing blankBefore with
  | single hw => rw [squeezeAfter_word hw, unwords_singleton]
  | cons hw hgap hne h ih =>
    rw [List.append_assoc, List.append_assoc, squeezeAfter_word hw, squeeze_gap hgap hne, ih,
      unwords_cons h.ne_nil]
    simp

/-- **To collapse a text is to squeeze it and to trim its ends.** -/
theorem collapse_eq_tidy (cs : List Char) : collapse cs = tidy cs := by
  rcases exists_apart cs with hblank | ⟨b, core, b', hcs, hb, hb', hcore⟩
  · rw [collapse, words_of_blank hblank]
    exact (trim_eq_nil_iff.2 hblank.squeeze).symm
  · have hwords : Apart (words cs) (unwords (words cs)) := apart_unwords hcore.ne_nil hcore.isWord
    obtain ⟨gap, hgap, hsqueeze⟩ : ∃ gap, Blank gap ∧
        squeeze cs = gap ++ unwords (words cs) ++ squeeze b' := by
      by_cases hnil : b = []
      · refine ⟨[], blank_nil, ?_⟩
        rw [congrArg squeeze hcs, hnil]
        exact hcore.squeezeAfter_append false b'
      · refine ⟨[' '], blank_space, ?_⟩
        rw [congrArg squeeze hcs, List.append_assoc, squeeze_gap hb hnil, hcore.squeezeAfter_append]
        rfl
    rw [tidy, hsqueeze, collapse, trim_around hgap hwords.not_blank_head? hwords.not_blank_getLast?
      hb'.squeeze]

/-- Nothing is left exactly of blank texts. -/
theorem tidy_eq_nil_iff {cs : List Char} : tidy cs = [] ↔ Blank cs := by
  rw [← collapse_eq_tidy]
  constructor
  · intro h
    rcases exists_apart cs with hblank | ⟨b, core, b', -, -, -, hcore⟩
    · exact hblank
    · exact absurd h (apart_unwords hcore.ne_nil hcore.isWord).text_ne_nil
  · intro h
    rw [collapse, words_of_blank h]
    rfl

/-- Blanks around a text make no difference. -/
theorem tidy_surround {b b' : List Char} (hb : Blank b) (hb' : Blank b') (cs : List Char) :
    tidy (b ++ cs ++ b') = tidy cs := by
  rw [← collapse_eq_tidy, ← collapse_eq_tidy, collapse, words_between hb hb']
  rfl

/-! ### The pieces of a collapsed text -/

section Pieces

variable {sep : Char} {cs : List Char}

/-- A text that is put together from pieces is cut into them again. -/
theorem splitOn_of_eq_intercalate {pieces : List (List Char)} (hne : pieces ≠ [])
    (hsep : ∀ p ∈ pieces, sep ∉ p) (h : cs = [sep].intercalate pieces) :
    cs.splitOn sep = pieces := by
  rw [h, List.splitOn_intercalate sep hsep hne]

/-- Pieces between separators are squeezed one by one. -/
theorem squeeze_intercalate (hsep : isBlank sep = false) (pieces : List (List Char)) :
    squeeze ([sep].intercalate pieces) = [sep].intercalate (pieces.map squeeze) := by
  induction pieces with
  | nil => rfl
  | cons p ps ih =>
    by_cases hnil : ps = []
    · rw [hnil]
      simp
    · rw [List.intercalate_cons_of_ne_nil hnil, List.append_assoc, List.singleton_append,
        squeeze_append_cons hsep, ih, List.map_cons,
        List.intercalate_cons_of_ne_nil (by simpa using hnil)]
      simp

/-- **Squeezing a text squeezes its pieces.** -/
theorem splitOn_squeeze (hsep : isBlank sep = false) (cs : List Char) :
    (squeeze cs).splitOn sep = (cs.splitOn sep).map squeeze := by
  refine splitOn_of_eq_intercalate (by simp [List.splitOn_ne_nil]) (fun p hp ↦ ?_) ?_
  · obtain ⟨piece, hpiece, rfl⟩ := List.mem_map.1 hp
    exact notMem_squeeze hsep (notMem_of_mem_splitOn hpiece)
  · rw [← squeeze_intercalate hsep, List.intercalate_splitOn]

theorem dropWhile_intercalate (hsep : isBlank sep = false) (first : List Char)
    (rest : List (List Char)) : ([sep].intercalate (first :: rest)).dropWhile isBlank =
      [sep].intercalate (first.dropWhile isBlank :: rest) := by
  by_cases hnil : rest = []
  · rw [hnil]
    simp
  · rw [List.intercalate_cons_of_ne_nil hnil, List.intercalate_cons_of_ne_nil hnil,
      List.append_assoc, List.append_assoc, List.singleton_append, List.dropWhile_append,
      List.dropWhile_cons_of_neg (by simp [hsep])]
    split
    · next hempty =>
      rw [List.isEmpty_iff.1 hempty]
      rfl
    · rfl

/-- Blanks at the start of a text are at the start of its first piece. -/
theorem splitOn_dropWhile (hsep : isBlank sep = false) {first : List Char}
    {rest : List (List Char)} (h : cs.splitOn sep = first :: rest) :
    (cs.dropWhile isBlank).splitOn sep = first.dropWhile isBlank :: rest := by
  have hpieces : ∀ p ∈ first :: rest, sep ∉ p := fun p hp ↦ notMem_of_mem_splitOn (h ▸ hp)
  obtain ⟨hfirst, hrest⟩ := List.forall_mem_cons.1 hpieces
  refine splitOn_of_eq_intercalate (List.cons_ne_nil _ _)
    (List.forall_mem_cons.2 ⟨fun hmem ↦ hfirst ((List.dropWhile_suffix _).subset hmem), hrest⟩) ?_
  rw [← dropWhile_intercalate hsep, ← h, List.intercalate_splitOn]

theorem trimEndWhile_intercalate (hsep : isBlank sep = false) (init : List (List Char))
    (last : List Char) : trimEndWhile isBlank ([sep].intercalate (init ++ [last])) =
      [sep].intercalate (init ++ [trimEndWhile isBlank last]) := by
  induction init with
  | nil => simp
  | cons p ps ih =>
    have hne : ∀ q : List Char, ps ++ [q] ≠ [] := fun q ↦ by simp
    rw [List.cons_append, List.cons_append, List.intercalate_cons_of_ne_nil (hne _),
      List.intercalate_cons_of_ne_nil (hne _), ← ih]
    exact trimEndWhile_append_of_kept (by simpa using hsep) _

/-- Blanks at the end of a text are at the end of its last piece. -/
theorem splitOn_trimEndWhile (hsep : isBlank sep = false) {init : List (List Char)}
    {last : List Char} (h : cs.splitOn sep = init ++ [last]) :
    (trimEndWhile isBlank cs).splitOn sep = init ++ [trimEndWhile isBlank last] := by
  have hpieces : ∀ p ∈ init ++ [last], sep ∉ p := fun p hp ↦ notMem_of_mem_splitOn (h ▸ hp)
  refine splitOn_of_eq_intercalate (by simp) (fun p hp ↦ ?_) ?_
  · rcases List.mem_append.1 hp with hp | hp
    · exact hpieces p (List.mem_append_left _ hp)
    · rw [List.mem_singleton.1 hp]
      exact fun hmem ↦ hpieces last (by simp) ((trimEndWhile_isPrefix _ _).subset hmem)
  · rw [← trimEndWhile_intercalate hsep, ← h, List.intercalate_splitOn]

end Pieces

/-! ### Words at the start of a piece -/

/-- A word stands at the start of a text exactly if it does so after the squeeze. -/
theorem isPrefixOf?_squeeze {w : List Char} (hw : IsWord w) (cs : List Char) :
    w.isPrefixOf? (squeeze cs) = (w.isPrefixOf? cs).map squeeze := by
  obtain ⟨-, hblank⟩ := hw
  induction w generalizing cs with
  | nil => rfl
  | cons c w ih =>
    obtain ⟨hc, hblank⟩ := List.forall_mem_cons.1 hblank
    cases cs with
    | nil => rfl
    | cons d cs =>
      cases hd : isBlank d with
      | true =>
        have hspace : c ≠ ' ' := fun heq ↦ absurd (heq ▸ hc) (by decide)
        have hne : c ≠ d := fun heq ↦ by simp [heq, hd] at hc
        simp [squeeze, squeezeAfter, hd, List.isPrefixOf?, hspace, hne]
      | false =>
        by_cases heq : c = d
        · simpa [squeeze, squeezeAfter, hd, List.isPrefixOf?, heq] using ih cs hblank
        · simp [squeeze, squeezeAfter, hd, List.isPrefixOf?, heq]

/-- A word stands at the start of a text exactly if it does so when the end has been trimmed. -/
theorem isPrefixOf?_trimEndWhile {w : List Char} (hw : IsWord w) (cs : List Char) :
    w.isPrefixOf? (trimEndWhile isBlank cs) =
      (w.isPrefixOf? cs).map (trimEndWhile isBlank) := by
  have hkept : ∀ y, trimEndWhile isBlank (w ++ y) = w ++ trimEndWhile isBlank y :=
    trimEndWhile_append_of_kept fun c hc ↦ hw.not_blank c (List.mem_of_getLast? hc)
  obtain ⟨b, -, hcs⟩ := exists_trimEndWhile_append isBlank cs
  ext rest
  rw [Option.map_eq_some_iff]
  simp only [List.isPrefixOf?_eq_some_iff_append_eq]
  constructor
  · intro h
    have hsplit : cs = w ++ (rest ++ b) := by rw [← List.append_assoc, h, ← hcs]
    refine ⟨rest ++ b, hsplit.symm, ?_⟩
    rw [hsplit, hkept] at h
    exact (List.append_cancel_left h).symm
  · rintro ⟨y, rfl, rfl⟩
    exact (hkept y).symm

end PluralForms.Text
