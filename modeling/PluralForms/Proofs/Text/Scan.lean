import PluralForms.Text.Digit
import PluralForms.Proofs.Text.Numeral
import PluralForms.Proofs.Text.Words
import Mathlib.Data.List.TakeDrop
import Mathlib.Data.List.TakeWhile

/-!
# Taking digits and dropping blanks

What a scanner takes from the head of a text when the text is known to be a run of digits, or of
blanks, and something else: exactly the run. And what can be said of a text from which a run was
taken.
-/

namespace PluralForms.Text

/-- A non-empty run of decimal digits of any script. -/
structure IsDigits (ds : List Char) : Prop where
  ne_nil : ds ≠ []
  all_digits : ∀ c ∈ ds, isDecimalDigit c = true

/-- The ranges of digits and of blanks do not meet. -/
theorem isBlank_eq_false_of_isDecimalDigit {c : Char} (h : isDecimalDigit c = true) :
    isBlank c = false := by
  have hdisjoint : ∀ r ∈ digitRanges, ∀ b ∈ blankRanges, r.2 < b.1 ∨ b.2 < r.1 := by decide
  obtain ⟨r, hr, hc⟩ := List.any_eq_true.1 h
  refine List.any_eq_false.2 fun b hb hblank ↦ ?_
  have hrb := hdisjoint r hr b hb
  simp only [Bool.and_eq_true, decide_eq_true_eq] at hc hblank
  omega

theorem IsDigits.isWord {ds : List Char} (h : IsDigits ds) : IsWord ds :=
  ⟨h.ne_nil, fun c hc ↦ isBlank_eq_false_of_isDecimalDigit (h.all_digits c hc)⟩

/-- No digit stands at the head of blanks and something that starts with none. -/
theorem Blank.head?_append {b cs : List Char} (hb : Blank b)
    (hcs : ∀ c ∈ cs.head?, isDecimalDigit c = false) :
    ∀ c ∈ (b ++ cs).head?, isDecimalDigit c = false := by
  intro c hc
  rcases b with _ | ⟨x, b⟩
  · exact hcs c hc
  · obtain rfl := Option.some.inj hc
    have hblank := hb x List.mem_cons_self
    refine Bool.eq_false_iff.2 fun hdigit ↦ ?_
    rw [isBlank_eq_false_of_isDecimalDigit hdigit] at hblank
    cases hblank

/-- The digits of numerals are decimal digits. -/
theorem IsNumeral.isDigits {k : Nat} {ds : List Char} (h : IsNumeral k ds) : IsDigits ds := by
  refine ⟨h.ne_nil, fun c hc ↦ List.any_eq_true.2 ⟨(0x30, 0x39), by simp [digitRanges], ?_⟩⟩
  obtain ⟨hlow, hhigh⟩ := Char.isDigit_iff_toNat.1 (h.isDigit c hc)
  simpa using ⟨hlow, hhigh⟩

/-- The run at the head of a text is taken, and no more. -/
theorem span_append {p : Char → Bool} {run rest : List Char} (hrun : ∀ c ∈ run, p c = true)
    (hrest : ∀ c ∈ rest.head?, p c = false) : (run ++ rest).span p = (run, rest) := by
  rw [List.span_eq_takeWhile_dropWhile, List.takeWhile_append_of_pos hrun,
    List.dropWhile_append_of_pos hrun]
  cases rest with
  | nil => simp
  | cons c rest => simp [hrest c rfl]

theorem takeDigits?_append {ds rest : List Char} (hds : IsDigits ds)
    (hrest : ∀ c ∈ rest.head?, isDecimalDigit c = false) :
    takeDigits? (ds ++ rest) = some (ds, rest) := by
  rw [takeDigits?, span_append hds.all_digits hrest]
  obtain ⟨c, cs, rfl⟩ := List.exists_cons_of_ne_nil hds.ne_nil
  rfl

theorem of_takeDigits? {cs ds rest : List Char} (h : takeDigits? cs = some (ds, rest)) :
    IsDigits ds ∧ cs = ds ++ rest := by
  rw [takeDigits?, List.span_eq_takeWhile_dropWhile] at h
  split at h
  next => cases h
  next digits rest' hne hspan =>
    obtain ⟨rfl, rfl⟩ : digits = ds ∧ rest' = rest := by simpa using h
    obtain ⟨htake, hdrop⟩ := Prod.mk.inj hspan
    refine ⟨⟨hne, fun c hc ↦ ?_⟩, ?_⟩
    · exact List.mem_takeWhile_imp (htake ▸ hc)
    · rw [← htake, ← hdrop, List.takeWhile_append_dropWhile]

/-- Blanks in front of something else are dropped, and no more. -/
theorem dropWhile_isBlank_append {b cs : List Char} (hb : Blank b)
    (hcs : ∀ c ∈ cs.head?, isBlank c = false) : (b ++ cs).dropWhile isBlank = cs := by
  rw [List.dropWhile_append_of_pos hb]
  cases cs with
  | nil => rfl
  | cons c cs => simp [hcs c rfl]

theorem exists_blank_append_dropWhile (cs : List Char) :
    ∃ b, Blank b ∧ cs = b ++ cs.dropWhile isBlank :=
  ⟨cs.takeWhile isBlank, fun _ hc ↦ List.mem_takeWhile_imp hc,
    List.takeWhile_append_dropWhile.symm⟩

theorem Blank.reverse {b : List Char} (h : Blank b) : Blank b.reverse :=
  fun c hc ↦ h c (List.mem_reverse.1 hc)

/-- Trimming drops the blanks at the head and then blanks at the end. -/
theorem exists_dropWhile_eq_trim_append (cs : List Char) :
    ∃ b, Blank b ∧ cs.dropWhile isBlank = trim cs ++ b := by
  obtain ⟨b, hb, hend⟩ := exists_blank_append_dropWhile (cs.dropWhile isBlank).reverse
  refine ⟨b.reverse, hb.reverse, ?_⟩
  rw [trim, trimEndWhile, ← List.reverse_append, ← hend, List.reverse_reverse]

/-- Trimming takes nothing but blanks from the two ends. -/
theorem exists_blank_append_trim (cs : List Char) :
    ∃ b b', Blank b ∧ Blank b' ∧ cs = b ++ trim cs ++ b' := by
  obtain ⟨b, hb, hcs⟩ := exists_blank_append_dropWhile cs
  obtain ⟨b', hb', htrim⟩ := exists_dropWhile_eq_trim_append cs
  refine ⟨b, b', hb, hb', ?_⟩
  rw [List.append_assoc, ← htrim]
  exact hcs

/-- Nothing is left exactly of blank texts. -/
theorem trim_eq_nil_iff {cs : List Char} : trim cs = [] ↔ Blank cs := by
  constructor
  · intro h
    obtain ⟨b, b', hb, hb', hcs⟩ := exists_blank_append_trim cs
    rw [h, List.append_nil] at hcs
    rw [hcs]
    exact hb.append hb'
  · intro h
    rw [trim, trimEndWhile, List.dropWhile_eq_nil_iff.2 h]
    rfl

/-- Blanks around a text that has none at its ends are trimmed, and no more. -/
theorem trim_around {b s b' : List Char} (hb : Blank b)
    (hstart : ∀ c ∈ s.head?, isBlank c = false) (hend : ∀ c ∈ s.getLast?, isBlank c = false)
    (hb' : Blank b') : trim (b ++ s ++ b') = s := by
  by_cases hne : s = []
  · rw [hne, List.append_nil]
    exact trim_eq_nil_iff.2 (hb.append hb')
  · have hhead : ∀ c ∈ (s ++ b').head?, isBlank c = false := by
      obtain ⟨c, s, rfl⟩ := List.exists_cons_of_ne_nil hne
      exact hstart
    rw [trim, trimEndWhile, List.append_assoc, dropWhile_isBlank_append hb hhead,
      List.reverse_append, dropWhile_isBlank_append hb'.reverse (by rwa [List.head?_reverse]),
      List.reverse_reverse]

theorem trim_between {b w b' : List Char} (hb : Blank b) (hw : IsWord w) (hb' : Blank b') :
    trim (b ++ w ++ b') = w :=
  trim_around hb (fun c hc ↦ hw.not_blank c (List.mem_of_mem_head? hc))
    (fun c hc ↦ hw.not_blank c (List.mem_of_getLast? hc)) hb'

/-! ### Trimming the end -/

section TrimEnd

variable {q : Char → Bool} {s x y : List Char}

theorem exists_trimEndWhile_append (q : Char → Bool) (s : List Char) :
    ∃ t, (∀ c ∈ t, q c = true) ∧ s = trimEndWhile q s ++ t := by
  refine ⟨(s.reverse.takeWhile q).reverse, fun c hc ↦ ?_, ?_⟩
  · exact List.mem_takeWhile_imp (List.mem_reverse.1 hc)
  · rw [trimEndWhile, ← List.reverse_append, List.takeWhile_append_dropWhile, List.reverse_reverse]

theorem trimEndWhile_isPrefix (q : Char → Bool) (s : List Char) : trimEndWhile q s <+: s := by
  obtain ⟨t, -, ht⟩ := exists_trimEndWhile_append q s
  exact ⟨t, ht.symm⟩

/-- What is trimmed does not reach beyond a character that is kept. -/
theorem trimEndWhile_append_of_kept (h : ∀ c ∈ x.getLast?, q c = false) (y : List Char) :
    trimEndWhile q (x ++ y) = x ++ trimEndWhile q y := by
  have hkept : x.reverse.dropWhile q = x.reverse := by
    cases hx : x.reverse with
    | nil => rfl
    | cons c cs => simp [h c (by rw [← List.head?_reverse, hx]; rfl)]
  rw [trimEndWhile, trimEndWhile, List.reverse_append, List.dropWhile_append, hkept]
  cases hy : y.reverse.dropWhile q <;> simp

theorem trimEndWhile_append_of_dropped (h : ∀ c ∈ y, q c = true) (x : List Char) :
    trimEndWhile q (x ++ y) = trimEndWhile q x := by
  rw [trimEndWhile, trimEndWhile, List.reverse_append,
    List.dropWhile_append_of_pos fun c hc ↦ h c (List.mem_reverse.1 hc)]

theorem trimEndWhile_trimEndWhile (q : Char → Bool) (s : List Char) :
    trimEndWhile q (trimEndWhile q s) = trimEndWhile q s := by
  obtain ⟨t, ht, hs⟩ := exists_trimEndWhile_append q s
  rw [← trimEndWhile_append_of_dropped ht, ← hs]

/-- Trimming a piece that reaches into characters to be trimmed leaves nothing of them. -/
theorem trimEndWhile_prefix_of_prefix_append (h : s <+: x ++ y) (hy : ∀ c ∈ y, q c = true) :
    trimEndWhile q s <+: x := by
  obtain ⟨rest, hrest⟩ := h
  rcases List.append_eq_append_iff.1 hrest with ⟨m, rfl, -⟩ | ⟨m, rfl, rfl⟩
  · exact List.IsPrefix.trans (trimEndWhile_isPrefix q s) (List.prefix_append s m)
  · rw [trimEndWhile_append_of_dropped fun c hc ↦ hy c (List.mem_append_left _ hc)]
    exact trimEndWhile_isPrefix q x

end TrimEnd

/-! ### Ends of a trimmed text -/

theorem eq_nil_of_blank_start {b s : List Char} (hb : Blank b)
    (hstart : ∀ c ∈ (b ++ s).head?, isBlank c = false) : b = [] := by
  cases b with
  | nil => rfl
  | cons c b =>
    have hblank := hb c List.mem_cons_self
    rw [hstart c rfl] at hblank
    cases hblank

theorem not_blank_head?_dropWhile (cs : List Char) :
    ∀ c ∈ (cs.dropWhile isBlank).head?, isBlank c = false := by
  intro c hc
  have hhead := List.head?_dropWhile_not isBlank cs
  rw [Option.mem_def.1 hc] at hhead
  simpa using hhead

/-- A trimmed text ends in no blank. -/
theorem not_blank_getLast?_trim (cs : List Char) :
    ∀ c ∈ (trim cs).getLast?, isBlank c = false := by
  rw [trim, trimEndWhile, List.getLast?_reverse]
  exact not_blank_head?_dropWhile _

/-- A trimmed text starts with no blank. -/
theorem not_blank_head?_trim (cs : List Char) : ∀ c ∈ (trim cs).head?, isBlank c = false := by
  intro c hc
  obtain ⟨b, -, hsplit⟩ := exists_dropWhile_eq_trim_append cs
  refine not_blank_head?_dropWhile cs c ?_
  rw [hsplit, List.head?_append, Option.mem_def.1 hc]
  rfl

/-- Blanks around a text make no difference to what is left of it. -/
theorem trim_surround {b b' : List Char} (hb : Blank b) (hb' : Blank b') (cs : List Char) :
    trim (b ++ cs ++ b') = trim cs := by
  obtain ⟨a, a', ha, ha', hcs⟩ := exists_blank_append_trim cs
  have htext : b ++ cs ++ b' = (b ++ a) ++ trim cs ++ (a' ++ b') := by
    nth_rewrite 1 [hcs]
    simp
  rw [htext]
  exact trim_around (hb.append ha) (not_blank_head?_trim cs) (not_blank_getLast?_trim cs)
    (ha'.append hb')

theorem trim_dropWhile (cs : List Char) : trim (cs.dropWhile isBlank) = trim cs := by
  obtain ⟨b, hb, hcs⟩ := exists_blank_append_dropWhile cs
  have htrim := trim_surround hb blank_nil (cs.dropWhile isBlank)
  rw [List.append_nil, ← hcs] at htrim
  exact htrim.symm

theorem trim_trimEndWhile (cs : List Char) : trim (trimEndWhile isBlank cs) = trim cs := by
  obtain ⟨b, hb, hcs⟩ := exists_trimEndWhile_append isBlank cs
  have htrim := trim_surround blank_nil hb (trimEndWhile isBlank cs)
  rw [List.nil_append, ← hcs] at htrim
  exact htrim.symm

/-! ### Cutting at a character -/

/-- A separator splits what is in front of it and what is behind it on their own. -/
theorem splitOn_append_sep (x : List Char) {sep : Char} (y : List Char) :
    (x ++ sep :: y).splitOn sep = x.splitOn sep ++ y.splitOn sep := by
  rw [List.splitOn_eq_splitOnP, List.splitOn_eq_splitOnP, List.splitOn_eq_splitOnP]
  exact List.splitOnP_append_cons x y (beq_self_eq_true sep)

theorem splitOn_append_cons {x : List Char} {sep : Char} (h : sep ∉ x) (y : List Char) :
    (x ++ sep :: y).splitOn sep = x :: y.splitOn sep := by
  rw [splitOn_append_sep, List.splitOn_eq_singleton h]
  rfl

/-- No piece has the separator in it. -/
theorem notMem_of_mem_splitOn {sep : Char} {cs piece : List Char} (h : piece ∈ cs.splitOn sep) :
    sep ∉ piece := by
  rw [List.splitOn_eq_splitOnP] at h
  induction cs generalizing piece with
  | nil => simp_all
  | cons c cs ih =>
    rw [List.splitOnP_cons_eq_if_modifyHead] at h
    split_ifs at h with hc
    · rcases List.mem_cons.1 h with rfl | h
      · exact List.not_mem_nil
      · exact ih h
    · obtain ⟨first, rest, hpieces⟩ :=
        List.exists_cons_of_ne_nil (List.splitOnP_ne_nil (· == sep) cs)
      rw [hpieces, List.modifyHead_cons] at h
      rcases List.mem_cons.1 h with rfl | h
      · have hfirst : sep ∉ first := ih (hpieces ▸ List.mem_cons_self)
        have hne : sep ≠ c := fun heq ↦ hc (beq_iff_eq.2 heq.symm)
        exact List.not_mem_cons_of_ne_of_not_mem hne hfirst
      · exact ih (hpieces ▸ List.mem_cons_of_mem _ h)

/-- A text is cut where the character is for the first time. -/
theorem cutAtFirst?_append_cons {c : Char} {before : List Char} (h : c ∉ before)
    (after : List Char) : cutAtFirst? c (before ++ c :: after) = some (before, after) := by
  have hbefore : ∀ d ∈ before, (d != c) = true := by
    intro d hd
    simpa using fun heq : d = c ↦ h (heq ▸ hd)
  rw [cutAtFirst?, span_append hbefore (by simp)]

theorem cutAtFirst?_of_notMem {c : Char} {cs : List Char} (h : c ∉ cs) :
    cutAtFirst? c cs = none := by
  have hdrop : cs.dropWhile (· != c) = [] := by
    refine List.dropWhile_eq_nil_iff.2 fun d hd ↦ ?_
    simpa using fun heq : d = c ↦ h (heq ▸ hd)
  rw [cutAtFirst?, List.span_eq_takeWhile_dropWhile, hdrop]

/-- A text is cut at the first occurrence of the character, if there is one. -/
theorem of_cutAtFirst? {c : Char} {cs before after : List Char}
    (h : cutAtFirst? c cs = some (before, after)) : cs = before ++ c :: after := by
  by_cases hc : c ∈ cs
  · obtain ⟨x, y, rfl, hx⟩ := List.eq_append_cons_of_mem hc
    rw [cutAtFirst?_append_cons hx] at h
    obtain ⟨rfl, rfl⟩ := Prod.mk.inj (Option.some.inj h)
    rfl
  · rw [cutAtFirst?_of_notMem hc] at h
    cases h

end PluralForms.Text
