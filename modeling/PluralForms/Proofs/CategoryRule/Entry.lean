import PluralForms.CategoryRule
import PluralForms.Proofs.Text.Squeeze

/-!
# What an entry says

An entry is a rule, possibly followed by a section of integer samples and possibly by a section of
decimal samples, in this order (`Entry`). Each section starts with an `@` sign and its name, and
there is no other `@` sign. A text is taken apart exactly if it is such an entry, and then into its
own parts, tidied. The blanks of the text are collapsed before it is cut at the `@` signs, which
makes no difference to where the cuts are, nor to the names (`trim_sections?_collapse`).
-/

namespace PluralForms

/-- A category is read from its own name and from nothing else. -/
theorem Category.ofText?_eq_some_iff {tag : String} {c : Category} :
    ofText? tag = some c ↔ tag = c.text := by
  constructor
  · intro h
    have htag := List.find?_some h
    exact (beq_iff_eq.1 htag).symm
  · rintro rfl
    exact ofText?_text c

namespace CategoryRule

open Text

/-! ### Keys -/

/-- The key names the category, with or without the lead. -/
def Names (key : String) (c : Category) : Prop :=
  key = c.text ∨ key = keyLead ++ c.text

/-- The lead of a key is cut off. -/
theorem categoryTag_append (tag : String) : categoryTag (keyLead ++ tag) = tag := by
  have hrest : keyLead.toList.isPrefixOf? (keyLead ++ tag).toList = some tag.toList := by
    rw [String.toList_append, List.isPrefixOf?_eq_some_iff_append_eq]
  rw [categoryTag, hrest]
  exact String.ofList_toList

/-- A key without the lead is its own tag. -/
theorem categoryTag_of_bare {key : String} (h : ¬ keyLead.toList <+: key.toList) :
    categoryTag key = key := by
  rw [categoryTag]
  split
  · next tag heq => exact absurd ⟨tag, List.isPrefixOf?_eq_some_iff_append_eq.1 heq⟩ h
  · rfl

/-- **The tag of a key is a category** exactly when the key names the category. -/
theorem categoryTag_eq_text_iff {key : String} {c : Category} :
    categoryTag key = c.text ↔ Names key c := by
  have hbare : ¬ keyLead.toList <+: c.text.toList := by cases c <;> decide
  constructor
  · intro h
    by_cases hlead : keyLead.toList <+: key.toList
    · obtain ⟨tag, htag⟩ := hlead
      have hkey : key = keyLead ++ String.ofList tag := by
        rw [← String.toList_inj, String.toList_append, String.toList_ofList, htag]
      rw [hkey, categoryTag_append] at h
      exact .inr (h ▸ hkey)
    · rw [categoryTag_of_bare hlead] at h
      exact .inl h
  · rintro (rfl | rfl)
    · exact categoryTag_of_bare hbare
    · exact categoryTag_append c.text

/-! ### Sections -/

/-- A rule and its sections, each with its name in front. -/
def layout (rule : List Char) (integer decimal : Option (List Char)) : List (List Char) :=
  rule :: (integer.map ("integer".toList ++ ·)).toList ++
    (decimal.map ("decimal".toList ++ ·)).toList

/-- **Pieces are taken for sections exactly if they are laid out as such.** -/
theorem sections?_eq_some_iff {ps : List (List Char)} {rule : List Char}
    {samples : Option (List Char)} :
    sections? ps = some (rule, samples) ↔ ∃ decimal, ps = layout rule samples decimal := by
  constructor
  · intro h
    unfold sections? at h
    split at h
    · cases h
      exact ⟨none, rfl⟩
    · next part =>
      split at h
      · next hinteger =>
        cases h
        exact ⟨none, by simp [layout, ← List.append_eq_of_isPrefixOf?_eq_some hinteger]⟩
      · next d _ hdecimal =>
        cases h
        exact ⟨some d, by simp [layout, ← List.append_eq_of_isPrefixOf?_eq_some hdecimal]⟩
      · cases h
    · split at h
      · next d hinteger hdecimal =>
        cases h
        exact ⟨some d, by simp [layout, ← List.append_eq_of_isPrefixOf?_eq_some hinteger,
          ← List.append_eq_of_isPrefixOf?_eq_some hdecimal]⟩
      · cases h
    · cases h
  · rintro ⟨decimal, rfl⟩
    cases samples <;> cases decimal <;> simp [layout, sections?, List.isPrefixOf?]

/-- An `@` sign in the layout is in one of the parts. -/
theorem forall_mem_layout_iff {rule : List Char} {integer decimal : Option (List Char)} :
    (∀ p ∈ layout rule integer decimal, '@' ∉ p) ↔
      '@' ∉ rule ∧ (∀ s ∈ integer, '@' ∉ s) ∧ ∀ s ∈ decimal, '@' ∉ s := by
  cases integer <;> cases decimal <;> simp [layout]

/-! ### Sections and blanks -/

/-- Do the same to the rule and to the samples. -/
def mapParts (f : List Char → List Char) :
    List Char × Option (List Char) → List Char × Option (List Char) :=
  Prod.map f (Option.map f)

theorem mapParts_comp_mapParts (g f : List Char → List Char) :
    mapParts g ∘ mapParts f = mapParts (g ∘ f) := by
  rw [mapParts, mapParts, Prod.map_comp_map, Option.map_comp_map, mapParts]

/-- What is done to the first piece is done to the rule. -/
theorem sections?_head (f : List Char → List Char) (first : List Char) (rest : List (List Char)) :
    sections? (f first :: rest) = (sections? (first :: rest)).map (Prod.map f id) := by
  match rest with
  | [] => rfl
  | [part] =>
    rw [sections?, sections?]
    split <;> rfl
  | [part, part'] =>
    rw [sections?, sections?]
    split <;> rfl
  | _ :: _ :: _ :: _ => rfl

theorem isWord_integer : IsWord "integer".toList :=
  isWord_of_any_eq_false (by decide) (by decide)

theorem isWord_decimal : IsWord "decimal".toList :=
  isWord_of_any_eq_false (by decide) (by decide)

/-- What is done to every piece is done to the parts, if it leaves the names where they are. -/
theorem sections?_map {f : List Char → List Char}
    (hf : ∀ {w}, IsWord w → ∀ p, w.isPrefixOf? (f p) = (w.isPrefixOf? p).map f)
    (ps : List (List Char)) :
    sections? (ps.map f) = (sections? ps).map (mapParts f) := by
  have hinteger := hf isWord_integer
  have hdecimal := hf isWord_decimal
  match ps with
  | [] => rfl
  | [rule] => rfl
  | [rule, part] =>
    rw [List.map_cons, List.map_singleton, sections?, sections?, hinteger, hdecimal]
    cases "integer".toList.isPrefixOf? part <;> cases "decimal".toList.isPrefixOf? part <;> rfl
  | [rule, part, part'] =>
    rw [List.map_cons, List.map_cons, List.map_singleton, sections?, sections?, hinteger, hdecimal]
    cases "integer".toList.isPrefixOf? part <;> cases "decimal".toList.isPrefixOf? part' <;> rfl
  | _ :: _ :: _ :: _ :: _ => rfl

/-- Blanks at the start of a text do not show in its trimmed parts. -/
theorem trim_sections?_dropWhile (cs : List Char) :
    (sections? ((cs.dropWhile isBlank).splitOn '@')).map (mapParts trim) =
      (sections? (cs.splitOn '@')).map (mapParts trim) := by
  have hdrop : trim ∘ List.dropWhile isBlank = trim := funext trim_dropWhile
  obtain ⟨first, rest, hcs⟩ := List.exists_cons_of_ne_nil (List.splitOn_ne_nil '@' cs)
  rw [splitOn_dropWhile (by decide) hcs, hcs, sections?_head, Option.map_map, mapParts,
    Prod.map_comp_map, hdrop, Function.comp_id]

theorem trim_sections?_map_trimEndWhile (ps : List (List Char)) :
    (sections? (ps.map (trimEndWhile isBlank))).map (mapParts trim) =
      (sections? ps).map (mapParts trim) := by
  have htrim : trim ∘ trimEndWhile isBlank = trim := funext trim_trimEndWhile
  rw [sections?_map isPrefixOf?_trimEndWhile, Option.map_map, mapParts_comp_mapParts, htrim]

theorem trim_sections?_trimEndWhile (cs : List Char) :
    (sections? ((trimEndWhile isBlank cs).splitOn '@')).map (mapParts trim) =
      (sections? (cs.splitOn '@')).map (mapParts trim) := by
  obtain ⟨init, last, hcs⟩ :=
    (List.eq_nil_or_concat (cs.splitOn '@')).resolve_left (List.splitOn_ne_nil '@' cs)
  rw [List.concat_eq_append] at hcs
  -- only the last piece is trimmed, but when all are, there is no difference left
  rw [splitOn_trimEndWhile (by decide) hcs, hcs, ← trim_sections?_map_trimEndWhile,
    ← trim_sections?_map_trimEndWhile (init ++ [last])]
  simp [trimEndWhile_trimEndWhile]

/-- **Collapsing the blanks of a text changes its parts only in that they are tidied.** -/
theorem trim_sections?_collapse (cs : List Char) :
    (sections? ((collapse cs).splitOn '@')).map (mapParts trim) =
      (sections? (cs.splitOn '@')).map (mapParts tidy) := by
  rw [collapse_eq_tidy, tidy, trim, trim_sections?_trimEndWhile, trim_sections?_dropWhile,
    splitOn_squeeze (by decide), sections?_map isPrefixOf?_squeeze, Option.map_map,
    mapParts_comp_mapParts]
  rfl

/-! ### Entries -/

/-- The parts of an entry. None of them has an `@` sign in it. -/
structure Entry where
  /-- What stands in front of the sections. -/
  rule : List Char
  /-- What follows the name of the section of integer samples. -/
  integer : Option (List Char)
  /-- What follows the name of the section of decimal samples. -/
  decimal : Option (List Char)
  rule_clear : '@' ∉ rule
  integer_clear : ∀ s ∈ integer, '@' ∉ s
  decimal_clear : ∀ s ∈ decimal, '@' ∉ s

namespace Entry

/-- The entry as it is published. -/
def text (e : Entry) : List Char :=
  e.rule ++ e.integer.elim [] ("@integer".toList ++ ·) ++ e.decimal.elim [] ("@decimal".toList ++ ·)

/-- What the entry says about a category: its parts, tidied, without the decimal samples. -/
def categoryRule (e : Entry) (c : Category) : CategoryRule where
  category := c
  rule := String.ofList (tidy e.rule)
  samples := ((e.integer.map tidy).filter (!·.isEmpty)).map String.ofList

/-- The entry without its decimal samples. -/
def withoutDecimal (e : Entry) : Entry :=
  { e with decimal := none, decimal_clear := nofun }

/-- An entry is written as its sections with an `@` sign between them. -/
theorem text_eq_intercalate (e : Entry) :
    e.text = ['@'].intercalate (layout e.rule e.integer e.decimal) := by
  obtain ⟨rule, integer, decimal⟩ := e
  cases integer <;> cases decimal <;> simp [text, layout, List.intercalate]

end Entry

/-- **A text has sections exactly if it is the text of an entry.** -/
theorem sections?_splitOn_eq_some_iff {cs rule : List Char} {samples : Option (List Char)} :
    sections? (cs.splitOn '@') = some (rule, samples) ↔
      ∃ e : Entry, cs = e.text ∧ e.rule = rule ∧ e.integer = samples := by
  rw [sections?_eq_some_iff]
  constructor
  · rintro ⟨decimal, hpieces⟩
    have hclear : ∀ p ∈ layout rule samples decimal, '@' ∉ p := fun p hp ↦
      notMem_of_mem_splitOn (hpieces ▸ hp)
    obtain ⟨hrule, hinteger, hdecimal⟩ := forall_mem_layout_iff.1 hclear
    refine ⟨⟨rule, samples, decimal, hrule, hinteger, hdecimal⟩, ?_, rfl, rfl⟩
    rw [Entry.text_eq_intercalate, ← hpieces, List.intercalate_splitOn]
  · rintro ⟨e, rfl, rfl, rfl⟩
    exact ⟨e.decimal, splitOn_of_eq_intercalate (by simp [layout])
      (forall_mem_layout_iff.2 ⟨e.rule_clear, e.integer_clear, e.decimal_clear⟩)
      e.text_eq_intercalate⟩

/-- What becomes of an entry of a category, given its tidied parts. -/
def outcome (language : String) (c : Category) (text : List Char) :
    Option (List Char × Option (List Char)) → Except CompileError CategoryRule
  | none => .error ⟨language, .unreadable c (String.ofList text) .badEntry⟩
  | some (rule, samples) =>
    if c.isCatchAll && !rule.isEmpty then
      .error ⟨language, .malformedSet (.ruleForOther (String.ofList rule))⟩
    else .ok ⟨c, String.ofList rule, (samples.filter (!·.isEmpty)).map String.ofList⟩

section Outcome

variable {language key raw : String} {c : Category}

/-- **A key that names no category is refused**, whatever the text says. -/
theorem ofEntry_of_unknown (h : Category.ofText? (categoryTag key) = none) :
    ofEntry language key raw =
      .error ⟨language, .malformedSet (.unknownCategory (categoryTag key))⟩ := by
  rw [ofEntry, h]
  rfl

/-- Samples count when something is left of them after trimming. -/
theorem bind_nonblank? (samples : Option (List Char)) :
    samples.bind nonblank? = ((samples.map trim).filter (!·.isEmpty)).map String.ofList := by
  cases samples with
  | none => rfl
  | some part => cases h : (trim part).isEmpty <;> simp [nonblank?, h, Option.filter]

/-- **An entry is judged by its tidied parts.** -/
theorem ofEntry_of_names (h : Names key c) :
    ofEntry language key raw = outcome language c (collapse raw.toList)
      ((sections? (raw.toList.splitOn '@')).map (mapParts tidy)) := by
  rw [← categoryTag_eq_text_iff, ← Category.ofText?_eq_some_iff] at h
  rw [← trim_sections?_collapse, ofEntry, h]
  dsimp only
  cases sections? ((collapse raw.toList).splitOn '@') with
  | none => rfl
  | some parts =>
    have hempty : (String.ofList (trim parts.1)).isEmpty = (trim parts.1).isEmpty := by
      rw [Bool.eq_iff_iff, String.isEmpty_iff, List.isEmpty_iff, ← String.toList_eq_nil_iff,
        String.toList_ofList]
    simp only [Option.map_some, outcome, mapParts, hempty, bind_nonblank?, Prod.map]
    split <;> rfl

/-- Either a key is refused for every text, or it names a category. -/
theorem ofEntry_unknown_or_names (language key : String) :
    (∃ error, ∀ raw, ofEntry language key raw = .error error) ∨ ∃ c, Names key c := by
  cases h : Category.ofText? (categoryTag key) with
  | none => exact .inl ⟨_, fun raw ↦ ofEntry_of_unknown h⟩
  | some c => exact .inr ⟨c, categoryTag_eq_text_iff.1 (Category.ofText?_eq_some_iff.1 h)⟩

/-- The catch-all is refused a rule; otherwise the parts of an entry are what it says. -/
theorem outcome_eq_ok_iff {text : List Char} {e : Entry} {r : CategoryRule} :
    outcome language c text (some (mapParts tidy (e.rule, e.integer))) = .ok r ↔
      (c = .other → Blank e.rule) ∧ r = e.categoryRule c := by
  have hblank : (c.isCatchAll && !(tidy e.rule).isEmpty) = true ↔
      ¬ (c = .other → Blank e.rule) := by
    simp [Category.isCatchAll, ← tidy_eq_nil_iff]
  rw [mapParts, Prod.map, outcome]
  split
  · next h => exact ⟨nofun, fun hok ↦ absurd hok.1 (hblank.1 h)⟩
  · next h =>
    rw [hblank, not_not] at h
    exact ⟨fun hok ↦ ⟨h, (Except.ok.inj hok).symm⟩, fun hok ↦ congrArg Except.ok hok.2.symm⟩

/-- **Exactly the entries of known categories are taken apart**, unless the catch-all has a rule. -/
theorem ofEntry_eq_ok_iff {r : CategoryRule} :
    ofEntry language key raw = .ok r ↔ ∃ c, ∃ e : Entry, Names key c ∧ raw.toList = e.text ∧
      (c = .other → Blank e.rule) ∧ r = e.categoryRule c := by
  constructor
  · intro h
    rcases ofEntry_unknown_or_names language key with ⟨error, herror⟩ | ⟨c, hc⟩
    · rw [herror] at h
      cases h
    · rw [ofEntry_of_names hc] at h
      cases hparts : sections? (raw.toList.splitOn '@') with
      | none =>
        rw [hparts] at h
        cases h
      | some parts =>
        obtain ⟨e, hraw, hrule, hinteger⟩ := sections?_splitOn_eq_some_iff.1 hparts
        obtain rfl : (e.rule, e.integer) = parts := Prod.ext hrule hinteger
        rw [hparts, Option.map_some, outcome_eq_ok_iff] at h
        exact ⟨c, e, hc, hraw, h⟩
  · rintro ⟨c, e, hc, hraw, h⟩
    have hparts := sections?_splitOn_eq_some_iff.2 ⟨e, hraw, rfl, rfl⟩
    rw [ofEntry_of_names hc, hparts, Option.map_some, outcome_eq_ok_iff]
    exact h

/-- The decimal samples of an entry make no difference. -/
theorem ofEntry_congr {raw' : String} {e e' : Entry} (hraw : raw.toList = e.text)
    (hraw' : raw'.toList = e'.text) (hrule : e.rule = e'.rule) (hinteger : e.integer = e'.integer) :
    ofEntry language key raw = ofEntry language key raw' := by
  rcases ofEntry_unknown_or_names language key with ⟨error, herror⟩ | ⟨c, hc⟩
  · rw [herror, herror]
  · have hparts := sections?_splitOn_eq_some_iff.2 ⟨e, hraw, hrule, hinteger⟩
    have hparts' := sections?_splitOn_eq_some_iff.2 ⟨e', hraw', rfl, rfl⟩
    rw [ofEntry_of_names hc, ofEntry_of_names hc, hparts, hparts']
    rfl

/-- What the section of decimal samples says makes no difference. -/
theorem sections?_append_decimal {ps : List (List Char)} (hne : ps ≠ []) (d d' : List Char) :
    sections? (ps ++ ["decimal".toList ++ d]) = sections? (ps ++ ["decimal".toList ++ d']) := by
  have hname : ∀ d, "decimal".toList.isPrefixOf? ("decimal".toList ++ d) = some d := fun d ↦
    List.isPrefixOf?_eq_some_iff_append_eq.2 rfl
  match ps with
  | [] => exact absurd rfl hne
  | [rule] => simp [sections?, List.isPrefixOf?]
  | [rule, part] =>
    rw [List.cons_append, List.singleton_append, sections?, List.cons_append,
      List.singleton_append, sections?, hname, hname]
    cases "integer".toList.isPrefixOf? part <;> rfl
  | [_, _, _] => rfl
  | _ :: _ :: _ :: _ :: _ => rfl

/-- Whatever stands in front of them, decimal samples at the end of a text make no difference to
whether it is an entry and to what it says. -/
theorem toOption_ofEntry_congr {raw' : String} {front d d' : List Char}
    (hraw : raw.toList = front ++ "@decimal".toList ++ d)
    (hraw' : raw'.toList = front ++ "@decimal".toList ++ d') (hd : '@' ∉ d) (hd' : '@' ∉ d') :
    (ofEntry language key raw).toOption = (ofEntry language key raw').toOption := by
  have hpieces : ∀ {d}, '@' ∉ d → (front ++ "@decimal".toList ++ d).splitOn '@' =
      front.splitOn '@' ++ ["decimal".toList ++ d] := by
    intro d hd
    have hlast : ("decimal".toList ++ d).splitOn '@' = ["decimal".toList ++ d] :=
      List.splitOn_eq_singleton (by simpa using hd)
    rw [← hlast, List.append_assoc]
    exact splitOn_append_sep front _
  rcases ofEntry_unknown_or_names language key with ⟨error, herror⟩ | ⟨c, hc⟩
  · rw [herror, herror]
  · rw [ofEntry_of_names hc, ofEntry_of_names hc, hraw, hraw', hpieces hd, hpieces hd',
      sections?_append_decimal (List.splitOn_ne_nil _ _) d d']
    cases sections? (front.splitOn '@' ++ ["decimal".toList ++ d']) <;> rfl

/-- An entry written with single blanks around its sections. -/
theorem ofEntry_spaced {rule samples d : List Char} (hkey : Names key c) (hrule : '@' ∉ rule)
    (hsamples : '@' ∉ samples) (hd : '@' ∉ d) (hother : c = .other → rule = [])
    (hraw : raw.toList =
      rule ++ " @integer ".toList ++ samples ++ " @decimal ".toList ++ d) :
    ofEntry language key raw = .ok ⟨c, String.ofList (tidy rule),
      ((some (tidy samples)).filter (!·.isEmpty)).map String.ofList⟩ := by
  let e : Entry :=
    { rule := rule ++ [' ']
      integer := some ([' '] ++ samples ++ [' '])
      decimal := some ([' '] ++ d)
      rule_clear := by simpa using hrule
      integer_clear := by simpa using hsamples
      decimal_clear := by simpa using hd }
  have htext : raw.toList = e.text := by
    rw [hraw]
    simp [e, Entry.text]
  have hblank : c = .other → Blank e.rule := fun hc ↦ by
    show Blank (rule ++ [' '])
    rw [hother hc]
    exact blank_space
  refine ofEntry_eq_ok_iff.2 ⟨c, e, hkey, htext, hblank, ?_⟩
  have hr : tidy (rule ++ [' ']) = tidy rule := tidy_surround blank_nil blank_space rule
  have hs := tidy_surround blank_space blank_space samples
  rw [Entry.categoryRule, Option.map_some, hr, hs]

end Outcome

/-- **Entries are taken apart exactly.** Success is for known categories and for texts that consist
of a rule, at most one section of integer samples and at most one of decimal samples, in this order,
where the catch-all has no rule; and the outcome is the rule and the integer samples, tidied. So the
outcome is the same whether the key has the lead or not, however the text is spaced, and whatever
the decimal samples are; and a rule and samples that are written down as an entry come back. -/
theorem ofEntry_splits_exactly (language : String) :
    (∀ key raw r, ofEntry language key raw = .ok r ↔ ∃ c, ∃ e : Entry, Names key c ∧
      raw.toList = e.text ∧ (c = .other → Blank e.rule) ∧ r = e.categoryRule c) ∧
    (∀ tag raw, ¬ keyLead.toList <+: tag.toList →
      ofEntry language (keyLead ++ tag) raw = ofEntry language tag raw) ∧
    (∀ key raw raw', tidy raw.toList = tidy raw'.toList →
      ofEntry language key raw = ofEntry language key raw') ∧
    (∀ key raw raw' (e e' : Entry), raw.toList = e.text → raw'.toList = e'.text →
      e.rule = e'.rule → e.integer = e'.integer →
        ofEntry language key raw = ofEntry language key raw') ∧
    (∀ key raw raw' front d d', '@' ∉ d → '@' ∉ d' →
      raw.toList = front ++ "@decimal".toList ++ d →
      raw'.toList = front ++ "@decimal".toList ++ d' →
        (ofEntry language key raw).toOption = (ofEntry language key raw').toOption) ∧
    ∀ key c rule samples d raw, Names key c → tidy rule = rule → tidy samples = samples →
      samples ≠ [] → '@' ∉ rule → '@' ∉ samples → '@' ∉ d → (c = .other → rule = []) →
      raw.toList = rule ++ " @integer ".toList ++ samples ++ " @decimal ".toList ++ d →
        ofEntry language key raw = .ok ⟨c, String.ofList rule, some (String.ofList samples)⟩ := by
  refine ⟨fun key raw r ↦ ofEntry_eq_ok_iff, fun tag raw h ↦ ?_, fun key raw raw' h ↦ ?_,
    fun key raw raw' e e' hraw hraw' ↦ ofEntry_congr hraw hraw',
    fun key raw raw' front d d' hd hd' hraw hraw' ↦ toOption_ofEntry_congr hraw hraw' hd hd', ?_⟩
  · rw [ofEntry, ofEntry, categoryTag_append, categoryTag_of_bare h]
  · rw [← collapse_eq_tidy, ← collapse_eq_tidy] at h
    rw [ofEntry, ofEntry, h]
  · intro key c rule samples d raw hkey hrule hsamples hne hclear hclear' hd hother hraw
    rw [ofEntry_spaced hkey hclear hclear' hd hother hraw, hrule, hsamples]
    simp [Option.filter, hne]

/-- An entry with blanks all over. -/
def loose : Entry where
  rule := "n  = 1\t".toList
  integer := some "1,\n 2 ".toList
  decimal := some " 1.0".toList
  rule_clear := by decide
  integer_clear := by simp
  decimal_clear := by simp

/-- An entry with blanks where they do not matter, read under both forms of its key, respaced,
without its decimal samples and with a section that has another name; and the entry of a catch-all.
-/
theorem ofEntry_splits_exactly_loose :
    ofEntry "xx" "one" "n  = 1\t@integer1,\n 2 @decimal 1.0" =
        .ok ⟨.one, "n = 1", some "1, 2"⟩ ∧
      ofEntry "xx" "pluralRule-count-one" "n  = 1\t@integer1,\n 2 @decimal 1.0" =
        ofEntry "xx" "one" "n  = 1\t@integer1,\n 2 @decimal 1.0" ∧
      ofEntry "xx" "one" "n  = 1\t@integer1,\n 2 @decimal 1.0" =
        ofEntry "xx" "one" " n = 1 @integer1, 2   @decimal 1.0\t" ∧
      ofEntry "xx" "one" "n  = 1\t@integer1,\n 2 @decimal 1.0" =
        ofEntry "xx" "one" "n  = 1\t@integer1,\n 2 " ∧
      (ofEntry "xx" "one" "n = 1 @samples @decimal 1.0").toOption =
        (ofEntry "xx" "one" "n = 1 @samples @decimal").toOption ∧
      ofEntry "xx" "other" " @integer 0, 3~17, … @decimal 0.0" =
        .ok ⟨.other, "", some "0, 3~17, …"⟩ := by
  obtain ⟨hok, hlead, htidy, hdecimal, hfront, hspaced⟩ := ofEntry_splits_exactly "xx"
  refine ⟨?_, hlead "one" _ (by decide), htidy _ _ _ (by decide +kernel),
    hdecimal _ _ _ loose loose.withoutDecimal (by decide +kernel) (by decide +kernel) rfl rfl,
    hfront _ _ _ "n = 1 @samples ".toList " 1.0".toList [] (by decide) (by decide)
      (by decide +kernel) (by decide +kernel),
    hspaced _ .other [] "0, 3~17, …".toList "0.0".toList _ (.inl rfl) (by decide +kernel)
      (by decide +kernel) (by decide) (by decide) (by decide) (by decide) (fun _ ↦ rfl)
      (by decide +kernel)⟩
  exact (hok _ _ _).2 ⟨.one, loose, .inl rfl, by decide +kernel, nofun, by decide +kernel⟩

end CategoryRule

end PluralForms
