import PluralForms.Proofs.Locale.Pieces

/-!
# Spellings of a locale id

A hyphen and an underscore part the pieces of an id alike, so an id and its normalized spelling are
read as the same locale (`read?_normalize`).

An id is **plain** if it is a language, or a language and a territory with a hyphen between them. It
is then the base id of what it is read as (`IsPlain.exists_read?`). It has no underscore, so no two
plain ids have one normalized spelling (`normalize_inj`).

`Reads` says piece by piece what a text is read as. That it is read so (`read?_piecewise`) rests on
`read?_eq_ofPieces?`, and everything else about reading follows from there.
-/

namespace PluralForms.LocaleId

variable {text : String}

/-! ### Normalized spelling -/

theorem toList_normalize (text : String) :
    (normalize text).toList = text.toList.map fun c ↦ if c = '-' then '_' else c :=
  String.toList_ofList

/-- Hyphens and underscores cut a text at the same places. -/
theorem splitOnP_map_underscore (cs : List Char) :
    (cs.map fun c ↦ if c = '-' then '_' else c).splitOnP isSeparator =
      cs.splitOnP isSeparator := by
  induction cs with
  | nil => rfl
  | cons c cs ih =>
    rw [List.map_cons, List.splitOnP_cons_eq_if_modifyHead, List.splitOnP_cons_eq_if_modifyHead, ih]
    by_cases hc : c = '-'
    · subst hc
      rfl
    · rw [if_neg hc]

/-- **Normalizing does not change what an id is read as.** -/
theorem read?_normalize (text : String) : read? (normalize text) = read? text := by
  rw [read?_eq_ofPieces?, read?_eq_ofPieces?, pieces, pieces, toList_normalize,
    splitOnP_map_underscore]

/-- Where normalizing puts no underscore, it does nothing. -/
theorem normalize_eq_self (h : '_' ∉ (normalize text).toList) : normalize text = text := by
  have hkeep : ∀ c ∈ text.toList, (if c = '-' then '_' else c) = c := by
    intro c hc
    refine if_neg fun hhyphen ↦ h ?_
    rw [toList_normalize]
    exact List.mem_map.2 ⟨c, hc, if_pos hhyphen⟩
  rw [normalize, List.map_congr_left hkeep, List.map_id', String.ofList_toList]

/-- Texts without an underscore are told apart by their normalized spellings. -/
theorem normalize_inj {text' : String} (h : '_' ∉ text.toList) (h' : '_' ∉ text'.toList)
    (heq : normalize text = normalize text') : text = text' := by
  have hback : ∀ cs : List Char, '_' ∉ cs →
      (cs.map fun c ↦ if c = '-' then '_' else c).map (fun c ↦ if c = '_' then '-' else c) =
        cs := by
    intro cs hcs
    rw [List.map_map]
    refine (List.map_congr_left fun c hc ↦ ?_).trans (List.map_id' cs)
    have hne : c ≠ '_' := fun heq ↦ hcs (heq ▸ hc)
    by_cases hhyphen : c = '-' <;> simp [hhyphen, hne]
  have hlists := congrArg String.toList heq
  rw [toList_normalize, toList_normalize] at hlists
  rw [← String.toList_inj, ← hback _ h, hlists, hback _ h']

/-! ### Plain ids -/

/-- A language, or a language and a territory with a hyphen between them. -/
def IsPlain (text : String) : Prop :=
  isLanguage text.toList = true ∨ ∃ language territory, isLanguage language = true ∧
    isTerritory territory = true ∧ text.toList = language ++ '-' :: territory

/-- A language has no separator in it. -/
theorem isSeparator_of_isLanguage {piece : List Char} (h : isLanguage piece = true) :
    ∀ c ∈ piece, isSeparator c = false := by
  intro c hc
  have hlower := List.all_eq_true.1 (Bool.and_eq_true_iff.1 h).2 c hc
  exact isSeparator_eq_false (by rw [hlower]; rfl)

theorem isSeparator_of_isTerritory {piece : List Char} (h : isTerritory piece = true) :
    ∀ c ∈ piece, isSeparator c = false := by
  intro c hc
  rcases Bool.or_eq_true_iff.1 h with h | h
  · have hupper := List.all_eq_true.1 (Bool.and_eq_true_iff.1 h).2 c hc
    exact isSeparator_eq_false (by rw [hupper, Bool.or_true]; rfl)
  · have hdigit := List.all_eq_true.1 (Bool.and_eq_true_iff.1 h).2 c hc
    exact isSeparator_eq_false (by rw [hdigit, Bool.or_true])

/-- A territory is too short to be taken for a script. -/
theorem isScript_of_isTerritory {piece : List Char} (h : isTerritory piece = true) :
    isScript piece = false := by
  refine Bool.eq_false_iff.2 fun hscript ↦ ?_
  rcases piece with _ | ⟨c, piece⟩
  · cases hscript
  · simp only [isScript, Bool.and_eq_true, beq_iff_eq] at hscript
    simp only [isTerritory, List.length_cons, Bool.or_eq_true, Bool.and_eq_true, beq_iff_eq] at h
    omega

/-- A plain id has no underscore. -/
theorem IsPlain.underscore_notMem (h : IsPlain text) : '_' ∉ text.toList := by
  have hseparator : isSeparator '_' = true := rfl
  intro hmem
  rcases h with h | ⟨language, territory, hlanguage, hterritory, htext⟩
  · exact Bool.eq_false_iff.1 (isSeparator_of_isLanguage h _ hmem) hseparator
  · rw [htext, List.mem_append, List.mem_cons] at hmem
    rcases hmem with hmem | hmem | hmem
    · exact Bool.eq_false_iff.1 (isSeparator_of_isLanguage hlanguage _ hmem) hseparator
    · exact absurd hmem (by decide)
    · exact Bool.eq_false_iff.1 (isSeparator_of_isTerritory hterritory _ hmem) hseparator

/-- **A base id is read as what it is the base id of**, without the script. -/
theorem read?_baseId (id : LocaleId) (hlanguage : isLanguage id.language.toList = true)
    (hterritory : ∀ territory ∈ id.territory, isTerritory territory.toList = true) :
    read? id.baseId = some { id with script := none } := by
  obtain ⟨language, script, territory⟩ := id
  replace hlanguage : isLanguage language.toList = true := hlanguage
  have hpiece := List.splitOnP_eq_singleton (isSeparator_of_isLanguage hlanguage)
  rcases territory with _ | territory
  · have hpieces : pieces language = [language.toList] := hpiece
    rw [baseId, read?_eq_ofPieces?, hpieces]
    simp [ofPieces?, Option.filter_some, hlanguage]
  · replace hterritory := hterritory territory rfl
    have hpieces : pieces (language ++ "-" ++ territory) =
        [language.toList, territory.toList] := by
      rw [pieces, String.toList_append, String.toList_append, List.append_assoc]
      show (language.toList ++ '-' :: territory.toList).splitOnP isSeparator = _
      rw [List.splitOnP_append_cons _ _ rfl, hpiece,
        List.splitOnP_eq_singleton (isSeparator_of_isTerritory hterritory)]
      rfl
    rw [baseId, read?_eq_ofPieces?, hpieces]
    simp [ofPieces?, Option.filter_some, hlanguage, hterritory, isScript_of_isTerritory hterritory]

/-- **A plain id is the base id of what it is read as.** -/
theorem IsPlain.exists_read? (h : IsPlain text) :
    ∃ id, read? text = some id ∧ id.baseId = text := by
  rcases h with hlanguage | ⟨language, territory, hlanguage, hterritory, htext⟩
  · have hread := read?_baseId ⟨text, none, none⟩ hlanguage (by simp)
    exact ⟨_, hread, rfl⟩
  · let id : LocaleId := ⟨String.ofList language, none, some (String.ofList territory)⟩
    have hbase : id.baseId = text := by
      rw [← String.toList_inj, htext]
      simp [id, baseId]
    have hread : read? id.baseId = some id :=
      read?_baseId id (by simpa [id] using hlanguage) (by simpa [id] using hterritory)
    exact ⟨id, hbase ▸ hread, hbase⟩

/-! ### Reading -/

/-- The id is what the pieces of the text say: the first is its language, the second its script if
it can be one, and the next after these its territory if it can be one. -/
structure Reads (text : String) (id : LocaleId) : Prop where
  first : (pieces text)[0]? = some id.language.toList
  language : isLanguage id.language.toList = true
  script : id.script = ((pieces text)[1]?.filter isScript).map String.ofList
  territory : id.territory =
    ((pieces text)[if id.script.isSome then 2 else 1]?.filter isTerritory).map String.ofList

instance (text : String) (id : LocaleId) : Decidable (Reads text id) :=
  decidable_of_iff ((pieces text)[0]? = some id.language.toList ∧
      isLanguage id.language.toList = true ∧
      id.script = ((pieces text)[1]?.filter isScript).map String.ofList ∧
      id.territory =
        ((pieces text)[if id.script.isSome then 2 else 1]?.filter isTerritory).map String.ofList)
    ⟨fun h ↦ ⟨h.1, h.2.1, h.2.2.1, h.2.2.2⟩, fun h ↦ ⟨h.first, h.language, h.script, h.territory⟩⟩

/-- **An id is read from a text** exactly when the pieces of the text say it. -/
theorem read?_eq_some_iff {id : LocaleId} : read? text = some id ↔ Reads text id := by
  rw [read?_eq_ofPieces?, ofPieces?, Option.map_eq_some_iff, List.head?_eq_getElem?]
  simp only [Option.filter_eq_some_iff]
  constructor
  · rintro ⟨language, ⟨hfirst, hlanguage⟩, rfl⟩
    exact ⟨by simpa using hfirst, by simpa using hlanguage, rfl, by simp⟩
  · intro h
    refine ⟨id.language.toList, ⟨h.first, h.language⟩, ?_⟩
    have hscript : ((pieces text)[1]?.filter isScript).isSome = id.script.isSome := by
      rw [h.script, Option.isSome_map]
    rw [hscript, ← h.script, ← h.territory, String.ofList_toList]

/-- A text is read as an id exactly if its first piece is a language. -/
theorem exists_read?_iff :
    (∃ id, read? text = some id) ↔ ∃ piece, (pieces text)[0]? = some piece ∧ isLanguage piece := by
  rw [← Option.isSome_iff_exists, read?_eq_ofPieces?, ofPieces?, Option.isSome_map,
    Option.isSome_iff_exists, List.head?_eq_getElem?]
  simp only [Option.filter_eq_some_iff]

/-- Nothing after the third piece counts. -/
theorem read?_congr {text' : String} (h : (pieces text').take 3 = (pieces text).take 3) :
    read? text' = read? text := by
  have hpiece : ∀ i < 3, (pieces text')[i]? = (pieces text)[i]? := fun i hi ↦ by
    rw [← List.getElem?_take_of_lt hi, h, List.getElem?_take_of_lt hi]
  rw [read?_eq_ofPieces?, read?_eq_ofPieces?, ofPieces?, ofPieces?, List.head?_eq_getElem?,
    List.head?_eq_getElem?, hpiece 0 (by decide), hpiece 1 (by decide),
    hpiece _ (by split <;> decide)]

/-- A territory that is read is one. -/
theorem Reads.isTerritory {id : LocaleId} (h : Reads text id) :
    ∀ territory ∈ id.territory, isTerritory territory.toList = true := by
  intro territory hmem
  rw [h.territory] at hmem
  obtain ⟨piece, hpiece, rfl⟩ := Option.map_eq_some_iff.1 hmem
  rw [String.toList_ofList]
  exact (Option.filter_eq_some_iff.1 hpiece).2

/-- The lookup chain has nothing of the script. -/
theorem lookupChain_withoutScript (id : LocaleId) :
    ({ id with script := none } : LocaleId).lookupChain = id.lookupChain := by
  obtain ⟨language, script, _ | territory⟩ := id <;> rfl

/-- **A locale id is read piece by piece.** A text is read as an id exactly if its first piece is a
language, and the id has that language, the second piece as its script and the next as its
territory, if they can be; any later piece is ignored. So it does not matter which separators are
used, and a base id is read as what it is the base id of, up to the script, and has the same places
to look things up. -/
theorem read?_piecewise (text : String) :
    ((∃ id, read? text = some id) ↔
      ∃ piece, (pieces text)[0]? = some piece ∧ isLanguage piece = true) ∧
    (∀ id, read? text = some id ↔ Reads text id) ∧
    (∀ text', (pieces text').take 3 = (pieces text).take 3 → read? text' = read? text) ∧
    read? (normalize text) = read? text ∧
    ∀ id, read? text = some id → ∃ base, read? id.baseId = some base ∧
      base.language = id.language ∧ base.territory = id.territory ∧ base.script = none ∧
      base.lookupChain = id.lookupChain := by
  refine ⟨exists_read?_iff, fun id ↦ read?_eq_some_iff, fun text' ↦ read?_congr,
    read?_normalize text, fun id hid ↦ ?_⟩
  have hreads := read?_eq_some_iff.1 hid
  exact ⟨{ id with script := none }, read?_baseId id hreads.language hreads.isTerritory, rfl, rfl,
    rfl, lookupChain_withoutScript id⟩

/-- Pieces that begin like a territory or a script and go on are neither, a separator may end the
text, and what comes after the territory is ignored, with either separator. -/
theorem read?_piecewise_overlong :
    read? "pt-PTX" = some ⟨"pt", none, none⟩ ∧ read? "pt-Latin" = some ⟨"pt", none, none⟩ ∧
    read? "zh-Hant-" = some ⟨"zh", some "Hant", none⟩ ∧
    (¬∃ id, read? "port-PT" = some id) ∧
    read? "sr_Latn_BA_ekavsk" = some ⟨"sr", some "Latn", some "BA"⟩ ∧
    read? "sr-Latn-BA-ekavsk" = read? "sr_Latn-BA-valencia" ∧
    ∃ base, read? "sr-BA" = some base ∧ base.lookupChain = ["sr-BA", "sr"] := by
  have hserbian : read? "sr-Latn-BA-ekavsk" = some ⟨"sr", some "Latn", some "BA"⟩ :=
    ((read?_piecewise "sr-Latn-BA-ekavsk").2.1 _).2 (by decide +kernel)
  refine ⟨((read?_piecewise "pt-PTX").2.1 _).2 (by decide +kernel),
    ((read?_piecewise "pt-Latin").2.1 _).2 (by decide +kernel),
    ((read?_piecewise "zh-Hant-").2.1 _).2 (by decide +kernel), ?_, ?_, ?_, ?_⟩
  · intro hread
    obtain ⟨piece, hpiece, hkind⟩ := (read?_piecewise "port-PT").1.1 hread
    have hfirst : (pieces "port-PT")[0]? = some "port".toList := by decide +kernel
    obtain rfl := Option.some.inj (hfirst.symm.trans hpiece)
    exact absurd hkind (by decide +kernel)
  · exact (read?_piecewise "sr-Latn-BA-ekavsk").2.2.2.1.trans hserbian
  · exact (read?_piecewise "sr_Latn-BA-valencia").2.2.1 _ (by decide +kernel)
  · obtain ⟨base, hbase, -, -, -, hchain⟩ :=
      (read?_piecewise "sr-Latn-BA-ekavsk").2.2.2.2 _ hserbian
    exact ⟨base, hbase, hchain⟩

end PluralForms.LocaleId
