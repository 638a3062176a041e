import PluralForms.Proofs.Relation.Grammar
import PluralForms.Proofs.Rule.Pieces

/-!
# The texts of a rule

A text spells a rule when it spells the relations of the rule, with `and` between the relations of a
group, `or` between the groups, blanks on both sides of these words, and possibly blanks at the ends
(`Spells`). The rules that have a spelling are the valid ones: there is a group, no group is empty,
and all relations are valid.

A rule is read exactly from the texts that spell it (`read_eq_ok_iff`). The proof goes through the
words of the text (`spells_iff_piecesSpell`): no relation has the word `or` or `and`, so the reader
cuts the words where the separators were put, and how far the words stand apart does not matter.

A text without parentheses has its atoms, which are the texts between separators (`Atoms`). Where
reading fails, it fails with what is wrong with the leftmost malformed atom (`read_eq_error_iff`).
-/

namespace PluralForms.Rule

open Text

/-! ### Spellings -/

/-- The text spells the relations, with `and` between them. -/
def GroupSpells (group : List Relation) (cs : List Char) : Prop :=
  ∃ texts, Joined "and".toList texts cs ∧ List.Forall₂ Relation.Spells group texts

/-- **The text spells the rule**: its groups, with `or` between them, and blanks at the ends. -/
def Spells (rule : Rule) (text : String) : Prop :=
  ∃ b core b' texts, text.toList = b ++ core ++ b' ∧ Blank b ∧ Blank b' ∧
    Joined "or".toList texts core ∧ List.Forall₂ GroupSpells rule texts

/-- There is a group, each group has a relation, and the relations are valid. -/
structure Valid (rule : Rule) : Prop where
  ne_nil : rule ≠ []
  group_ne_nil : ∀ group ∈ rule, group ≠ []
  relations : ∀ group ∈ rule, ∀ r ∈ group, r.Valid

/-- The words of the pieces spell the relations of the rule, one by one. -/
def PiecesSpell (wsss : List (List (List (List Char)))) (rule : Rule) : Prop :=
  List.Forall₂ (List.Forall₂ fun ws r ↦ Relation.Spells r (unwords ws)) wsss rule

theorem isWord_or : IsWord "or".toList :=
  isWord_of_any_eq_false (by decide) (by decide)

theorem isWord_and : IsWord "and".toList :=
  isWord_of_any_eq_false (by decide) (by decide)

/-- The words of a relation are no separators. -/
theorem exists_apart_of_spells {r : Relation} {cs : List Char} (h : r.Spells cs) :
    ∃ ws, (Apart ws cs ∧ "or".toList ∉ ws ∧ "and".toList ∉ ws) ∧ r.Spells (unwords ws) := by
  have hspells := h
  obtain ⟨d, hmatches, -⟩ := h
  obtain ⟨runs, -, -, hapart⟩ := hmatches.2.exists_runs hmatches.1.isWord_of_mem_parts
  refine ⟨_, ⟨hapart, fun hor ↦ ?_, fun hand ↦ ?_⟩,
    hspells.of_apart hapart (apart_unwords hapart.ne_nil hapart.isWord)⟩
  · have ho : 'o' ∈ cs := hapart.mem_of_mem_word hor (by decide)
    exact absurd (hmatches.mem ho) (by decide)
  · have ha : 'a' ∈ cs := hapart.mem_of_mem_word hand (by decide)
    exact absurd (hmatches.mem ha) (by decide)

/-- The words of a group are cut into the words of its relations. -/
theorem GroupSpells.exists_apart {group : List Relation} {cs : List Char}
    (h : GroupSpells group cs) :
    ∃ ws, (Apart ws cs ∧ "or".toList ∉ ws) ∧
      List.Forall₂ (fun ws r ↦ Relation.Spells r (unwords ws)) (cutAtWord "and".toList ws)
        group := by
  obtain ⟨texts, hjoined, htexts⟩ := h
  obtain ⟨wss, hwss, hspells⟩ := exists_forall₂_between htexts fun _ _ ↦ exists_apart_of_spells
  have hapart := apart_intercalate_of_joined isWord_and hjoined (hwss.imp fun _ _ h ↦ h.1)
  have hmem : ∀ ws ∈ wss, Apart ws (unwords ws) ∧ "or".toList ∉ ws ∧ "and".toList ∉ ws := by
    intro ws hws
    obtain ⟨t, -, ht, hwords⟩ := exists_of_forall₂_of_mem hwss hws
    exact ⟨apart_unwords ht.ne_nil ht.isWord, hwords⟩
  have hne : wss ≠ [] := fun hnil ↦ hapart.ne_nil (by rw [hnil]; rfl)
  refine ⟨_, ⟨hapart, fun hor ↦ ?_⟩, ?_⟩
  · rcases mem_intercalate hor with hand | ⟨ws, hws, hor⟩
    · exact absurd hand (by decide)
    · exact (hmem ws hws).2.1 hor
  · rwa [cutAtWord_intercalate hne fun ws hws ↦ ⟨(hmem ws hws).1.ne_nil, (hmem ws hws).2.2⟩]

/-- Words that stand apart and are cut into the words of relations spell a group. -/
theorem groupSpells_of_apart {group : List Relation} {cs : List Char} {ws : List (List Char)}
    (hapart : Apart ws cs)
    (h : List.Forall₂ (fun ws r ↦ Relation.Spells r (unwords ws)) (cutAtWord "and".toList ws)
      group) : GroupSpells group cs := by
  have hjoin := intercalate_cutAtWord "and".toList ws
  obtain ⟨texts, hjoined, htexts⟩ := exists_joined_of_apart (cutAtWord_ne_nil _ ws)
    (fun _ hpiece ↦ ne_nil_of_mem_cutAtWord hapart.ne_nil hpiece) (hjoin ▸ hapart)
  refine ⟨texts, hjoined, forall₂_of_forall₂_of_forall₂ htexts h fun ws t r ht hr ↦ ?_⟩
  exact hr.of_apart (apart_unwords ht.ne_nil ht.isWord) ht

/-- **A text spells a rule when its pieces spell the relations of the rule.** -/
theorem spells_iff_piecesSpell {rule : Rule} {text : String} :
    rule.Spells text ↔ PiecesSpell (pieces (words text.toList)) rule := by
  constructor
  · rintro ⟨b, core, b', texts, htext, hb, hb', hjoined, htexts⟩
    obtain ⟨wss, hwss, hspells⟩ := exists_forall₂_between htexts fun _ _ ↦ GroupSpells.exists_apart
    have hapart := apart_intercalate_of_joined isWord_or hjoined (hwss.imp fun _ _ h ↦ h.1)
    have hne : wss ≠ [] := fun hnil ↦ hapart.ne_nil (by rw [hnil]; rfl)
    have hmem : ∀ ws ∈ wss, ws ≠ [] ∧ "or".toList ∉ ws := by
      intro ws hws
      obtain ⟨t, -, ht, hor⟩ := exists_of_forall₂_of_mem hwss hws
      exact ⟨ht.ne_nil, hor⟩
    rw [htext, words_between hb hb', hapart.words_eq, pieces, cutAtWord_intercalate hne hmem]
    exact List.forall₂_map_left_iff.2 hspells
  · intro h
    rcases exists_apart text.toList with hblank | ⟨b, core, b', htext, hb, hb', hapart⟩
    · -- a blank text has one piece, which is empty, and no relation is
      rw [words_of_blank hblank] at h
      obtain ⟨group, -, hgroup, -, -⟩ := List.forall₂_cons_left_iff.1 h
      obtain ⟨r, -, hr, -, -⟩ := List.forall₂_cons_left_iff.1 hgroup
      obtain ⟨ws, ⟨hws, -⟩, -⟩ := exists_apart_of_spells hr
      exact absurd rfl hws.text_ne_nil
    · have hjoin := intercalate_cutAtWord "or".toList (words text.toList)
      obtain ⟨texts, hjoined, htexts⟩ := exists_joined_of_apart (cutAtWord_ne_nil _ _)
        (fun _ hpiece ↦ ne_nil_of_mem_cutAtWord hapart.ne_nil hpiece) (hjoin ▸ hapart)
      refine ⟨b, core, b', texts, htext, hb, hb', hjoined, ?_⟩
      exact forall₂_of_forall₂_of_forall₂ htexts (List.forall₂_map_left_iff.1 h)
        fun _ _ _ ↦ groupSpells_of_apart

/-! ### Valid rules -/

/-- Only valid rules are spelled. -/
theorem Spells.valid {rule : Rule} {text : String} (h : rule.Spells text) : rule.Valid := by
  obtain ⟨_, core, _, texts, -, -, -, hjoined, htexts⟩ := h
  refine ⟨?_, ?_, ?_⟩
  · intro hnil
    rw [hnil, List.forall₂_nil_left_iff] at htexts
    exact hjoined.ne_nil htexts
  · intro group hgroup hnil
    obtain ⟨t, -, ts, hts, hspells⟩ := exists_of_forall₂_of_mem htexts hgroup
    rw [hnil, List.forall₂_nil_left_iff] at hspells
    exact hts.ne_nil hspells
  · intro group hgroup r hr
    obtain ⟨t, -, ts, -, hspells⟩ := exists_of_forall₂_of_mem htexts hgroup
    obtain ⟨u, -, hu⟩ := exists_of_forall₂_of_mem hspells hr
    exact hu.valid

/-- Every group of valid relations is spelled by some text. -/
theorem exists_groupSpells {group : List Relation} (hne : group ≠ [])
    (h : ∀ r ∈ group, r.Valid) : ∃ cs, GroupSpells group cs := by
  obtain ⟨texts, htexts⟩ := exists_forall₂_of_forall_mem fun r hr ↦ (h r hr).exists_spells
  have htextsne : texts ≠ [] := by
    rintro rfl
    exact hne (List.forall₂_nil_right_iff.1 htexts)
  obtain ⟨cs, hcs⟩ := exists_joined "and".toList htextsne
  exact ⟨cs, texts, hcs, htexts⟩

/-- Every valid rule is spelled by some text. -/
theorem Valid.exists_spells {rule : Rule} (h : rule.Valid) : ∃ text, rule.Spells text := by
  obtain ⟨texts, htexts⟩ := exists_forall₂_of_forall_mem fun group hgroup ↦
    exists_groupSpells (h.group_ne_nil group hgroup) (h.relations group hgroup)
  have htextsne : texts ≠ [] := by
    rintro rfl
    exact h.ne_nil (List.forall₂_nil_right_iff.1 htexts)
  obtain ⟨core, hcore⟩ := exists_joined "or".toList htextsne
  exact ⟨.ofList core, [], core, [], texts, by simp, blank_nil, blank_nil, hcore, htexts⟩

/-! ### Reading -/

/-- The text has a parenthesis. -/
def hasParenthesis (text : String) : Bool :=
  text.toList.any fun c ↦ c == '(' || c == ')'

theorem isWord_of_mem_pieces {cs : List Char} {group : List (List (List Char))}
    (hgroup : group ∈ pieces (words cs)) {ws : List (List Char)} (hws : ws ∈ group) :
    ∀ w ∈ ws, IsWord w :=
  fun _ hw ↦ isWord_of_mem_words (mem_of_mem_pieces hgroup hws hw)

/-- The characters of a spelling: those of relations, and the letters of the separators. -/
theorem Spells.mem {rule : Rule} {text : String} (h : rule.Spells text) {c : Char}
    (hc : c ∈ text.toList) : isBlank c = true ∨ isDecimalDigit c = true ∨
      c ∈ Relation.formCharacters ∨ c ∈ "orand".toList := by
  obtain ⟨b, core, b', texts, htext, hb, hb', hjoined, htexts⟩ := h
  rw [htext, List.mem_append, List.mem_append] at hc
  rcases hc with (hc | hc) | hc
  · exact .inl (hb c hc)
  · rcases hjoined.mem hc with hblank | hor | ⟨t, ht, hc⟩
    · exact .inl hblank
    · exact .inr (.inr (.inr (List.mem_append_left "and".toList hor)))
    · obtain ⟨group, -, ts, hts, hspells⟩ := exists_of_forall₂_of_mem htexts.flip ht
      rcases hts.mem hc with hblank | hand | ⟨u, hu, hc⟩
      · exact .inl hblank
      · exact .inr (.inr (.inr (List.mem_append_right "or".toList hand)))
      · obtain ⟨r, -, d, hmatches, -⟩ := exists_of_forall₂_of_mem hspells.flip hu
        exact (hmatches.mem hc).imp_right (Or.imp_right .inl)
  · exact .inl (hb' c hc)

/-- A spelling has no parenthesis. -/
theorem Spells.hasParenthesis_eq_false {rule : Rule} {text : String} (h : rule.Spells text) :
    hasParenthesis text = false := by
  refine List.any_eq_false.2 fun c hc hparen ↦ ?_
  have hcases := h.mem hc
  obtain rfl | rfl : c = '(' ∨ c = ')' := by simpa using hparen
  all_goals
    revert hcases
    decide

theorem read_of_hasParenthesis {text : String} (h : hasParenthesis text = true) :
    read text = .error .parenthesized := by
  rw [read]
  exact if_pos h

/-- Without parentheses, the pieces are read one by one. -/
theorem read_eq_mapM {text : String} (h : hasParenthesis text = false) :
    read text = (pieces (words text.toList)).mapM fun group ↦
      group.mapM fun ws ↦ Relation.readTrimmed (unwords ws) := by
  rw [read]
  exact if_neg (Bool.eq_false_iff.1 h)

/-- **A rule is read from the texts that spell it.** -/
theorem read_eq_ok_iff {rule : Rule} {text : String} :
    read text = .ok rule ↔ rule.Spells text := by
  cases hparen : hasParenthesis text with
  | true =>
    rw [read_of_hasParenthesis hparen]
    refine ⟨nofun, fun h ↦ ?_⟩
    rw [h.hasParenthesis_eq_false] at hparen
    cases hparen
  | false =>
    rw [read_eq_mapM hparen, mapM_eq_ok_iff, spells_iff_piecesSpell]
    refine forall₂_iff_of_forall_mem fun group hgroup relations ↦ mapM_eq_ok_iff.trans ?_
    refine forall₂_iff_of_forall_mem fun ws hws r ↦ ?_
    exact Relation.readTrimmed_eq_ok_iff
      (not_blank_getLast?_unwords (isWord_of_mem_pieces hgroup hws))

/-- A text spells at most one rule. -/
theorem Spells.unique {rule rule' : Rule} {text : String} (h : rule.Spells text)
    (h' : rule'.Spells text) : rule = rule' :=
  Except.ok.inj ((read_eq_ok_iff.2 h).symm.trans (read_eq_ok_iff.2 h'))

/-! ### Faults -/

/-- The texts of the relations of a rule, whether they can be read or not: the text, with its blanks
collapsed, is cut at `or` between blanks, and each piece at `and` between blanks. -/
def Atoms (text : String) (atoms : List (List Char)) : Prop :=
  ∃ groups atomss, Cut (betweenBlanks "or".toList) (collapse text.toList) groups ∧
    List.Forall₂ (Cut (betweenBlanks "and".toList)) groups atomss ∧ atoms = atomss.flatten

/-- The texts of the pieces. -/
def pieceTexts (text : String) : List (List Char) :=
  (pieces (words text.toList)).flatten.map unwords

/-- **The pieces of a rule are its atoms.** -/
theorem atoms_iff {text : String} {atoms : List (List Char)} :
    Atoms text atoms ↔ atoms = pieceTexts text := by
  have hwords : ∀ w ∈ words text.toList, IsWord w := fun w hw ↦ isWord_of_mem_words hw
  have hgroups := cut_unwords isWord_or hwords
  have hatoms : List.Forall₂ (Cut (betweenBlanks "and".toList))
      ((cutAtWord "or".toList (words text.toList)).map unwords)
      ((pieces (words text.toList)).map (List.map unwords)) := by
    rw [pieces, List.map_map, List.forall₂_map_left_iff, List.forall₂_map_right_iff,
      List.forall₂_same]
    exact fun ws hws ↦ cut_unwords isWord_and fun w hw ↦ hwords w (mem_of_mem_cutAtWord hws hw)
  constructor
  · rintro ⟨groups, atomss, hcut, hcuts, rfl⟩
    obtain rfl := hgroups.unique hcut
    have hunique : Relator.RightUnique (Cut (betweenBlanks "and".toList)) :=
      fun _ _ _ ↦ Cut.unique
    rw [List.right_unique_forall₂' hunique hcuts hatoms]
    exact List.map_flatten.symm
  · rintro rfl
    exact ⟨_, _, hgroups, hatoms, List.map_flatten⟩

/-- A piece of a text without parentheses has none. -/
theorem any_paren_unwords {text : String} (h : hasParenthesis text = false)
    {group : List (List (List Char))} (hgroup : group ∈ pieces (words text.toList))
    {ws : List (List Char)} (hws : ws ∈ group) :
    (unwords ws).any (fun c ↦ c == '(' || c == ')') = false := by
  refine List.any_eq_false.2 fun c hc ↦ ?_
  rcases mem_unwords hc with rfl | ⟨w, hw, hc⟩
  · decide
  · exact List.any_eq_false.1 h c (mem_of_mem_words (mem_of_mem_pieces hgroup hws hw) hc)

/-- What is wrong with the leftmost atom that spells no relation. -/
def LeftmostFault (atoms : List (List Char)) (f : Fault) : Prop :=
  ∃ before atom after, atoms = before ++ atom :: after ∧
    (∀ a ∈ before, ∃ r, Relation.Spells r a) ∧ Relation.Malformed atom f

/-- **Reading fails at the leftmost malformed piece.** -/
theorem read_eq_error_iff {text : String} (hparen : hasParenthesis text = false) {f : Fault} :
    read text = .error f ↔ LeftmostFault (pieceTexts text) f := by
  rw [read_eq_mapM hparen, mapM_mapM_eq_error_iff, mapM_eq_error_iff]
  have hpiece : ∀ ws ∈ (pieces (words text.toList)).flatten,
      (∀ r, Relation.readTrimmed (unwords ws) = .ok r ↔ Relation.Spells r (unwords ws)) ∧
        ∀ f, Relation.readTrimmed (unwords ws) = .error f ↔ Relation.Malformed (unwords ws) f := by
    intro ws hws
    obtain ⟨group, hgroup, hws⟩ := List.mem_flatten.1 hws
    have hend := not_blank_getLast?_unwords (isWord_of_mem_pieces hgroup hws)
    exact ⟨fun r ↦ Relation.readTrimmed_eq_ok_iff hend,
      fun f ↦ Relation.readTrimmed_eq_error_iff hend (any_paren_unwords hparen hgroup hws)⟩
  constructor
  · rintro ⟨before, ws, after, hsplit, hbefore, hf⟩
    refine ⟨before.map unwords, unwords ws, after.map unwords, ?_, ?_, ?_⟩
    · rw [pieceTexts, hsplit, List.map_append, List.map_cons]
    · rw [List.forall_mem_map]
      intro us hus
      obtain ⟨r, hr⟩ := hbefore us hus
      exact ⟨r, ((hpiece us (by simp [hsplit, hus])).1 r).1 hr⟩
    · exact ((hpiece ws (by simp [hsplit])).2 f).1 hf
  · rintro ⟨before, atom, after, hsplit, hbefore, hf⟩
    -- the atoms on both sides are the texts of pieces on both sides
    obtain ⟨us, rest, hflat, rfl, hrest⟩ := List.map_eq_append_iff.1 hsplit
    obtain ⟨ws, vs, rfl, rfl, rfl⟩ := List.map_eq_cons_iff.1 hrest
    refine ⟨us, ws, vs, hflat, fun x hx ↦ ?_, ((hpiece ws (by simp [hflat])).2 f).2 hf⟩
    obtain ⟨r, hr⟩ := hbefore (unwords x) (List.mem_map_of_mem hx)
    exact ⟨r, ((hpiece x (by simp [hflat, hx])).1 r).2 hr⟩

theorem compileText_of_read {rule : Rule} {text : String} (h : read text = .ok rule) :
    compileText text = rule.compile := by
  rw [compileText, h]
  rfl

theorem compileText_of_read_eq_error {text : String} {f : Fault} (h : read text = .error f) :
    compileText text = .error f := by
  rw [compileText, h]
  rfl

/-- **Rules are read exactly as they are spelled.** The valid rules are those that have a spelling.
A rule is read from its spellings and from no other text, and it is then compiled to the disjunction
of the conjunctions of what its relations amount to. A parenthesis is a fault before all others. A
text without one has its atoms, reading fails exactly if one of them is malformed, and the fault is
that of the leftmost. -/
theorem read_exactly_spellings :
    (∀ rule : Rule, rule.Valid ↔ ∃ text, rule.Spells text) ∧
    (∀ (rule : Rule) (text : String), read text = .ok rule ↔ rule.Spells text) ∧
    (∀ (rule : Rule) (text : String), rule.Spells text → compileText text =
      Truth.disjunction (rule.map fun group ↦ Truth.conjunction (group.map (·.compile)))) ∧
    (∀ text, hasParenthesis text = true → compileText text = .error .parenthesized) ∧
    ∀ text, hasParenthesis text = false → ∃ atoms, (∀ as, Atoms text as ↔ as = atoms) ∧
      ∀ f, (read text = .error f ↔ LeftmostFault atoms f) ∧
        (LeftmostFault atoms f → compileText text = .error f) := by
  refine ⟨fun rule ↦ ⟨Valid.exists_spells, fun ⟨_, h⟩ ↦ h.valid⟩, fun _ _ ↦ read_eq_ok_iff,
    fun rule text h ↦ compileText_of_read (read_eq_ok_iff.2 h),
    fun text h ↦ compileText_of_read_eq_error (read_of_hasParenthesis h), fun text h ↦ ?_⟩
  refine ⟨pieceTexts text, fun _ ↦ atoms_iff, fun f ↦ ⟨read_eq_error_iff h, fun hf ↦ ?_⟩⟩
  exact compileText_of_read_eq_error ((read_eq_error_iff h).2 hf)

/-- A rule whose spelling below has blanks of several kinds, zeros in front and a range that is a
single number. -/
def loosely : Rule :=
  [[{ subject := .n, modulus := some 10, negated := false, values := [.single 1, .range 3 5] },
    { subject := .v, modulus := none, negated := false, values := [.single 0] }],
   [{ subject := .i, modulus := none, negated := true, values := [.single 2] }]]

/-- A rule and one of its spellings; a text with a parenthesis; and a text with two malformed
atoms. -/
theorem read_exactly_spellings_loosely :
    (loosely.Spells " n%010 = 1..1 ,03..5\tand v=0  or\u3000i != 2" ∧
      compileText " n%010 = 1..1 ,03..5\tand v=0  or\u3000i != 2" = loosely.compile) ∧
    (hasParenthesis "n = 2..1 or (v = 0)" = true ∧
      compileText "n = 2..1 or (v = 0)" = .error .parenthesized) ∧
    hasParenthesis "v = 0 and n % 0 = 1 or n = 2..1" = false ∧
      compileText "v = 0 and n % 0 = 1 or n = 2..1" = .error (.zeroModulus "n % 0 = 1") := by
  obtain ⟨-, hread, hcompile, hparen, hfault⟩ := read_exactly_spellings
  have hspells : loosely.Spells " n%010 = 1..1 ,03..5\tand v=0  or\u3000i != 2" :=
    (hread _ _).1 (by decide +kernel)
  have hnone : hasParenthesis "v = 0 and n % 0 = 1 or n = 2..1" = false := by decide
  refine ⟨⟨hspells, hcompile _ _ hspells⟩, ⟨by decide, hparen _ (by decide)⟩, hnone, ?_⟩
  obtain ⟨atoms, -, hatoms⟩ := hfault _ hnone
  have hleftmost : LeftmostFault atoms (.zeroModulus "n % 0 = 1") :=
    (hatoms _).1.1 (by decide +kernel)
  exact (hatoms _).2 hleftmost

end PluralForms.Rule
