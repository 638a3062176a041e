import PluralForms.Proofs.SampleList.Item

/-!
# What sample lists look like

A sample list is a list of items with commas between them and blanks around them as one likes
(`SampleList.IsCommaList`), and an ellipsis may follow after a comma. Reading is exact
(`SampleList.read_exactly_lists`): such a list is read, with the numbers and the compact tokens of
its items in order; whatever is read has such a list for its body; and of any other text the first
token that spells no item is reported. That a list has nothing in it is never reported, since there
is always a token, and each item has a number or is set aside.

The ellipsis and the punctuation in front of it are taken off the end of the text, and a list ends
in a digit. So what is taken off is never part of the list, and what is left of the text after the
list is at most blanks (`IsCommaList.body_append`).
-/

namespace PluralForms.SampleList

open Text

variable {text : String} {list : SampleList} {items : List SampleItem} {cs : List Char}

/-! ### Tokens -/

/-- The samples of a list of items. -/
def ofItems (items : List SampleItem) : SampleList where
  numbers := items.flatMap (·.numbers)
  skipped := items.filterMap (·.compact?)

/-- An item has a number or is set aside. -/
theorem ofItems_ne_empty (hne : items ≠ []) :
    ¬((ofItems items).numbers = [] ∧ (ofItems items).skipped = []) := by
  obtain ⟨item, items, rfl⟩ := List.exists_cons_of_ne_nil hne
  cases item with
  | number k => simp [ofItems, SampleItem.numbers]
  | range a b => simp [ofItems, SampleItem.numbers, SampleItem.sampleRange]
  | compact token => simp [ofItems, SampleItem.compact?]

/-- **A list is read as the samples of its items.** That it is empty is never found. -/
theorem read_eq_map (text : String) :
    read text = ((tokens text.toList).mapM SampleItem.read).map ofItems := by
  rw [read]
  cases h : (tokens text.toList).mapM SampleItem.read with
  | error f => rfl
  | ok items =>
    have hne : items ≠ [] := by
      rintro rfl
      have htokens := List.forall₂_nil_right_iff.1 (mapM_eq_ok_iff.1 h)
      simp [tokens] at htokens
    have hcond : ¬((items.flatMap (·.numbers)).isEmpty && (items.filterMap (·.compact?)).isEmpty) :=
      by simpa [ofItems] using ofItems_ne_empty hne
    exact if_neg hcond

/-- A trimmed token has no blanks at its ends, so what is read from it is what it spells. -/
theorem spells_iff_of_mem_map_trim {pieces : List (List Char)} {token : List Char}
    (h : token ∈ pieces.map trim) :
    (∀ item, SampleItem.read token = .ok item ↔ item.Spells token) ∧
      ∀ f, SampleItem.read token = .error f ↔
        (∀ item : SampleItem, ¬item.Spells token) ∧ f = SampleItem.faultOf token := by
  obtain ⟨part, -, rfl⟩ := List.mem_map.1 h
  have hstart := not_blank_head?_trim part
  have hend := not_blank_getLast?_trim part
  exact ⟨fun _ ↦ SampleItem.read_eq_ok_iff hstart hend,
    fun _ ↦ SampleItem.read_eq_error_iff hstart hend⟩

/-- **A list is read when every token spells an item.** -/
theorem read_eq_ok_iff :
    read text = .ok list ↔ ∃ items, List.Forall₂ (fun token item ↦ SampleItem.Spells item token)
      (tokens text.toList) items ∧ ofItems items = list := by
  rw [read_eq_map, map_eq_ok_iff]
  refine exists_congr fun items ↦ and_congr_left fun _ ↦ ?_
  rw [mapM_eq_ok_iff]
  exact forall₂_iff_of_forall_mem fun token htoken ↦ (spells_iff_of_mem_map_trim htoken).1

/-- **The first token that spells no item is reported.** -/
theorem read_eq_error_iff {f : SampleFault} :
    read text = .error f ↔ ∃ before token after,
      tokens text.toList = before ++ token :: after ∧
      (∀ t ∈ before, ∃ item : SampleItem, item.Spells t) ∧
      (∀ item : SampleItem, ¬item.Spells token) ∧ f = SampleItem.faultOf token := by
  rw [read_eq_map, map_eq_error_iff, mapM_eq_error_iff]
  refine exists_congr fun before ↦ exists_congr fun token ↦ exists_congr fun after ↦ ?_
  refine and_congr_right fun htokens ↦ ?_
  have hbefore : ∀ t ∈ before, t ∈ tokens text.toList :=
    fun t ht ↦ htokens ▸ List.mem_append_left _ ht
  have htoken : token ∈ tokens text.toList := by simp [htokens]
  refine and_congr (forall₂_congr fun t ht ↦ exists_congr fun item ↦ ?_) ?_
  · exact (spells_iff_of_mem_map_trim (hbefore t ht)).1 item
  · exact (spells_iff_of_mem_map_trim htoken).2 f

/-! ### Comma lists -/

/-- The items stand in the text with a comma between any two and possibly blanks around it. -/
inductive Listed : List SampleItem → List Char → Prop
  | single {item : SampleItem} {token : List Char} (h : item.Spells token) : Listed [item] token
  | cons {item : SampleItem} {items : List SampleItem} {token gap gap' cs : List Char}
      (h : item.Spells token) (hgap : Blank gap) (hgap' : Blank gap') (hrest : Listed items cs) :
      Listed (item :: items) (token ++ gap ++ ',' :: (gap' ++ cs))

/-- The text is a comma list of the items, with blanks allowed around each of them. -/
def IsCommaList (items : List SampleItem) (cs : List Char) : Prop :=
  ∃ b core b', cs = b ++ core ++ b' ∧ Blank b ∧ Blank b' ∧ Listed items core

theorem IsCommaList.ne_nil (h : IsCommaList items cs) : items ≠ [] := by
  obtain ⟨_, core, _, -, -, -, hcore⟩ := h
  cases hcore <;> exact List.cons_ne_nil _ _

/-- A token that spells an item is what is left when the blanks around it are trimmed. -/
theorem trim_around_token {item : SampleItem} {token b b' : List Char} (h : item.Spells token)
    (hb : Blank b) (hb' : Blank b') : trim (b ++ token ++ b') = token :=
  trim_around hb (fun c hc ↦ isBlank_eq_false_of_isDecimalDigit (h.isToken.head c hc))
    (fun c hc ↦ isBlank_eq_false_of_isDecimalDigit (h.isToken.last c hc)) hb'

theorem comma_notMem_around {item : SampleItem} {token b b' : List Char} (h : item.Spells token)
    (hb : Blank b) (hb' : Blank b') : ',' ∉ b ++ token ++ b' := by
  have hblank : ∀ {b : List Char}, Blank b → ',' ∉ b :=
    fun hb hmem ↦ absurd (hb _ hmem) (by decide)
  simp [hblank hb, hblank hb', h.isToken.comma]

/-- The items of a comma list are spelled between its commas. -/
theorem Listed.forall₂_spells {core : List Char} (h : Listed items core) {b b' : List Char}
    (hb : Blank b) (hb' : Blank b') :
    List.Forall₂ (fun token item ↦ SampleItem.Spells item token)
      (((b ++ core ++ b').splitOn ',').map trim) items := by
  induction h generalizing b with
  | single h =>
    rw [List.splitOn_eq_singleton (comma_notMem_around h hb hb'), List.map_singleton,
      trim_around_token h hb hb']
    exact .cons h .nil
  | @cons item items token gap gap' cs h hgap hgap' _ ih =>
    have htext : b ++ (token ++ gap ++ ',' :: (gap' ++ cs)) ++ b' =
        (b ++ token ++ gap) ++ ',' :: (gap' ++ cs ++ b') := by simp
    rw [htext, splitOn_append_cons (comma_notMem_around h hb hgap), List.map_cons,
      trim_around_token h hb hgap]
    exact .cons h (ih hgap')

/-- Pieces that spell items make a comma list of them. -/
theorem isCommaList_intercalate {pieces : List (List Char)}
    (h : List.Forall₂ (fun piece item ↦ SampleItem.Spells item (trim piece)) pieces items)
    (hne : pieces ≠ []) : IsCommaList items ([','].intercalate pieces) := by
  induction h with
  | nil => exact absurd rfl hne
  | @cons piece item pieces items hpiece hrest ih =>
    obtain ⟨b, b', hb, hb', heq⟩ := exists_blank_append_trim piece
    generalize trim piece = token at hpiece heq
    subst heq
    cases hrest with
    | nil =>
      rw [List.intercalate_singleton]
      exact ⟨b, token, b', rfl, hb, hb', .single hpiece⟩
    | cons _ _ =>
      obtain ⟨gap, core, b'', htext, hgap, hb'', hcore⟩ := ih (List.cons_ne_nil _ _)
      refine ⟨b, _, b'', ?_, hb, hb'', .cons hpiece hb' hgap hcore⟩
      rw [List.intercalate_cons_cons, htext]
      simp

/-- A text is a comma list of what its tokens spell. -/
theorem isCommaList_iff : IsCommaList items cs ↔
    List.Forall₂ (fun token item ↦ SampleItem.Spells item token)
      ((cs.splitOn ',').map trim) items := by
  constructor
  · rintro ⟨b, core, b', rfl, hb, hb', hcore⟩
    exact hcore.forall₂_spells hb hb'
  · intro h
    rw [List.forall₂_map_left_iff] at h
    have hlist := isCommaList_intercalate h (List.splitOn_ne_nil ',' cs)
    rwa [List.intercalate_splitOn] at hlist

/-- **A text is a comma list exactly when its tokens can be read.** -/
theorem isCommaList_iff_mapM_read : IsCommaList items cs ↔
    ((cs.splitOn ',').map trim).mapM SampleItem.read = .ok items := by
  rw [isCommaList_iff, mapM_eq_ok_iff]
  exact (forall₂_iff_of_forall_mem fun token htoken ↦ (spells_iff_of_mem_map_trim htoken).1).symm

/-- **A list whose body is a comma list is read**, item by item. -/
theorem read_of_isCommaList (h : IsCommaList items (body text.toList)) :
    read text = .ok (ofItems items) := by
  rw [read_eq_map, tokens, isCommaList_iff_mapM_read.1 h]
  rfl

/-! ### The end of a list -/

/-- What may follow a comma list: nothing, or a comma, spaces and an ellipsis. -/
inductive IsEnding : List Char → Prop
  | none : IsEnding []
  | ellipsis {spaces dots : List Char} (hspaces : ∀ c ∈ spaces, c = ' ') (hne : dots ≠ [])
      (hdots : ∀ c ∈ dots, c = '…' ∨ c = '.') : IsEnding (',' :: (spaces ++ dots))

theorem Listed.core_ne_nil (h : Listed items cs) : cs ≠ [] := by
  cases h with
  | single h => exact h.isToken.ne_nil
  | cons h => simp [h.isToken.ne_nil]

theorem Listed.head?_isDecimalDigit (h : Listed items cs) :
    ∀ c ∈ cs.head?, isDecimalDigit c = true := by
  cases h with
  | single h => exact h.isToken.head
  | cons h =>
    intro c hc
    refine h.isToken.head c ?_
    rw [List.append_assoc, List.head?_append] at hc
    obtain ⟨d, token, rfl⟩ := List.exists_cons_of_ne_nil h.isToken.ne_nil
    exact hc

theorem Listed.getLast?_isDecimalDigit (h : Listed items cs) :
    ∀ c ∈ cs.getLast?, isDecimalDigit c = true := by
  induction h with
  | single h => exact h.isToken.last
  | @cons item items token gap gap' cs h _ _ hrest ih =>
    have htext : token ++ gap ++ ',' :: (gap' ++ cs) = (token ++ gap ++ ',' :: gap') ++ cs := by
      simp
    rwa [htext, List.getLast?_append_of_ne_nil _ hrest.core_ne_nil]

/-- A list ends in a digit, which stops what is taken off at the end. -/
theorem Listed.trimEndWhile_append (h : Listed items cs) {q : Char → Bool}
    (hq : ∀ c, q c = true → isDecimalDigit c = false) (s : List Char) :
    trimEndWhile q (cs ++ s) = cs ++ trimEndWhile q s := by
  refine trimEndWhile_append_of_kept (fun c hc ↦ Bool.eq_false_iff.2 fun hqc ↦ ?_) s
  have hdigit := h.getLast?_isDecimalDigit c hc
  rw [hq c hqc] at hdigit
  cases hdigit

/-- **What follows a list is taken off it**, if it is commas and spaces, then an ellipsis, then
blanks. Blanks of the list itself may go with it. -/
theorem IsCommaList.body_append (h : IsCommaList items cs) {points dots b : List Char}
    (hpoints : ∀ c ∈ points, c = ',' ∨ c = ' ') (hdots : ∀ c ∈ dots, c = '…' ∨ c = '.')
    (hb : Blank b) : IsCommaList items (body (cs ++ points ++ dots ++ b)) := by
  obtain ⟨b₁, core, b₂, rfl, hb₁, hb₂, hcore⟩ := h
  have hblank : ∀ c, isBlank c = true → isDecimalDigit c = false := by
    refine fun c hc ↦ Bool.eq_false_iff.2 fun hdigit ↦ ?_
    rw [isBlank_eq_false_of_isDecimalDigit hdigit] at hc
    cases hc
  have hdot : ∀ c, (c == '…' || c == '.') = true → isDecimalDigit c = false := by
    intro c hc
    rcases (by simpa using hc : c = '…' ∨ c = '.') with rfl | rfl <;> decide
  have hpoint : ∀ c, (c == ',' || c == ' ') = true → isDecimalDigit c = false := by
    intro c hc
    rcases (by simpa using hc : c = ',' ∨ c = ' ') with rfl | rfl <;> decide
  have hhead : ∀ c ∈ (core ++ (b₂ ++ points ++ dots ++ b)).head?, isBlank c = false := by
    obtain ⟨d, ds, rfl⟩ := List.exists_cons_of_ne_nil hcore.core_ne_nil
    exact fun c hc ↦ isBlank_eq_false_of_isDecimalDigit (hcore.head?_isDecimalDigit c hc)
  have htext : b₁ ++ core ++ b₂ ++ points ++ dots ++ b =
      b₁ ++ (core ++ (b₂ ++ points ++ dots ++ b)) := by simp
  rw [body, trim, htext, dropWhile_isBlank_append hb₁ hhead, hcore.trimEndWhile_append hblank,
    hcore.trimEndWhile_append hdot, hcore.trimEndWhile_append hpoint]
  -- each of the three leaves a piece of what was there before the characters that it takes off
  have hrest : trimEndWhile isBlank (b₂ ++ points ++ dots ++ b) <+: b₂ ++ points ++ dots :=
    trimEndWhile_prefix_of_prefix_append (List.prefix_refl _) hb
  have hrest := trimEndWhile_prefix_of_prefix_append (q := fun c ↦ c == '…' || c == '.') hrest
    (by simpa using hdots)
  have hrest := trimEndWhile_prefix_of_prefix_append (q := fun c ↦ c == ',' || c == ' ') hrest
    (by simpa using hpoints)
  exact ⟨[], core, _, rfl, blank_nil, fun c hc ↦ hb₂ c (hrest.subset hc), hcore⟩

/-- An ending is taken off a comma list. -/
theorem IsCommaList.body_append_ending (h : IsCommaList items cs) {ending : List Char}
    (hending : IsEnding ending) : IsCommaList items (body (cs ++ ending)) := by
  cases hending with
  | none =>
    simpa using h.body_append (List.forall_mem_nil _) (List.forall_mem_nil _) blank_nil
  | @ellipsis spaces dots hspaces _ hdots =>
    have hpoints : ∀ c ∈ ',' :: spaces, c = ',' ∨ c = ' ' := by
      simpa using fun c hc ↦ .inr (hspaces c hc)
    simpa using h.body_append hpoints hdots blank_nil

/-! ### Reading is exact -/

/-- **Sample lists are read exactly.** A comma list, with or without an ellipsis, is read as the
samples of its items. The body of what is read is a comma list, and there is something in it. Of any
other text the first token that spells no item is named, and never is a list found empty. -/
theorem read_exactly_lists :
    (∀ items cs ending, IsCommaList items cs → IsEnding ending →
      read (.ofList (cs ++ ending)) = .ok (ofItems items)) ∧
    (∀ text list, read text = .ok list →
      (∃ items, IsCommaList items (body text.toList) ∧ list = ofItems items) ∧
        ¬(list.numbers = [] ∧ list.skipped = [])) ∧
    (∀ text, (¬∃ items, IsCommaList items (body text.toList)) →
      ∃ before token after, tokens text.toList = before ++ token :: after ∧
        (∀ t ∈ before, ∃ item : SampleItem, item.Spells t) ∧
        (∀ item : SampleItem, ¬item.Spells token) ∧
        read text = .error (SampleItem.faultOf token) ∧
        ∃ lead, (SampleItem.faultOf token).message = lead ++ .ofList token ++ "'") ∧
    ∀ text, read text ≠ .error .noNumbers := by
  refine ⟨fun items cs ending hlist hending ↦ ?_, fun text list hread ↦ ?_, fun text hnone ↦ ?_,
    fun text h ↦ ?_⟩
  · refine read_of_isCommaList ?_
    rw [String.toList_ofList]
    exact hlist.body_append_ending hending
  · obtain ⟨items, hitems, rfl⟩ := read_eq_ok_iff.1 hread
    have hlist : IsCommaList items (body text.toList) := isCommaList_iff.2 hitems
    exact ⟨⟨items, hlist, rfl⟩, ofItems_ne_empty hlist.ne_nil⟩
  · cases hread : read text with
    | ok list =>
      obtain ⟨items, hitems, -⟩ := read_eq_ok_iff.1 hread
      exact absurd ⟨items, isCommaList_iff.2 hitems⟩ hnone
    | error f =>
      obtain ⟨before, token, after, htokens, hbefore, htoken, rfl⟩ := read_eq_error_iff.1 hread
      exact ⟨before, token, after, htokens, hbefore, htoken, rfl,
        SampleItem.exists_message_faultOf token⟩
  · obtain ⟨_, token, _, -, -, -, hfault⟩ := read_eq_error_iff.1 h
    rw [SampleItem.faultOf] at hfault
    split at hfault <;> cases hfault

/-- A list with zeros in front of a number, blanks around a range and a compact token, followed by
an ellipsis; and a list in which a range descends before a word follows. -/
theorem read_exactly_lists_assorted :
    (IsCommaList [.number 0, .range 2 4, .compact "1.5c6"] " 00 ,\t2 ~4, 1.5c6 ".toList ∧
      IsEnding ",  ….".toList ∧
      read (.ofList (" 00 ,\t2 ~4, 1.5c6 ".toList ++ ",  ….".toList)) =
        .ok ⟨[0, 2, 3, 4], ["1.5c6"]⟩) ∧
    (∃ list, read "7, …" = .ok list ∧ ¬(list.numbers = [] ∧ list.skipped = [])) ∧
    (¬∃ items, IsCommaList items (body "1, 5~2, x".toList)) ∧
      ∃ before token after, tokens "1, 5~2, x".toList = before ++ token :: after ∧
        (∀ item : SampleItem, ¬item.Spells token) ∧
        read "1, 5~2, x" = .error (SampleItem.faultOf token) := by
  obtain ⟨hlists, hread, hfaults, -⟩ := read_exactly_lists
  have hlist : IsCommaList [.number 0, .range 2 4, .compact "1.5c6"]
      " 00 ,\t2 ~4, 1.5c6 ".toList := by
    rw [isCommaList_iff_mapM_read]
    decide +kernel
  have hending : IsEnding ",  ….".toList := by
    have hspaces : ∀ c ∈ [' ', ' '], c = ' ' := by simp
    have hdots : ∀ c ∈ ['…', '.'], c = '…' ∨ c = '.' := by simp
    exact .ellipsis hspaces (List.cons_ne_nil _ _) hdots
  have hnone : ¬∃ items, IsCommaList items (body "1, 5~2, x".toList) := by
    rintro ⟨items, hitems⟩
    have herror : (((body "1, 5~2, x".toList).splitOn ',').map trim).mapM SampleItem.read =
        .error (.unhandledRange "5~2") := by decide +kernel
    rw [isCommaList_iff_mapM_read, herror] at hitems
    cases hitems
  have hseven : read "7, …" = .ok ⟨[7], []⟩ := by decide +kernel
  obtain ⟨before, token, after, htokens, -, htoken, herror, -⟩ := hfaults _ hnone
  exact ⟨⟨hlist, hending, hlists _ _ _ hlist hending⟩, ⟨_, hseven, (hread _ _ hseven).2⟩, hnone,
    before, token, after, htokens, htoken, herror⟩

/-- The text without trailing ellipsis characters, and then without trailing commas and spaces. A
body is what is left in this way of a text without blanks at its ends. -/
def strip (cs : List Char) : List Char :=
  trimEndWhile (fun c ↦ c == ',' || c == ' ') (trimEndWhile (fun c ↦ c == '…' || c == '.') cs)

/-- A blank after the ellipsis keeps it from being stripped, unless the text is trimmed first. -/
theorem strip_not_isCommaList :
    read "1, … " = .ok ⟨[1], []⟩ ∧ ¬∃ items, IsCommaList items (strip "1, … ".toList) := by
  refine ⟨by decide +kernel, ?_⟩
  rintro ⟨items, hitems⟩
  have herror : (((strip "1, … ".toList).splitOn ',').map trim).mapM SampleItem.read =
      .error (.unhandledNumber "…") := by decide +kernel
  rw [isCommaList_iff_mapM_read, herror] at hitems
  cases hitems

end PluralForms.SampleList
