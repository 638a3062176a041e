import PluralForms.Relation.Reader
import PluralForms.Proofs.Text.Scan
import PluralForms.Proofs.Traversal

/-!
# The form of a relation

A relation is written in parts: the letter of a variable, possibly `%` and digits, `=` or `!=`, and
a list of items with commas between them, where an item is digits or digits on both sides of `..`.
Blanks may stand between any two neighbouring parts and nowhere else. This is the whole grammar:
`Draft.parts` lists the parts of a form, and a text has the form when these parts are spaced in it
(`Draft.Matches`).

`Draft.read?_eq_some_iff` says that the reader of forms accepts exactly these texts. It is put
together from one lemma in each direction for each piece of the reader.
-/

namespace PluralForms.Relation

open Text

/-! ### Items -/

/-- The text of an item: digits, or digits on both sides of `..`. -/
def itemText : List Char × Option (List Char) → List Char
  | (digits, none) => digits
  | (digits, some digits') => digits ++ '.' :: '.' :: digits'

/-- The digits of an item are digits. -/
def ItemShaped (item : List Char × Option (List Char)) : Prop :=
  IsDigits item.1 ∧ ∀ digits ∈ item.2, IsDigits digits

theorem ItemShaped.mem {item : List Char × Option (List Char)} (h : ItemShaped item) {c : Char}
    (hc : c ∈ itemText item) : isDecimalDigit c = true ∨ c = '.' := by
  obtain ⟨digits, _ | digits'⟩ := item
  · exact .inl (h.1.all_digits c hc)
  · have hdigits' : IsDigits digits' := h.2 digits' rfl
    rw [itemText, List.mem_append, List.mem_cons, List.mem_cons] at hc
    rcases hc with hc | hc | hc | hc
    · exact .inl (h.1.all_digits c hc)
    · exact .inr hc
    · exact .inr hc
    · exact .inl (hdigits'.all_digits c hc)

theorem ItemShaped.isWord {item : List Char × Option (List Char)} (h : ItemShaped item) :
    IsWord (itemText item) := by
  constructor
  · obtain ⟨digits, _ | digits'⟩ := item
    · exact h.1.ne_nil
    · exact List.append_ne_nil_of_left_ne_nil h.1.ne_nil _
  · intro c hc
    rcases h.mem hc with hdigit | rfl
    · exact isBlank_eq_false_of_isDecimalDigit hdigit
    · decide

/-- **An item is read from its text** and from no other. -/
theorem draftItem?_eq_some_iff {cs : List Char} {item : List Char × Option (List Char)} :
    draftItem? cs = some item ↔ ItemShaped item ∧ cs = itemText item := by
  constructor
  · intro h
    rw [draftItem?] at h
    split at h
    next first hfirst =>
      obtain rfl := Option.some.inj h
      obtain ⟨hdigits, rfl⟩ := of_takeDigits? hfirst
      exact ⟨⟨hdigits, nofun⟩, List.append_nil _⟩
    next first rest hfirst =>
      obtain ⟨hdigits, rfl⟩ := of_takeDigits? hfirst
      split at h
      next last hlast =>
        obtain rfl := Option.some.inj h
        obtain ⟨hdigits', rfl⟩ := of_takeDigits? hlast
        refine ⟨⟨hdigits, fun ds hds ↦ ?_⟩, by simp [itemText]⟩
        obtain rfl := Option.some.inj hds
        exact hdigits'
      next => cases h
    next => cases h
  · rintro ⟨⟨hdigits, hdigits'⟩, rfl⟩
    obtain ⟨digits, _ | digits'⟩ := item
    · have htake : takeDigits? (digits ++ []) = some (digits, []) :=
        takeDigits?_append hdigits nofun
      rw [List.append_nil] at htake
      rw [draftItem?, itemText, htake]
    · have hdots : ∀ c ∈ ('.' :: '.' :: digits').head?, isDecimalDigit c = false := by
        intro c hc
        obtain rfl := Option.some.inj hc
        decide
      have hlast : takeDigits? (digits' ++ []) = some (digits', []) :=
        takeDigits?_append (hdigits' digits' rfl) nofun
      rw [List.append_nil] at hlast
      rw [draftItem?, itemText, takeDigits?_append hdigits hdots]
      simp only [hlast]

/-! ### Lists of items -/

/-- The parts of a list of items: the items and the commas between them. -/
def itemParts (items : List (List Char × Option (List Char))) : List (List Char) :=
  (items.map itemText).intersperse [',']

theorem itemParts_cons_ne_nil (item : List Char × Option (List Char))
    (items : List (List Char × Option (List Char))) : itemParts (item :: items) ≠ [] := by
  cases items <;> exact List.cons_ne_nil _ _

/-- An item with blanks around it has no comma in it. -/
theorem ItemShaped.comma_notMem {item : List Char × Option (List Char)} (h : ItemShaped item)
    {b b' : List Char} (hb : Blank b) (hb' : Blank b') : ',' ∉ b ++ itemText item ++ b' := by
  intro hc
  rcases List.mem_append.1 hc with hc | hc
  · rcases List.mem_append.1 hc with hc | hc
    · exact absurd (hb _ hc) (by decide)
    · rcases h.mem hc with hdigit | hdot
      · exact absurd hdigit (by decide)
      · exact absurd hdot (by decide)
  · exact absurd (hb' _ hc) (by decide)

/-- Blanks around an item make no difference. -/
theorem draftItem?_trim_between {item : List Char × Option (List Char)} (h : ItemShaped item)
    {b b' : List Char} (hb : Blank b) (hb' : Blank b') :
    draftItem? (trim (b ++ itemText item ++ b')) = some item := by
  rw [trim_between hb h.isWord hb', draftItem?_eq_some_iff]
  exact ⟨h, rfl⟩

/-- Spaced items with commas between them are read, item by item. -/
theorem mapM_draftItem?_of_spaced {items : List (List Char × Option (List Char))}
    (hitems : ∀ item ∈ items, ItemShaped item) {b s b' : List Char} (hb : Blank b)
    (hs : Spaced (itemParts items) s) (hb' : Blank b') :
    ((b ++ s ++ b').splitOn ',').mapM (fun item ↦ draftItem? (trim item)) = some items := by
  rw [mapM_eq_some_iff]
  induction items generalizing b s with
  | nil => cases hs
  | cons item items ih =>
    obtain ⟨hitem, hitems⟩ := List.forall_mem_cons.1 hitems
    match items, ih, hitems, hs with
    | [], _, _, hs =>
      obtain rfl := hs.eq_of_singleton
      rw [List.splitOn_eq_singleton (hitem.comma_notMem hb hb')]
      exact .cons (draftItem?_trim_between hitem hb hb') .nil
    | next :: items, ih, hitems, hs =>
      have hparts : itemParts (item :: next :: items) =
          itemText item :: [','] :: itemParts (next :: items) := rfl
      rw [hparts] at hs
      -- the item, blanks, the comma, blanks, and the spaced items after it
      obtain ⟨gap, rest, rfl, hgap, hrest⟩ := hs.exists_of_cons (List.cons_ne_nil _ _)
      obtain ⟨gap', s, rfl, hgap', hs⟩ := hrest.exists_of_cons (itemParts_cons_ne_nil next items)
      have htext : b ++ (itemText item ++ gap ++ ([','] ++ gap' ++ s)) ++ b' =
          (b ++ itemText item ++ gap) ++ ',' :: (gap' ++ s ++ b') := by simp
      rw [htext, splitOn_append_cons (hitem.comma_notMem hb hgap)]
      exact .cons (draftItem?_trim_between hitem hb hgap) (ih hitems hgap' hs)

/-- Items that are read are spaced, with commas between them. -/
theorem exists_spaced_of_forall₂ {pieces : List (List Char)}
    {items : List (List Char × Option (List Char))}
    (h : List.Forall₂ (fun piece item ↦ draftItem? (trim piece) = some item) pieces items)
    (hne : pieces ≠ []) :
    ∃ b s b', [','].intercalate pieces = b ++ s ++ b' ∧ Blank b ∧ Blank b' ∧
      Spaced (itemParts items) s ∧ ∀ item ∈ items, ItemShaped item := by
  induction h with
  | nil => exact absurd rfl hne
  | @cons piece item pieces items hpiece hrest ih =>
    obtain ⟨hitem, htrim⟩ := draftItem?_eq_some_iff.1 hpiece
    obtain ⟨b, b', hb, hb', heq⟩ := exists_blank_append_trim piece
    rw [htrim] at heq
    cases hrest with
    | nil =>
      refine ⟨b, itemText item, b', ?_, hb, hb', .single _, by simpa using hitem⟩
      rw [List.intercalate_singleton, heq]
    | cons _ _ =>
      obtain ⟨gap, s, b'', htext, hgap, hb'', hs, hitems⟩ := ih (List.cons_ne_nil _ _)
      refine ⟨b, itemText item ++ b' ++ ([','] ++ gap ++ s), b'', ?_, hb, hb'',
        .cons _ hb' (.cons _ hgap hs), List.forall_mem_cons.2 ⟨hitem, hitems⟩⟩
      rw [List.intercalate_cons_cons, htext, heq]
      simp

/-- What is read as a list of items is one, with blanks at the ends. -/
theorem exists_spaced_of_mapM_draftItem? {cs : List Char}
    {items : List (List Char × Option (List Char))}
    (h : (cs.splitOn ',').mapM (fun item ↦ draftItem? (trim item)) = some items) :
    ∃ b s b', cs = b ++ s ++ b' ∧ Blank b ∧ Blank b' ∧ Spaced (itemParts items) s ∧
      ∀ item ∈ items, ItemShaped item := by
  have hne := List.splitOn_ne_nil ',' cs
  obtain ⟨b, s, b', htext, hrest⟩ := exists_spaced_of_forall₂ (mapM_eq_some_iff.1 h) hne
  rw [List.intercalate_splitOn] at htext
  exact ⟨b, s, b', htext, hrest⟩

/-! ### Whole forms -/

/-- The text of the operator. -/
def operatorText (negated : Bool) : List Char :=
  if negated then ['!', '='] else ['=']

/-- The parts of a form. -/
def Draft.parts (d : Draft) : List (List Char) :=
  [d.subject.letter] :: ((d.modulus.elim [] fun digits ↦ [['%'], digits]) ++
    operatorText d.negated :: itemParts d.items)

/-- The digits of a form are digits, and it has an item. -/
structure Draft.Shaped (d : Draft) : Prop where
  modulus : ∀ digits ∈ d.modulus, IsDigits digits
  items_ne_nil : d.items ≠ []
  items : ∀ item ∈ d.items, ItemShaped item

/-- **The text has the form**: the parts of the form are spaced in it. -/
def Draft.Matches (d : Draft) (cs : List Char) : Prop :=
  d.Shaped ∧ Spaced d.parts cs

/-- The parts of a list of items are commas and the texts of the items. -/
theorem mem_itemParts {items : List (List Char × Option (List Char))} {p : List Char}
    (hp : p ∈ itemParts items) : p = [','] ∨ ∃ item ∈ items, p = itemText item := by
  induction items with
  | nil => cases hp
  | cons item items ih =>
    match items, ih, hp with
    | [], _, hp => exact .inr ⟨item, List.mem_cons_self, List.mem_singleton.1 hp⟩
    | next :: items, ih, hp =>
      rcases List.mem_cons.1 hp with rfl | hp
      · exact .inr ⟨item, List.mem_cons_self, rfl⟩
      · rcases List.mem_cons.1 hp with rfl | hp
        · exact .inl rfl
        · refine (ih hp).imp_right ?_
          rintro ⟨i, hi, rfl⟩
          exact ⟨i, List.mem_cons_of_mem _ hi, rfl⟩

/-- The signs and letters of relations. -/
def formCharacters : List Char :=
  "nivwftce%=!,.".toList

/-- **A form is written in digits, signs and the letters of variables.** -/
theorem Draft.Shaped.mem_parts {d : Draft} (h : d.Shaped) {p : List Char} (hp : p ∈ d.parts) :
    p ≠ [] ∧ ∀ c ∈ p, isDecimalDigit c = true ∨ c ∈ formCharacters := by
  have hdigits : ∀ {digits}, IsDigits digits →
      digits ≠ [] ∧ ∀ c ∈ digits, isDecimalDigit c = true ∨ c ∈ formCharacters :=
    fun hdigits ↦ ⟨hdigits.ne_nil, fun c hc ↦ .inl (hdigits.all_digits c hc)⟩
  have hsigns : ∀ {signs : List Char}, signs ≠ [] → signs.all formCharacters.contains = true →
      signs ≠ [] ∧ ∀ c ∈ signs, isDecimalDigit c = true ∨ c ∈ formCharacters :=
    fun hne hall ↦ ⟨hne, fun c hc ↦ .inr (by simpa using List.all_eq_true.1 hall c hc)⟩
  rcases List.mem_cons.1 hp with rfl | hp
  · refine ⟨List.cons_ne_nil _ _, fun c hc ↦ .inr ?_⟩
    rw [List.mem_singleton.1 hc]
    cases d.subject <;> decide
  rcases List.mem_append.1 hp with hp | hp
  · cases hmodulus : d.modulus with
    | none => simp [hmodulus] at hp
    | some digits =>
      obtain rfl | rfl : p = ['%'] ∨ p = digits := by simpa [hmodulus] using hp
      · exact hsigns (List.cons_ne_nil _ _) (by decide)
      · exact hdigits (h.modulus p hmodulus)
  rcases List.mem_cons.1 hp with rfl | hp
  · cases d.negated <;> exact hsigns (List.cons_ne_nil _ _) (by decide)
  rcases mem_itemParts hp with rfl | ⟨item, hitem, rfl⟩
  · exact hsigns (List.cons_ne_nil _ _) (by decide)
  · refine ⟨(h.items item hitem).isWord.ne_nil, fun c hc ↦ ?_⟩
    refine ((h.items item hitem).mem hc).imp_right ?_
    rintro rfl
    decide

/-- No part of a form is empty or has a blank in it. -/
theorem Draft.Shaped.isWord_of_mem_parts {d : Draft} (h : d.Shaped) :
    ∀ p ∈ d.parts, IsWord p := by
  intro p hp
  obtain ⟨hne, hchars⟩ := h.mem_parts hp
  refine ⟨hne, fun c hc ↦ ?_⟩
  rcases hchars c hc with hdigit | hsign
  · exact isBlank_eq_false_of_isDecimalDigit hdigit
  · have hsigns : formCharacters.any isBlank = false := by decide
    exact Bool.eq_false_iff.2 (List.any_eq_false.1 hsigns c hsign)

/-- The characters of a text that has a form. -/
theorem Draft.Matches.mem {d : Draft} {cs : List Char} (h : d.Matches cs) {c : Char}
    (hc : c ∈ cs) : isBlank c = true ∨ isDecimalDigit c = true ∨ c ∈ formCharacters := by
  refine (h.2.mem hc).imp_right ?_
  rintro ⟨p, hp, hc⟩
  exact (h.1.mem_parts hp).2 c hc

/-- A text that has a form has no parenthesis. -/
theorem Draft.Matches.any_paren {d : Draft} {cs : List Char} (h : d.Matches cs) :
    cs.any (fun c ↦ c == '(' || c == ')') = false := by
  refine List.any_eq_false.2 fun c hc hparen ↦ ?_
  have hcases := h.mem hc
  obtain rfl | rfl : c = '(' ∨ c = ')' := by simpa using hparen
  · revert hcases
    decide
  · revert hcases
    decide

theorem ofLetter?_letter (x : Variable) : Variable.ofLetter? x.letter = some x := by
  cases x <;> decide

theorem letter_of_ofLetter? {l : Char} {x : Variable} (h : Variable.ofLetter? l = some x) :
    x.letter = l := by
  have hfound := List.find?_some h
  simpa using hfound

/-- Where no percent sign follows the blanks, there is no modulus. -/
theorem draftModulus?_none {b rest : List Char} (hb : Blank b)
    (hrest : ∀ c ∈ rest.head?, isBlank c = false ∧ c ≠ '%') :
    draftModulus? (b ++ rest) = some (none, rest) := by
  rw [draftModulus?, skipBlanks, dropWhile_isBlank_append hb fun c hc ↦ (hrest c hc).1]
  split
  next => exact absurd rfl (hrest _ rfl).2
  next => rfl

/-- A percent sign and digits are read as a modulus. -/
theorem draftModulus?_some {b b' digits rest : List Char} (hb : Blank b) (hb' : Blank b')
    (hdigits : IsDigits digits) (hrest : ∀ c ∈ rest.head?, isDecimalDigit c = false) :
    draftModulus? (b ++ '%' :: (b' ++ (digits ++ rest))) = some (some digits, rest) := by
  have hpercent : ∀ c ∈ ('%' :: (b' ++ (digits ++ rest))).head?, isBlank c = false := by
    intro c hc
    obtain rfl := Option.some.inj hc
    decide
  have hhead : ∀ c ∈ (digits ++ rest).head?, isBlank c = false := by
    obtain ⟨d, ds, rfl⟩ := List.exists_cons_of_ne_nil hdigits.ne_nil
    intro c hc
    obtain rfl := Option.some.inj hc
    exact hdigits.isWord.not_blank d List.mem_cons_self
  rw [draftModulus?, skipBlanks, dropWhile_isBlank_append hb hpercent]
  simp only [skipBlanks, dropWhile_isBlank_append hb' hhead, takeDigits?_append hdigits hrest]
  rfl

/-- An operator starts with something that belongs to nothing before it. -/
theorem head?_operatorText_append (negated : Bool) (rest : List Char) :
    ∀ c ∈ (operatorText negated ++ rest).head?,
      isBlank c = false ∧ c ≠ '%' ∧ isDecimalDigit c = false := by
  intro c hc
  cases negated <;> obtain rfl := Option.some.inj hc <;> decide

theorem draftOperator?_append {b : List Char} (hb : Blank b) (negated : Bool) (rest : List Char) :
    draftOperator? (b ++ (operatorText negated ++ rest)) = some (negated, rest) := by
  have hhead := head?_operatorText_append negated rest
  rw [draftOperator?, skipBlanks, dropWhile_isBlank_append hb fun c hc ↦ (hhead c hc).1]
  cases negated <;> rfl

/-- What is read as a modulus is a percent sign and digits, or nothing. -/
theorem of_draftModulus? {cs rest : List Char} {modulus : Option (List Char)}
    (h : draftModulus? cs = some (modulus, rest)) :
    ∃ b, Blank b ∧ ((modulus = none ∧ cs = b ++ rest) ∨
      ∃ digits b', modulus = some digits ∧ IsDigits digits ∧ Blank b' ∧
        cs = b ++ '%' :: (b' ++ (digits ++ rest))) := by
  obtain ⟨b, hb, hcs⟩ := exists_blank_append_dropWhile cs
  refine ⟨b, hb, ?_⟩
  rw [draftModulus?, skipBlanks] at h
  split at h
  next after hafter =>
    obtain ⟨⟨digits, rest'⟩, htake, hpair⟩ := Option.map_eq_some_iff.1 h
    obtain ⟨rfl, rfl⟩ := Prod.mk.inj hpair
    obtain ⟨b', hb', heq⟩ := exists_blank_append_dropWhile after
    obtain ⟨hdigits, hsplit⟩ := of_takeDigits? htake
    refine .inr ⟨digits, b', rfl, hdigits, hb', ?_⟩
    rw [← hsplit, skipBlanks, ← heq, ← hafter]
    exact hcs
  next =>
    obtain ⟨rfl, rfl⟩ := Prod.mk.inj (Option.some.inj h)
    exact .inl ⟨rfl, hcs⟩

theorem of_draftOperator? {cs rest : List Char} {negated : Bool}
    (h : draftOperator? cs = some (negated, rest)) :
    ∃ b, Blank b ∧ cs = b ++ (operatorText negated ++ rest) := by
  obtain ⟨b, hb, hcs⟩ := exists_blank_append_dropWhile cs
  refine ⟨b, hb, ?_⟩
  rw [draftOperator?, skipBlanks] at h
  split at h
  next after hafter =>
    obtain ⟨rfl, rfl⟩ := Prod.mk.inj (Option.some.inj h)
    exact hcs.trans (by rw [hafter]; rfl)
  next after hafter =>
    obtain ⟨rfl, rfl⟩ := Prod.mk.inj (Option.some.inj h)
    exact hcs.trans (by rw [hafter]; rfl)
  next => cases h

/-- The steps of reading a form. -/
theorem Draft.read?_eq_some_iff_steps {cs : List Char} {d : Draft} :
    Draft.read? cs = some d ↔ ∃ letter rest rest' rest'', cs = letter :: rest ∧
      Variable.ofLetter? letter = some d.subject ∧
      draftModulus? rest = some (d.modulus, rest') ∧
      draftOperator? rest' = some (d.negated, rest'') ∧
      (rest''.splitOn ',').mapM (fun item ↦ draftItem? (trim item)) = some d.items := by
  obtain ⟨subject, modulus, negated, items⟩ := d
  cases cs with
  | nil => simp [read?]
  | cons letter rest =>
    simp only [read?, Option.bind_eq_bind, Option.bind_eq_some_iff, Option.pure_def,
      Option.some.injEq, Prod.exists, List.cons.injEq, Draft.mk.injEq]
    constructor
    · rintro ⟨x, hx, m, rest', hm, neg, rest'', hneg, is, his, rfl, rfl, rfl, rfl⟩
      exact ⟨letter, rest, rest', rest'', ⟨rfl, rfl⟩, hx, hm, hneg, his⟩
    · rintro ⟨_, _, rest', rest'', ⟨rfl, rfl⟩, hx, hm, hneg, his⟩
      exact ⟨subject, hx, modulus, rest', hm, negated, rest'', hneg, items, his, rfl, rfl, rfl, rfl⟩

/-- Every text of a form is read. -/
theorem Draft.read?_of_matches {cs : List Char} {d : Draft} (h : d.Matches cs) :
    Draft.read? cs = some d := by
  obtain ⟨hshaped, hspaced⟩ := h
  obtain ⟨gap, rest, rfl, hgap, hrest⟩ := hspaced.exists_of_cons (by simp)
  obtain ⟨item, items, hitems⟩ := List.exists_cons_of_ne_nil hshaped.items_ne_nil
  have hparts : itemParts d.items ≠ [] := hitems ▸ itemParts_cons_ne_nil item items
  -- what follows the modulus: the operator, and then the items
  have hoperator : ∀ {tail}, Spaced (operatorText d.negated :: itemParts d.items) tail →
      ∃ rest', tail = operatorText d.negated ++ rest' ∧
        (rest'.splitOn ',').mapM (fun item ↦ draftItem? (trim item)) = some d.items := by
    intro tail htail
    obtain ⟨gap', s, rfl, hgap', hs⟩ := htail.exists_of_cons hparts
    refine ⟨gap' ++ s, List.append_assoc _ _ _, ?_⟩
    have hread := mapM_draftItem?_of_spaced hshaped.items hgap' hs blank_nil
    rwa [List.append_nil] at hread
  have hhead := head?_operatorText_append d.negated
  rw [Draft.read?_eq_some_iff_steps]
  cases hmodulus : d.modulus with
  | none =>
    rw [hmodulus] at hrest
    obtain ⟨rest', rfl, hread⟩ := hoperator hrest
    have hnone := draftModulus?_none hgap fun c hc ↦ ⟨(hhead rest' c hc).1, (hhead rest' c hc).2.1⟩
    exact ⟨d.subject.letter, _, _, rest', rfl, ofLetter?_letter _, hnone,
      draftOperator?_append (b := []) nofun d.negated rest', hread⟩
  | some digits =>
    rw [hmodulus] at hrest
    obtain ⟨gap₁, rest₁, rfl, hgap₁, hrest₁⟩ := hrest.exists_of_cons (List.cons_ne_nil _ _)
    obtain ⟨gap₂, rest₂, rfl, hgap₂, hrest₂⟩ := hrest₁.exists_of_cons (List.cons_ne_nil _ _)
    obtain ⟨rest', rfl, hread⟩ := hoperator hrest₂
    have hdigits := hshaped.modulus digits hmodulus
    have hafter := hgap₂.head?_append fun c hc ↦ (hhead rest' c hc).2.2
    have hsome := draftModulus?_some hgap hgap₁ hdigits hafter
    refine ⟨d.subject.letter, _, _, rest', ?_, ofLetter?_letter _, hsome,
      draftOperator?_append hgap₂ d.negated rest', hread⟩
    simp

/-- What is read has the form, but for blanks at the end. -/
theorem Draft.exists_matches_of_read? {cs : List Char} {d : Draft} (h : Draft.read? cs = some d) :
    ∃ s b, cs = s ++ b ∧ Blank b ∧ d.Matches s := by
  obtain ⟨letter, rest, rest', rest'', rfl, hletter, hmodulus, hoperator, hitems⟩ :=
    Draft.read?_eq_some_iff_steps.1 h
  obtain rfl := letter_of_ofLetter? hletter
  obtain ⟨b₁, hb₁, hmodulus⟩ := of_draftModulus? hmodulus
  obtain ⟨b₂, hb₂, rfl⟩ := of_draftOperator? hoperator
  obtain ⟨b₃, s, b, rfl, hb₃, hb, hs, hitems⟩ := exists_spaced_of_mapM_draftItem? hitems
  have hne : d.items ≠ [] := by
    intro hnil
    rw [hnil] at hs
    exact hs.ne_nil rfl
  have hspaced : Spaced (operatorText d.negated :: itemParts d.items)
      (operatorText d.negated ++ b₃ ++ s) := .cons _ hb₃ hs
  rcases hmodulus with ⟨hnone, rfl⟩ | ⟨digits, b', hsome, hdigits, hb', rfl⟩
  · refine ⟨[d.subject.letter] ++ (b₁ ++ b₂) ++ (operatorText d.negated ++ b₃ ++ s), b, by simp, hb,
      ⟨by simp [hnone], hne, hitems⟩, ?_⟩
    rw [Draft.parts, hnone]
    exact .cons _ (hb₁.append hb₂) hspaced
  · refine ⟨[d.subject.letter] ++ b₁ ++
      (['%'] ++ b' ++ (digits ++ b₂ ++ (operatorText d.negated ++ b₃ ++ s))), b, by simp, hb,
      ⟨by simpa [hsome] using hdigits, hne, hitems⟩, ?_⟩
    rw [Draft.parts, hsome]
    exact .cons _ hb₁ (.cons _ hb' (.cons _ hb₂ hspaced))

/-- **The reader of forms accepts exactly the texts that have one**, given a text that does not end
in a blank. -/
theorem Draft.read?_eq_some_iff {cs : List Char} {d : Draft}
    (hend : ∀ c ∈ cs.getLast?, isBlank c = false) : Draft.read? cs = some d ↔ d.Matches cs := by
  refine ⟨fun h ↦ ?_, Draft.read?_of_matches⟩
  obtain ⟨s, b, rfl, hb, hmatches⟩ := Draft.exists_matches_of_read? h
  rwa [eq_nil_of_blank_end hb hend, List.append_nil]

end PluralForms.Relation
