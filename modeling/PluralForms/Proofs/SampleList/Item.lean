import PluralForms.Proofs.SampleList.Sampling
import PluralForms.Proofs.Text.Scan
import PluralForms.Proofs.Traversal

/-!
# The items of a sample list

What stands between the commas of a sample list spells an item (`SampleItem.Spells`): a numeral, two
numerals with `~` and possibly blanks between, or compact notation. Items are read exactly from the
tokens that spell them (`SampleItem.read_eq_ok_iff`); no token spells two, since numerals have
neither a `~` nor the mark of compact notation.

A token that spells no item is reported as it stands (`SampleItem.read_eq_error_iff`).

Some of the numbers of an item do not depend on how a range is sampled; `SampleItem.Covers` says
which.
-/

namespace PluralForms

open Text

namespace SampleItem

variable {token : List Char} {item : SampleItem}

/-- Compact notation: digits, possibly a fraction, the mark `c` or `e`, and digits. -/
inductive IsCompact : List Char → Prop
  | whole {digits exponent : List Char} {mark : Char} (hdigits : IsDigits digits)
      (hmark : mark = 'c' ∨ mark = 'e') (hexponent : IsDigits exponent) :
      IsCompact (digits ++ mark :: exponent)
  | fraction {digits digits' exponent : List Char} {mark : Char} (hdigits : IsDigits digits)
      (hdigits' : IsDigits digits') (hmark : mark = 'c' ∨ mark = 'e')
      (hexponent : IsDigits exponent) : IsCompact (digits ++ '.' :: (digits' ++ mark :: exponent))

/-- **The token spells the item.** -/
inductive Spells : SampleItem → List Char → Prop
  | number {k : Nat} {digits : List Char} (h : IsNumeral k digits) : Spells (.number k) digits
  | range {a b : Nat} {first gap gap' last : List Char} (ha : IsNumeral a first)
      (hb : IsNumeral b last) (hgap : Blank gap) (hgap' : Blank gap') (hle : a ≤ b) :
      Spells (.range a b) (first ++ gap ++ '~' :: (gap' ++ last))
  | compact {token : List Char} (h : IsCompact token) : Spells (.compact (.ofList token)) token

/-! ### Compact notation -/

theorem hasExponent_iff {cs : List Char} : isCompact.hasExponent cs = true ↔
    ∃ mark exponent, cs = mark :: exponent ∧ (mark = 'c' ∨ mark = 'e') ∧ IsDigits exponent := by
  cases cs with
  | nil => simp [isCompact.hasExponent]
  | cons c rest =>
    simp only [isCompact.hasExponent, Bool.and_eq_true, Bool.or_eq_true, beq_iff_eq, and_assoc]
    constructor
    · rintro ⟨hmark, hne, hdigits⟩
      exact ⟨c, rest, rfl, hmark, by simpa using hne, by simpa using hdigits⟩
    · rintro ⟨mark, exponent, hcons, hmark, hdigits⟩
      obtain ⟨rfl, rfl⟩ := List.cons.inj hcons
      exact ⟨hmark, by simpa using hdigits.ne_nil, by simpa using hdigits.all_digits⟩

theorem not_digit_of_mark {mark : Char} (h : mark = 'c' ∨ mark = 'e') :
    isDecimalDigit mark = false := by
  rcases h with rfl | rfl <;> decide

/-- **Compact numbers are recognized by their form.** -/
theorem isCompact_iff : isCompact token = true ↔ IsCompact token := by
  constructor
  · intro h
    rw [isCompact] at h
    split at h
    next digits rest htake =>
      obtain ⟨hdigits, rfl⟩ := of_takeDigits? htake
      split at h
      next digits' rest' htake' =>
        obtain ⟨hdigits', rfl⟩ := of_takeDigits? htake'
        obtain ⟨mark, exponent, rfl, hmark, hexponent⟩ := hasExponent_iff.1 h
        exact .fraction hdigits hdigits' hmark hexponent
      next => cases h
    next digits rest _ htake =>
      obtain ⟨hdigits, rfl⟩ := of_takeDigits? htake
      obtain ⟨mark, exponent, rfl, hmark, hexponent⟩ := hasExponent_iff.1 h
      exact .whole hdigits hmark hexponent
    next => cases h
  · intro h
    cases h with
    | @whole digits exponent mark hdigits hmark hexponent =>
      have hend := not_digit_of_mark hmark
      have hexp := hasExponent_iff.2 ⟨_, _, rfl, hmark, hexponent⟩
      rw [isCompact, takeDigits?_append hdigits (by simpa using hend)]
      rcases hmark with rfl | rfl <;> exact hexp
    | @fraction digits digits' exponent mark hdigits hdigits' hmark hexponent =>
      have hend := not_digit_of_mark hmark
      have htake : takeDigits? (digits' ++ mark :: exponent) = some (digits', mark :: exponent) :=
        takeDigits?_append hdigits' (by simpa using hend)
      have hdot : isDecimalDigit '.' = false := by decide
      rw [isCompact, takeDigits?_append hdigits (by simpa using hdot)]
      simp only [htake]
      exact hasExponent_iff.2 ⟨_, _, rfl, hmark, hexponent⟩

/-- Compact notation has its mark, and no `~`. -/
theorem IsCompact.mem (h : IsCompact token) : ('c' ∈ token ∨ 'e' ∈ token) ∧ '~' ∉ token := by
  have htilde : ∀ {ds : List Char}, IsDigits ds → '~' ∉ ds :=
    fun hds hmem ↦ absurd (hds.all_digits _ hmem) (by decide)
  rcases h with ⟨hdigits, rfl | rfl, hexponent⟩ | ⟨hdigits, hdigits', rfl | rfl, hexponent⟩
  all_goals simp [htilde hdigits, htilde hexponent]
  all_goals exact htilde hdigits'

/-! ### Reading -/

/-- A numeral is not compact. -/
theorem not_isCompact_of_isNumeral {k : Nat} (h : IsNumeral k token) : ¬IsCompact token := by
  intro hcompact
  rcases hcompact.mem.1 with hmem | hmem
  · exact absurd (h.isDigit _ hmem) (by decide)
  · exact absurd (h.isDigit _ hmem) (by decide)

/-- An item is read from what spells it. -/
theorem read_of_spells (h : item.Spells token) : read token = .ok item := by
  cases h with
  | number h =>
    have hcompact : isCompact token = false :=
      Bool.eq_false_iff.2 fun hc ↦ not_isCompact_of_isNumeral h (isCompact_iff.1 hc)
    have htilde : '~' ∉ token := fun hmem ↦ absurd (h.isDigit _ hmem) (by decide)
    rw [read, hcompact, cutAtFirst?_of_notMem htilde, readNumeral?_eq_some_iff.2 h]
    rfl
  | @range a b first gap gap' last ha hb hgap hgap' hle =>
    have hcompact : isCompact (first ++ gap ++ '~' :: (gap' ++ last)) = false :=
      Bool.eq_false_iff.2 fun hc ↦ (isCompact_iff.1 hc).mem.2 (by simp)
    have htilde : '~' ∉ first ++ gap := by
      intro hmem
      rcases List.mem_append.1 hmem with hmem | hmem
      · exact absurd (ha.isDigit _ hmem) (by decide)
      · exact absurd (hgap _ hmem) (by decide)
    have hfirst : trim (first ++ gap) = first := trim_between blank_nil ha.isDigits.isWord hgap
    have hlast : trim (gap' ++ last) = last := by
      simpa using trim_between hgap' hb.isDigits.isWord blank_nil
    rw [read, hcompact, cutAtFirst?_append_cons htilde]
    simp [hfirst, hlast, readNumeral?_eq_some_iff.2 ha, readNumeral?_eq_some_iff.2 hb, hle]
  | compact h => rw [read, isCompact_iff.2 h]; rfl

/-- What is read from a token with no blanks at its ends is spelled by it. -/
theorem spells_of_read (hstart : ∀ c ∈ token.head?, isBlank c = false)
    (hend : ∀ c ∈ token.getLast?, isBlank c = false) (h : read token = .ok item) :
    item.Spells token := by
  rw [read] at h
  split at h
  next hcompact =>
    cases h
    exact .compact (isCompact_iff.1 hcompact)
  split at h
  next first last hcut =>
    obtain rfl := of_cutAtFirst? hcut
    split at h
    next a b ha hb =>
      split at h
      next hle =>
        cases h
        rw [readNumeral?_eq_some_iff] at ha hb
        obtain ⟨b₁, gap, hb₁, hgap, hfirst⟩ := exists_blank_append_trim first
        obtain ⟨gap', b₂, hgap', hb₂, hlast⟩ := exists_blank_append_trim last
        -- the outer blanks would be blanks at the ends of the token
        generalize trim first = x at ha hfirst
        generalize trim last = y at hb hlast
        subst hfirst hlast
        have hstart : ∀ c ∈ (b₁ ++ (x ++ gap ++ '~' :: (gap' ++ y ++ b₂))).head?,
            isBlank c = false := by simpa using hstart
        have hend : ∀ c ∈ (b₁ ++ x ++ gap ++ '~' :: (gap' ++ y) ++ b₂).getLast?,
            isBlank c = false := by simpa using hend
        obtain rfl := eq_nil_of_blank_start hb₁ hstart
        obtain rfl := eq_nil_of_blank_end hb₂ hend
        simpa using Spells.range ha hb hgap hgap' hle
      next => cases h
    next => cases h
  next hcut =>
    split at h
    next k hk =>
      cases h
      exact .number (readNumeral?_eq_some_iff.1 hk)
    next => cases h

/-- **Items are read from the tokens that spell them.** -/
theorem read_eq_ok_iff (hstart : ∀ c ∈ token.head?, isBlank c = false)
    (hend : ∀ c ∈ token.getLast?, isBlank c = false) :
    read token = .ok item ↔ item.Spells token :=
  ⟨spells_of_read hstart hend, read_of_spells⟩

/-- A token spells at most one item. -/
theorem Spells.unique {item' : SampleItem} (h : item.Spells token) (h' : item'.Spells token) :
    item = item' :=
  Except.ok.inj ((read_of_spells h).symm.trans (read_of_spells h'))

/-! ### Faults -/

/-- What is reported of a token that spells no item. -/
def faultOf (token : List Char) : SampleFault :=
  if '~' ∈ token then .unhandledRange (.ofList token) else .unhandledNumber (.ofList token)

/-- **The fault names the token.** -/
theorem exists_message_faultOf (token : List Char) :
    ∃ lead, (faultOf token).message = lead ++ .ofList token ++ "'" := by
  by_cases h : '~' ∈ token
  · rw [faultOf, if_pos h]
    exact ⟨_, rfl⟩
  · rw [faultOf, if_neg h]
    exact ⟨_, rfl⟩

/-- A token that cannot be read is reported with its fault. -/
theorem eq_faultOf_of_read {f : SampleFault} (h : read token = .error f) : f = faultOf token := by
  rw [read] at h
  split at h
  next => cases h
  split at h
  next first last hcut =>
    have htilde : '~' ∈ token := by
      rw [of_cutAtFirst? hcut]
      simp
    have hfault : f = .unhandledRange (.ofList token) := by
      split at h
      next =>
        split at h
        next => cases h
        next => exact (Except.error.inj h).symm
      next => exact (Except.error.inj h).symm
    rw [hfault, faultOf, if_pos htilde]
  next hcut =>
    have htilde : '~' ∉ token := by
      intro hmem
      obtain ⟨x, y, rfl, hx⟩ := List.eq_append_cons_of_mem hmem
      rw [cutAtFirst?_append_cons hx] at hcut
      cases hcut
    split at h
    next => cases h
    next => rw [← Except.error.inj h, faultOf, if_neg htilde]

/-- **The tokens that spell no item are reported.** -/
theorem read_eq_error_iff {f : SampleFault} (hstart : ∀ c ∈ token.head?, isBlank c = false)
    (hend : ∀ c ∈ token.getLast?, isBlank c = false) :
    read token = .error f ↔ (∀ item : SampleItem, ¬item.Spells token) ∧ f = faultOf token := by
  constructor
  · intro h
    refine ⟨fun item hitem ↦ ?_, eq_faultOf_of_read h⟩
    rw [read_of_spells hitem] at h
    cases h
  · rintro ⟨hnone, rfl⟩
    cases hread : read token with
    | ok item => exact absurd (spells_of_read hstart hend hread) (hnone item)
    | error f => rw [eq_faultOf_of_read hread]

/-! ### Ends of a token -/

/-- A token that spells an item starts and ends with a digit, and has no comma in it. -/
structure IsToken (token : List Char) : Prop where
  ne_nil : token ≠ []
  head : ∀ c ∈ token.head?, isDecimalDigit c = true
  last : ∀ c ∈ token.getLast?, isDecimalDigit c = true
  comma : ',' ∉ token

theorem isToken_of_digits {digits digits' rest init : List Char} (h : IsDigits digits)
    (hstart : token = digits ++ rest) (h' : IsDigits digits') (hend : token = init ++ digits')
    (hcomma : ',' ∉ token) : IsToken token := by
  obtain ⟨d, ds, rfl⟩ := List.exists_cons_of_ne_nil h.ne_nil
  refine ⟨by simp [hstart], fun c hc ↦ ?_, fun c hc ↦ ?_, hcomma⟩
  · obtain rfl : d = c := by simpa [hstart] using hc
    exact h.all_digits d List.mem_cons_self
  · rw [hend, List.getLast?_append_of_ne_nil _ h'.ne_nil] at hc
    exact h'.all_digits c (List.mem_of_getLast? hc)

theorem Spells.isToken (h : item.Spells token) : IsToken token := by
  have hdigits : ∀ {ds : List Char}, IsDigits ds → ',' ∉ ds :=
    fun hds hmem ↦ absurd (hds.all_digits _ hmem) (by decide)
  have hblank : ∀ {b : List Char}, Blank b → ',' ∉ b :=
    fun hb hmem ↦ absurd (hb _ hmem) (by decide)
  cases h with
  | number h =>
    have h := h.isDigits
    exact isToken_of_digits h (List.append_nil token).symm h (List.nil_append token).symm
      (hdigits h)
  | @range a b first gap gap' last ha hb hgap hgap' =>
    have hend : first ++ gap ++ '~' :: (gap' ++ last) = (first ++ gap ++ '~' :: gap') ++ last := by
      simp
    refine isToken_of_digits ha.isDigits (List.append_assoc first gap _) hb.isDigits hend ?_
    simp [hdigits ha.isDigits, hdigits hb.isDigits, hblank hgap, hblank hgap']
  | compact h =>
    cases h with
    | @whole digits exponent mark h hmark h' =>
      have hend : digits ++ mark :: exponent = (digits ++ [mark]) ++ exponent := by simp
      refine isToken_of_digits h rfl h' hend ?_
      rcases hmark with rfl | rfl <;> simp [hdigits h, hdigits h']
    | @fraction digits digits' exponent mark h h'' hmark h' =>
      have hend : digits ++ '.' :: (digits' ++ mark :: exponent) =
          (digits ++ '.' :: (digits' ++ [mark])) ++ exponent := by simp
      refine isToken_of_digits h rfl h' hend ?_
      rcases hmark with rfl | rfl <;> simp [hdigits h, hdigits h'', hdigits h']

/-! ### What an item vouches for -/

/-- The numbers that are samples of an item whatever its steps are: a number itself, the ends of a
range, and all numbers of a range shorter than two hundred. -/
def Covers (item : SampleItem) (n : Nat) : Prop :=
  match item with
  | .number k => n = k
  | .range a b => n = a ∨ n = b ∨ b - a < 200 ∧ a ≤ n ∧ n ≤ b
  | .compact _ => False

/-- The numbers of an item hold all that it covers. -/
theorem mem_numbers_of_covers {n : Nat} (h : item.Spells token) (hn : item.Covers n) :
    n ∈ item.numbers := by
  cases h with
  | number => exact List.mem_singleton.2 hn
  | range _ _ _ _ hle =>
    rcases hn with rfl | rfl | ⟨hshort, hfirst, hlast⟩
    · exact first_mem_sampleRange hle
    · exact last_mem_sampleRange _ _
    · exact mem_sampleRange_of_lt hshort hfirst hlast
  | compact => exact hn.elim

end SampleItem

end PluralForms
