import PluralForms.Proofs.Relation.Form

/-!
# The texts of a relation

A text spells a relation when it has a form (`Draft.Matches`) whose digits are numerals for the
numbers of the relation (`Draft.Denotes`): the modulus is not zero, a range ends after it starts,
and a single number may also be written as a range from itself to itself. A text is malformed when
it has no form, or when there is something wrong with the numbers of its form; `Malformed` says
what, and of several things it names the leftmost.

The reader agrees with both: it reads a relation exactly from the texts that spell it
(`readTrimmed_eq_ok_iff`), and it fails exactly on the malformed ones, with their fault
(`readTrimmed_eq_error_iff`).
-/

namespace PluralForms

open Text

/-! ### What digits denote -/

/-- The numbers of a span are small enough, and a range ends after it starts. -/
def Span.Valid : Span → Prop
  | .single v => v < numeralBound
  | .range first last => first < last ∧ last < numeralBound

namespace Relation

variable {r : Relation} {cs : List Char} {f : Fault}

/-- The modulus is not zero, there is a value, and the numbers are small enough. -/
structure Valid (r : Relation) : Prop where
  modulus : ∀ m ∈ r.modulus, 0 < m ∧ m < numeralBound
  values_ne_nil : r.values ≠ []
  values : ∀ s ∈ r.values, s.Valid

/-- What the digits of an item denote. A single number may be written as a range. -/
inductive ItemDenotes : List Char × Option (List Char) → Span → Prop
  | single {k : Nat} {digits : List Char} (h : IsNumeral k digits) :
      ItemDenotes (digits, none) (.single k)
  | degenerate {k : Nat} {digits digits' : List Char} (h : IsNumeral k digits)
      (h' : IsNumeral k digits') : ItemDenotes (digits, some digits') (.single k)
  | range {first last : Nat} {digits digits' : List Char} (h : IsNumeral first digits)
      (h' : IsNumeral last digits') (hlt : first < last) :
      ItemDenotes (digits, some digits') (.range first last)

/-- What the digits of a modulus denote. -/
inductive ModulusDenotes : Option (List Char) → Option Nat → Prop
  | none : ModulusDenotes none none
  | some {m : Nat} {digits : List Char} (h : IsNumeral m digits) (hpos : 0 < m) :
      ModulusDenotes (some digits) (some m)

/-- The digits of the form denote the numbers of the relation. -/
structure Draft.Denotes (d : Draft) (r : Relation) : Prop where
  subject : d.subject = r.subject
  modulus : ModulusDenotes d.modulus r.modulus
  negated : d.negated = r.negated
  values : List.Forall₂ ItemDenotes d.items r.values

/-- **The text spells the relation.** -/
def Spells (r : Relation) (cs : List Char) : Prop :=
  ∃ d : Draft, d.Matches cs ∧ d.Denotes r

/-! ### What can be wrong with digits -/

/-- What is wrong with the digits of a modulus in the given text. -/
inductive ModulusFault (atom : String) : Option (List Char) → Fault → Prop
  | number {digits : List Char} (h : ∀ k, ¬IsNumeral k digits) :
      ModulusFault atom (some digits) (.unhandledAtom atom)
  | zero {digits : List Char} (h : IsNumeral 0 digits) :
      ModulusFault atom (some digits) (.zeroModulus atom)

/-- What is wrong with the digits of an item in the given text. -/
inductive ItemFault (atom : String) : List Char × Option (List Char) → Fault → Prop
  | number {item : List Char × Option (List Char)}
      (h : (∀ k, ¬IsNumeral k item.1) ∨ ∃ digits ∈ item.2, ∀ k, ¬IsNumeral k digits) :
      ItemFault atom item (.unhandledAtom atom)
  | range {first last : Nat} {digits digits' : List Char} (h : IsNumeral first digits)
      (h' : IsNumeral last digits') (hlt : last < first) :
      ItemFault atom (digits, some digits') (.emptyRange atom first last)

/-- **What is wrong with a text that spells no relation.** It has no form, or the modulus is at
fault, or the modulus is fine and some item is at fault, while those before it are fine. -/
inductive Malformed (cs : List Char) : Fault → Prop
  | form (h : ∀ d : Draft, ¬d.Matches cs) : Malformed cs (.unhandledAtom (.ofList cs))
  | modulus {d : Draft} {f : Fault} (h : d.Matches cs)
      (hf : ModulusFault (.ofList cs) d.modulus f) : Malformed cs f
  | value {d : Draft} {m : Option Nat} {f : Fault}
      {before after : List (List Char × Option (List Char))} {item : List Char × Option (List Char)}
      (h : d.Matches cs) (hm : ModulusDenotes d.modulus m)
      (hitems : d.items = before ++ item :: after)
      (hbefore : ∀ i ∈ before, ∃ s, ItemDenotes i s) (hf : ItemFault (.ofList cs) item f) :
      Malformed cs f

/-! ### Reading numbers -/

/-- The digits of a modulus denote something, or there is something wrong with them. -/
theorem readModulus_iff (atom : String) (digits : Option (List Char)) :
    (∀ m, readModulus atom digits = .ok m ↔ ModulusDenotes digits m) ∧
      ∀ f, readModulus atom digits = .error f ↔ ModulusFault atom digits f := by
  apply eq_ok_iff_and_eq_error_iff
  · rintro m (_ | ⟨h, hpos⟩)
    · rfl
    · obtain ⟨k, rfl⟩ := Nat.exists_eq_succ_of_ne_zero (Nat.ne_of_gt hpos)
      simp only [readModulus, readNumeral?_eq_some_iff.2 h]
  · rintro f (h | h)
    · simp only [readModulus, readNumeral?_eq_none_iff.2 h]
    · simp only [readModulus, readNumeral?_eq_some_iff.2 h]
  · cases digits with
    | none => exact .inl ⟨none, .none⟩
    | some digits =>
      by_cases hnumeral : ∃ k, IsNumeral k digits
      · obtain ⟨k, hk⟩ := hnumeral
        rcases Nat.eq_zero_or_pos k with rfl | hpos
        · exact .inr ⟨_, .zero hk⟩
        · exact .inl ⟨some k, .some hk hpos⟩
      · exact .inr ⟨_, .number (not_exists.1 hnumeral)⟩

/-- The digits of an item denote something, or there is something wrong with them. -/
theorem readSpan_iff (atom : String) (item : List Char × Option (List Char)) :
    (∀ s, readSpan atom item = .ok s ↔ ItemDenotes item s) ∧
      ∀ f, readSpan atom item = .error f ↔ ItemFault atom item f := by
  apply eq_ok_iff_and_eq_error_iff
  · rintro s (h | ⟨h, h'⟩ | ⟨h, h', hlt⟩)
    · simp only [readSpan, readNumeral?_eq_some_iff.2 h]
    · simp [readSpan, readNumeral?_eq_some_iff.2 h, readNumeral?_eq_some_iff.2 h']
    · simp [readSpan, readNumeral?_eq_some_iff.2 h, readNumeral?_eq_some_iff.2 h', hlt]
  · rintro f (h | ⟨h, h', hlt⟩)
    · obtain ⟨digits, _ | digits'⟩ := item
      · rcases h with h | ⟨_, hnone, -⟩
        · simp only [readSpan, readNumeral?_eq_none_iff.2 h]
        · cases hnone
      · rcases h with h | ⟨_, hsome, h⟩
        · simp only [readSpan, readNumeral?_eq_none_iff.2 h]
        · obtain rfl := Option.some.inj hsome
          cases hfirst : readNumeral? digits <;>
            simp only [readSpan, hfirst, readNumeral?_eq_none_iff.2 h]
    · simp [readSpan, readNumeral?_eq_some_iff.2 h, readNumeral?_eq_some_iff.2 h',
        Nat.ne_of_gt hlt, Nat.not_lt.2 (Nat.le_of_lt hlt)]
  · obtain ⟨digits, digits'⟩ := item
    by_cases hfirst : ∃ k, IsNumeral k digits
    · obtain ⟨first, hfirst⟩ := hfirst
      cases digits' with
      | none => exact .inl ⟨_, .single hfirst⟩
      | some digits' =>
        by_cases hlast : ∃ k, IsNumeral k digits'
        · obtain ⟨last, hlast⟩ := hlast
          rcases Nat.lt_trichotomy first last with hlt | rfl | hgt
          · exact .inl ⟨_, .range hfirst hlast hlt⟩
          · exact .inl ⟨_, .degenerate hfirst hlast⟩
          · exact .inr ⟨_, .range hfirst hlast hgt⟩
        · exact .inr ⟨_, .number (.inr ⟨digits', rfl, not_exists.1 hlast⟩)⟩
    · exact .inr ⟨_, .number (.inl (not_exists.1 hfirst))⟩

/-- **A form is completed to the relation that its digits denote.** -/
theorem complete_eq_ok_iff {atom : String} {d : Draft} :
    d.complete atom = .ok r ↔ d.Denotes r := by
  rw [Draft.complete, bind_eq_ok_iff]
  constructor
  · rintro ⟨m, hm, h⟩
    obtain ⟨values, hvalues, h⟩ := bind_eq_ok_iff.1 h
    cases h
    refine ⟨rfl, ((readModulus_iff atom _).1 m).1 hm, rfl, ?_⟩
    exact (mapM_eq_ok_iff.1 hvalues).imp fun item s ↦ ((readSpan_iff atom item).1 s).1
  · rintro ⟨hsubject, hmodulus, hnegated, hvalues⟩
    refine ⟨r.modulus, ((readModulus_iff atom _).1 _).2 hmodulus,
      bind_eq_ok_iff.2 ⟨r.values, ?_, ?_⟩⟩
    · exact mapM_eq_ok_iff.2 (hvalues.imp fun item s ↦ ((readSpan_iff atom item).1 s).2)
    · rw [hsubject, hnegated]
      rfl

/-- **Completion fails** at the modulus, or else at the first item that is at fault. -/
theorem complete_eq_error_iff {atom : String} {d : Draft} :
    d.complete atom = .error f ↔ ModulusFault atom d.modulus f ∨
      ∃ m before item after, ModulusDenotes d.modulus m ∧ d.items = before ++ item :: after ∧
        (∀ i ∈ before, ∃ s, ItemDenotes i s) ∧ ItemFault atom item f := by
  rw [Draft.complete, bind_eq_error_iff, (readModulus_iff atom d.modulus).2 f]
  refine or_congr_right ⟨?_, ?_⟩
  · rintro ⟨m, hm, h⟩
    rcases bind_eq_error_iff.1 h with h | ⟨values, -, h⟩
    · obtain ⟨before, item, after, hitems, hbefore, hitem⟩ := mapM_eq_error_iff.1 h
      refine ⟨m, before, item, after, ((readModulus_iff atom _).1 m).1 hm, hitems, ?_,
        ((readSpan_iff atom item).2 f).1 hitem⟩
      intro i hi
      obtain ⟨s, hs⟩ := hbefore i hi
      exact ⟨s, ((readSpan_iff atom i).1 s).1 hs⟩
    · cases h
  · rintro ⟨m, before, item, after, hm, hitems, hbefore, hitem⟩
    refine ⟨m, ((readModulus_iff atom _).1 m).2 hm, bind_eq_error_iff.2 (.inl ?_)⟩
    refine mapM_eq_error_iff.2 ⟨before, item, after, hitems, fun i hi ↦ ?_,
      ((readSpan_iff atom item).2 f).2 hitem⟩
    obtain ⟨s, hs⟩ := hbefore i hi
    exact ⟨s, ((readSpan_iff atom i).1 s).2 hs⟩

/-! ### Reading relations -/

/-- What is read is spelled by the text, but for blanks at the end. -/
theorem exists_spells_of_readTrimmed (h : readTrimmed cs = .ok r) :
    ∃ s b, cs = s ++ b ∧ Blank b ∧ r.Spells s := by
  rw [readTrimmed] at h
  split at h
  next => cases h
  next =>
    split at h
    next d hd =>
      obtain ⟨s, b, rfl, hb, hmatches⟩ := Draft.exists_matches_of_read? hd
      exact ⟨s, b, rfl, hb, d, hmatches, complete_eq_ok_iff.1 h⟩
    next => cases h

/-- **A relation is read from the texts that spell it.** -/
theorem readTrimmed_eq_ok_iff (hend : ∀ c ∈ cs.getLast?, isBlank c = false) :
    readTrimmed cs = .ok r ↔ r.Spells cs := by
  constructor
  · intro h
    obtain ⟨s, b, rfl, hb, hspells⟩ := exists_spells_of_readTrimmed h
    rwa [eq_nil_of_blank_end hb hend, List.append_nil]
  · rintro ⟨d, hmatches, hdenotes⟩
    have hparen := hmatches.any_paren
    rw [readTrimmed, hparen, Draft.read?_of_matches hmatches]
    exact complete_eq_ok_iff.2 hdenotes

/-- **Reading fails on malformed texts**, and with their fault. -/
theorem readTrimmed_eq_error_iff (hend : ∀ c ∈ cs.getLast?, isBlank c = false)
    (hparen : cs.any (fun c ↦ c == '(' || c == ')') = false) :
    readTrimmed cs = .error f ↔ Malformed cs f := by
  rw [readTrimmed, hparen]
  constructor
  · intro h
    cases hread : Draft.read? cs with
    | none =>
      obtain rfl : .unhandledAtom (.ofList cs) = f := by simpa [hread] using h
      exact .form fun d hd ↦ by simp [Draft.read?_of_matches hd] at hread
    | some d =>
      have hmatches := (Draft.read?_eq_some_iff hend).1 hread
      have hcomplete : d.complete (.ofList cs) = .error f := by simpa [hread] using h
      rcases complete_eq_error_iff.1 hcomplete with hf | ⟨_, _, _, _, hm, hitems, hb, hf⟩
      · exact .modulus hmatches hf
      · exact .value hmatches hm hitems hb hf
  · rintro (hform | ⟨hmatches, hf⟩ | ⟨hmatches, hm, hitems, hb, hf⟩)
    · have hnone : Draft.read? cs = none := by
        rw [Option.eq_none_iff_forall_ne_some]
        exact fun d hd ↦ hform d ((Draft.read?_eq_some_iff hend).1 hd)
      simp [hnone]
    · have hcomplete := complete_eq_error_iff.2 (.inl hf)
      simpa [Draft.read?_of_matches hmatches] using hcomplete
    · have hcomplete := complete_eq_error_iff.2 (.inr ⟨_, _, _, _, hm, hitems, hb, hf⟩)
      simpa [Draft.read?_of_matches hmatches] using hcomplete

/-! ### Spellings -/

theorem ModulusDenotes.valid {digits : Option (List Char)} {modulus : Option Nat}
    (h : ModulusDenotes digits modulus) : ∀ m ∈ modulus, 0 < m ∧ m < numeralBound := by
  intro m hm
  cases h with
  | none => cases hm
  | some h hpos =>
    obtain rfl := Option.some.inj hm
    exact ⟨hpos, h.lt⟩

theorem ItemDenotes.valid {item : List Char × Option (List Char)} {s : Span}
    (h : ItemDenotes item s) : s.Valid := by
  cases h with
  | single h => exact h.lt
  | degenerate h _ => exact h.lt
  | range _ h hlt => exact ⟨hlt, h.lt⟩

theorem ModulusDenotes.isDigits {digits : Option (List Char)} {modulus : Option Nat}
    (h : ModulusDenotes digits modulus) : ∀ ds ∈ digits, IsDigits ds := by
  intro ds hds
  cases h with
  | none => cases hds
  | some h =>
    obtain rfl := Option.some.inj hds
    exact h.isDigits

theorem ItemDenotes.itemShaped {item : List Char × Option (List Char)} {s : Span}
    (h : ItemDenotes item s) : ItemShaped item := by
  cases h with
  | single h => exact ⟨h.isDigits, nofun⟩
  | degenerate h h' => exact ⟨h.isDigits, by simpa using h'.isDigits⟩
  | range h h' => exact ⟨h.isDigits, by simpa using h'.isDigits⟩

/-- Only valid relations are spelled. -/
theorem Spells.valid (h : r.Spells cs) : r.Valid := by
  obtain ⟨d, ⟨hshaped, -⟩, hsubject, hmodulus, hnegated, hvalues⟩ := h
  refine ⟨hmodulus.valid, ?_, ?_⟩
  · intro hnil
    rw [hnil, List.forall₂_nil_right_iff] at hvalues
    exact hshaped.items_ne_nil hvalues
  · intro s hs
    obtain ⟨item, -, hitem⟩ := exists_of_forall₂_of_mem hvalues.flip hs
    exact hitem.valid

/-- The digits of a span, without zeros in front. -/
def spanDigits : Span → List Char × Option (List Char)
  | .single k => (Nat.toDigits 10 k, none)
  | .range first last => (Nat.toDigits 10 first, some (Nat.toDigits 10 last))

/-- The digits of a valid span denote it. -/
theorem itemDenotes_spanDigits {s : Span} (h : s.Valid) : ItemDenotes (spanDigits s) s := by
  cases s with
  | single k => exact .single (isNumeral_toDigits h)
  | range first last =>
    obtain ⟨hlt, hlast⟩ := h
    exact .range (isNumeral_toDigits (Nat.lt_trans hlt hlast)) (isNumeral_toDigits hlast) hlt

/-- Every valid relation is spelled by some text. -/
theorem Valid.exists_spells (h : r.Valid) : ∃ cs, r.Spells cs := by
  let d : Draft :=
    { subject := r.subject, modulus := r.modulus.map (Nat.toDigits 10), negated := r.negated
      items := r.values.map spanDigits }
  have hmodulus : ModulusDenotes d.modulus r.modulus := by
    cases hm : r.modulus with
    | none => simpa [d, hm] using ModulusDenotes.none
    | some m =>
      obtain ⟨hpos, hlt⟩ := h.modulus m hm
      simpa [d, hm] using ModulusDenotes.some (isNumeral_toDigits hlt) hpos
  have hvalues : List.Forall₂ ItemDenotes d.items r.values := by
    rw [List.forall₂_map_left_iff, List.forall₂_same]
    exact fun s hs ↦ itemDenotes_spanDigits (h.values s hs)
  have hshaped : d.Shaped := by
    refine ⟨hmodulus.isDigits, by simpa [d] using h.values_ne_nil, fun item hitem ↦ ?_⟩
    obtain ⟨s, -, hs⟩ := exists_of_forall₂_of_mem hvalues hitem
    exact hs.itemShaped
  exact ⟨d.parts.flatten, d, ⟨hshaped, spaced_flatten (List.cons_ne_nil _ _)⟩,
    ⟨rfl, hmodulus, rfl, hvalues⟩⟩

/-- Whether a text spells a relation depends on its words alone. -/
theorem Spells.of_apart {ws : List (List Char)} {s t : List Char} (h : r.Spells s)
    (hs : Apart ws s) (ht : Apart ws t) : r.Spells t := by
  obtain ⟨d, ⟨hshaped, hspaced⟩, hdenotes⟩ := h
  exact ⟨d, ⟨hshaped, hspaced.of_apart hshaped.isWord_of_mem_parts hs ht⟩, hdenotes⟩

end Relation

end PluralForms
