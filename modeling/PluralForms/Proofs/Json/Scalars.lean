import PluralForms.Json.Reader
import PluralForms.Json.Writer
import PluralForms.Proofs.Text.Scan

/-!
# Reading strings and numbers back

What the writer makes of a string or a number is read as that string or number, whatever comes
after it. For a string there is no more to say: its closing quotation mark is the first that is not
escaped. A number goes on as long as there are digits, a point or an exponent, so it can be read
back only where none of these follows (`Ends`).
-/

namespace PluralForms.Json

/-- What comes after a value and cannot be taken for a part of it. -/
def Ends (rest : List Char) : Prop :=
  ∀ c ∈ rest.head?, (c.isDigit || c == '.' || c == 'e' || c == 'E') = false

theorem ends_cons {c : Char} (rest : List Char)
    (h : (c.isDigit || c == '.' || c == 'e' || c == 'E') = false) : Ends (c :: rest) := by
  intro d hd
  obtain rfl := Option.some.inj hd
  exact h

/-! ### Strings -/

theorem hexValue?_hexDigit : ∀ n < 16, hexValue? (hexDigit n) = some n := by
  decide

/-- The escape of a control character. -/
theorem readUnicodeEscape_control {c : Char} (h : c.toNat < 0x20) (rest : List Char) :
    readUnicodeEscape ('0' :: '0' :: hexDigit (c.toNat / 16) :: hexDigit (c.toNat % 16) :: rest) =
      some (c, rest) := by
  have hzero : hexValue? '0' = some 0 := by decide
  have hhigh := hexValue?_hexDigit (c.toNat / 16) (by omega)
  have hlow := hexValue?_hexDigit (c.toNat % 16) (by omega)
  have hunit : 16 * (c.toNat / 16) + c.toNat % 16 = c.toNat := by omega
  have hsurrogate : ¬55296 ≤ c.toNat := by omega
  have hsurrogate' : ¬56320 ≤ c.toNat := by omega
  simp [readUnicodeEscape, readHex4, hzero, hhigh, hlow, hunit, hsurrogate, hsurrogate']

/-- A character stands for itself, or its form is an escape that is read as the character. -/
theorem escapeChar_cases (c : Char) :
    (escapeChar c = [c] ∧ c ≠ '"' ∧ c ≠ '\\' ∧ ¬c.toNat < 0x20) ∨
      ∃ escape, escapeChar c = '\\' :: escape ∧
        ∀ rest, readEscape (escape ++ rest) = some (c, rest) := by
  rw [escapeChar]
  split_ifs with hquote hbackslash hbackspace hformFeed hlineFeed hreturn htab hcontrol
  · exact .inr ⟨_, rfl, fun _ ↦ by rw [hquote]; rfl⟩
  · exact .inr ⟨_, rfl, fun _ ↦ by rw [hbackslash]; rfl⟩
  · exact .inr ⟨_, rfl, fun _ ↦ by rw [hbackspace]; rfl⟩
  · exact .inr ⟨_, rfl, fun _ ↦ by rw [hformFeed]; rfl⟩
  · exact .inr ⟨_, rfl, fun _ ↦ by rw [hlineFeed]; rfl⟩
  · exact .inr ⟨_, rfl, fun _ ↦ by rw [hreturn]; rfl⟩
  · exact .inr ⟨_, rfl, fun _ ↦ by rw [htab]; rfl⟩
  · exact .inr ⟨_, rfl, fun rest ↦ readUnicodeEscape_control hcontrol rest⟩
  · exact .inl ⟨rfl, hquote, hbackslash, hcontrol⟩

/-- **The form of a character is read back as the character.** -/
theorem readCharacters_escapeChar (bound : Nat) (c : Char) (rest : List Char) :
    readCharacters (bound + 1) (escapeChar c ++ rest) =
      (readCharacters bound rest).map fun p ↦ (c :: p.1, p.2) := by
  rcases escapeChar_cases c with ⟨hself, hquote, hbackslash, hcontrol⟩ | ⟨escape, hescape, hread⟩
  · rw [hself, List.singleton_append, readCharacters, if_neg hcontrol]
    · cases readCharacters bound rest <;> rfl
    · exact hquote
    · exact hbackslash
  · rw [hescape, List.cons_append, readCharacters]
    simp only [hread, Option.bind_eq_bind, Option.bind_some]
    cases readCharacters bound rest <;> rfl

/-- Escapes do not make a text shorter, so its length is enough of a bound. -/
theorem length_le_length_flatMap_escapeChar (cs : List Char) :
    cs.length ≤ (cs.flatMap escapeChar).length := by
  induction cs with
  | nil => exact Nat.le_refl 0
  | cons c cs ih =>
    have hone : 1 ≤ (escapeChar c).length := by
      rcases escapeChar_cases c with ⟨h, -⟩ | ⟨escape, h, -⟩ <;> simp [h]
    rw [List.flatMap_cons, List.length_append, List.length_cons]
    omega

/-- **A string is read back**, up to its closing quotation mark. -/
theorem readString_flatMap_escapeChar (cs rest : List Char) :
    readString (cs.flatMap escapeChar ++ '"' :: rest) = some (String.ofList cs, rest) := by
  have hread : ∀ bound, cs.length < bound →
      readCharacters bound (cs.flatMap escapeChar ++ '"' :: rest) = some (cs, rest) := by
    induction cs with
    | nil =>
      intro bound hbound
      obtain ⟨bound, rfl⟩ := Nat.exists_eq_succ_of_ne_zero (Nat.ne_of_gt hbound)
      rfl
    | cons c cs ih =>
      intro bound hbound
      obtain ⟨bound, rfl⟩ := Nat.exists_eq_succ_of_ne_zero (Nat.ne_of_gt (Nat.zero_lt_of_lt hbound))
      rw [List.flatMap_cons, List.append_assoc, readCharacters_escapeChar,
        ih bound (Nat.lt_of_succ_lt_succ hbound)]
      rfl
  have hlength : cs.length < (cs.flatMap escapeChar ++ '"' :: rest).length := by
    have hle := length_le_length_flatMap_escapeChar cs
    rw [List.length_append, List.length_cons]
    omega
  rw [readString, hread _ hlength]
  rfl

theorem toList_quote (s : String) :
    (quote s).toList = '"' :: (s.toList.flatMap escapeChar ++ ['"']) := by
  simp [quote]

/-! ### Numbers -/

/-- Digits are read up to what is no digit. -/
theorem readDigits_append {ds rest : List Char} (hne : ds ≠ [])
    (hds : ∀ c ∈ ds, c.isDigit = true) (hrest : ∀ c ∈ rest.head?, c.isDigit = false) :
    readDigits (ds ++ rest) = some (ds, rest) := by
  rw [readDigits, Text.span_append hds hrest]
  obtain ⟨c, cs, rfl⟩ := List.exists_cons_of_ne_nil hne
  rfl

theorem readDigits_toDigits (n : Nat) {rest : List Char}
    (hrest : ∀ c ∈ rest.head?, c.isDigit = false) :
    readDigits (Nat.toDigits 10 n ++ rest) = some (Nat.toDigits 10 n, rest) :=
  readDigits_append Nat.toDigits_ne_nil (Text.isDigit_of_mem_toDigits n) hrest

/-- The digits of a number have no zero in front. -/
theorem readWhole_toDigits (n : Nat) {rest : List Char}
    (hrest : ∀ c ∈ rest.head?, c.isDigit = false) :
    readWhole (Nat.toDigits 10 n ++ rest) = some (Nat.toDigits 10 n, rest) := by
  rw [readWhole, readDigits_toDigits n hrest]
  simp only [Option.bind_eq_bind, Option.bind_some]
  split
  next c cs h => exact absurd (Text.eq_nil_of_toDigits_eq_cons h) (List.cons_ne_nil c cs)
  next => rfl

theorem Ends.not_isDigit {rest : List Char} (h : Ends rest) :
    ∀ c ∈ rest.head?, c.isDigit = false := by
  intro c hc
  have hnone := h c hc
  simp only [Bool.or_eq_false_iff] at hnone
  exact hnone.1.1.1

theorem readFraction_of_ne {rest : List Char} (h : '.' ∉ rest.head?) :
    readFraction rest = some ([], rest) := by
  rw [readFraction]
  rintro rest' rfl
  exact h rfl

/-- At the end of a value there is no exponent. -/
theorem readExponent_of_ends {rest : List Char} (h : Ends rest) :
    readExponent rest = some (0, rest) := by
  rw [readExponent]
  · rintro rest' rfl
    exact absurd (h 'e' rfl) (by decide)
  · rintro rest' rfl
    exact absurd (h 'E' rfl) (by decide)

/-- An integer is read back from its decimal form, with its sign. -/
theorem readSigned_toString (e : Int) {rest : List Char}
    (hrest : ∀ c ∈ rest.head?, c.isDigit = false) :
    readSigned ((toString e).toList ++ rest) = some (e, rest) := by
  cases e with
  | ofNat n =>
    have htext : (toString (Int.ofNat n)).toList = Nat.toDigits 10 n := Text.toList_toString n
    obtain ⟨c, cs, hcs⟩ := List.exists_cons_of_ne_nil (Nat.toDigits_ne_nil (n := n) (b := 10))
    have hc : c.isDigit = true := Text.isDigit_of_mem_toDigits n c (hcs ▸ List.mem_cons_self)
    rw [htext, readSigned, readDigits_toDigits n hrest]
    · simp [Nat.ofDigitChars_ten_toDigits]
    · intro rest' h
      rw [hcs] at h
      rw [(List.cons.inj h).1] at hc
      exact absurd hc (by decide)
    · intro rest' h
      rw [hcs] at h
      rw [(List.cons.inj h).1] at hc
      exact absurd hc (by decide)
  | negSucc n =>
    have htext : (toString (Int.negSucc n)).toList = '-' :: Nat.toDigits 10 (n + 1) := by
      have hminus : toString (Int.negSucc n) = "-" ++ toString (n + 1) := rfl
      rw [hminus, String.toList_append, Text.toList_toString]
      rfl
    rw [htext, List.cons_append, readSigned, readDigits_toDigits (n + 1) hrest]
    simp [Nat.ofDigitChars_ten_toDigits, Int.negSucc_eq]

/-- The power of ten as it stands in the literal of a number. -/
def powerText (exponent : Int) : List Char :=
  if exponent = 0 then [] else 'e' :: (toString exponent).toList

/-- The power of ten is read back as an exponent. -/
theorem readExponent_powerText (exponent : Int) {rest : List Char} (h : Ends rest) :
    readExponent (powerText exponent ++ rest) = some (exponent, rest) := by
  rw [powerText]
  split
  next hzero => rw [List.nil_append, readExponent_of_ends h, hzero]
  next => exact readSigned_toString exponent h.not_isDigit

/-- Neither a digit nor a point stands at the head of a power. -/
theorem head?_powerText_append (exponent : Int) {rest : List Char} (h : Ends rest) :
    ∀ c ∈ (powerText exponent ++ rest).head?, c.isDigit = false ∧ c ≠ '.' := by
  intro c hc
  rw [powerText] at hc
  split at hc
  next =>
    refine ⟨h.not_isDigit c hc, ?_⟩
    rintro rfl
    exact absurd (h '.' hc) (by decide)
  next =>
    obtain rfl := Option.some.inj hc
    decide

/-- The literal of a number is within the range of a double. -/
def InRange (x : JsonNumber) : Prop :=
  JsonNumber.fitsDouble (Nat.toDigits 10 x.significand) [] x.exponent = true

/-- The digits and the power of a number in range are read back as the number. -/
theorem readMagnitude_toDigits {x : JsonNumber} (hx : InRange x) (negative : Bool)
    {rest : List Char} (h : Ends rest) :
    readMagnitude negative (Nat.toDigits 10 x.significand ++ (powerText x.exponent ++ rest)) =
      some (⟨negative, x.significand, x.exponent⟩, rest) := by
  have hhead := head?_powerText_append x.exponent h
  have hwhole := readWhole_toDigits x.significand fun c hc ↦ (hhead c hc).1
  have hfraction := readFraction_of_ne fun hc ↦ (hhead '.' hc).2 rfl
  have hexponent := readExponent_powerText x.exponent h
  have hfits : JsonNumber.fitsDouble (Nat.toDigits 10 x.significand) [] x.exponent = true := hx
  simp [readMagnitude, hwhole, hfraction, hexponent, hfits, Nat.ofDigitChars_ten_toDigits]

theorem toList_text (x : JsonNumber) : x.text.toList =
    (if x.negative then ['-'] else []) ++ Nat.toDigits 10 x.significand ++
      powerText x.exponent := by
  by_cases h : x.exponent = 0 <;> cases hsign : x.negative <;>
    simp [JsonNumber.text, powerText, h, hsign]

/-- A text that starts with a digit is a number, if anything. -/
theorem readScalar_of_isDigit {c : Char} (hc : c.isDigit = true) (cs : List Char) :
    readScalar (c :: cs) =
      (readMagnitude false (c :: cs)).map fun p ↦ (.number p.1, p.2) := by
  have hne : ∀ d : Char, d.isDigit = false → c ≠ d := by
    rintro d hd rfl
    rw [hc] at hd
    cases hd
  rw [readScalar]
  · intro rest h
    exact hne '"' rfl (List.cons.inj h).1
  · intro rest h
    exact hne 'n' rfl (List.cons.inj h).1
  · intro rest h
    exact hne 't' rfl (List.cons.inj h).1
  · intro rest h
    exact hne 'f' rfl (List.cons.inj h).1
  · intro rest h
    exact hne '-' rfl (List.cons.inj h).1

/-- **A number is read back** where no more of it can follow. -/
theorem readScalar_text {x : JsonNumber} (hx : InRange x) {rest : List Char} (h : Ends rest) :
    readScalar (x.text.toList ++ rest) = some (.number x, rest) := by
  have hread := fun negative ↦ readMagnitude_toDigits hx negative h
  obtain ⟨negative, significand, exponent⟩ := x
  rw [toList_text]
  cases negative with
  | true =>
    simp [readScalar, hread]
  | false =>
    obtain ⟨c, cs, hcs⟩ :=
      List.exists_cons_of_ne_nil (Nat.toDigits_ne_nil (n := significand) (b := 10))
    have hc : c.isDigit = true :=
      Text.isDigit_of_mem_toDigits significand c (hcs ▸ List.mem_cons_self)
    simp only [hcs, List.cons_append] at hread
    simp [hcs, readScalar_of_isDigit hc, hread]

/-! ### Range -/

/-- Further digits do not make a number smaller. -/
theorem le_ofDigitChars (ds : List Char) (acc : Nat) : acc ≤ Nat.ofDigitChars 10 ds acc := by
  induction ds generalizing acc with
  | nil => exact Nat.le_of_eq Nat.ofDigitChars_nil.symm
  | cons d ds ih =>
    rw [Nat.ofDigitChars_cons]
    exact Nat.le_trans (by omega) (ih _)

/-- All digits of a number below `2 ^ 64` are significant. -/
theorem takeSignificant_eq {ds : List Char} {acc : Nat}
    (h : Nat.ofDigitChars 10 ds acc < Text.numeralBound) :
    JsonNumber.takeSignificant acc ds = (Nat.ofDigitChars 10 ds acc, ds.length) := by
  induction ds generalizing acc with
  | nil => rw [Nat.ofDigitChars_nil]; rfl
  | cons d ds ih =>
    rw [Nat.ofDigitChars_cons] at h ⊢
    have hnext : 10 * acc + (d.toNat - '0'.toNat) < Nat.pow 2 64 :=
      Nat.lt_of_le_of_lt (le_ofDigitChars ds _) h
    rw [JsonNumber.takeSignificant, if_pos hnext, ih h]
    rfl

/-- **Numbers below `2 ^ 64` are within the range of a double.** -/
theorem inRange_ofNat {n : Nat} (h : n < Text.numeralBound) : InRange (.ofNat n) := by
  have hdigits : Nat.ofDigitChars 10 (Nat.toDigits 10 n) 0 < Text.numeralBound := by
    rwa [Nat.ofDigitChars_ten_toDigits]
  rw [InRange, JsonNumber.fitsDouble, JsonNumber.ofNat]
  simp [takeSignificant_eq hdigits, JsonNumber.takeSignificant]

end PluralForms.Json
