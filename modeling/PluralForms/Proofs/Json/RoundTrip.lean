import PluralForms.Proofs.Json.Items

/-!
# Reading back what was written

Every value is read back from its compact and from its pretty form, as long as it is within the
limits of the reader (`Readable`): containers not nested too deep and numbers in range.

The two forms have the same tokens and differ in the white space between them, to which the reader
is blind. So what is said here about arrays and objects leaves the white space open
(`spelled_array`, `spelled_object`), and both forms are instances.
-/

namespace PluralForms.Json

variable {depth : Nat} {v : Json}

/-! ### Values -/

/-- The text is read as the value wherever it stands, and can be told from a closing bracket. -/
structure Spelled (depth : Nat) (v : Json) (text : List Char) : Prop where
  starts : ∃ c cs, text = c :: cs ∧ isSpace c = false ∧ c ≠ ']'
  reads : ∀ rest, Ends rest → readValue depth (text ++ rest) = some (v, rest)

theorem readValue_append {gap : List Char} (h : IsGap gap) (cs : List Char) :
    readValue depth (gap ++ cs) = readValue depth cs := by
  cases depth <;> rw [readValue, readValue, skipSpace_append h]

/-- A value that does not start as a container does. -/
theorem Spelled.of_readScalar {c : Char} {cs : List Char}
    (hc : (isSpace c || c == ']' || c == '[' || c == '{') = false)
    (h : ∀ rest, Ends rest → readScalar (c :: cs ++ rest) = some (v, rest)) :
    Spelled depth v (c :: cs) := by
  simp only [Bool.or_eq_false_iff, beq_eq_false_iff_ne] at hc
  obtain ⟨⟨⟨hspace, hclosing⟩, hbracket⟩, hbrace⟩ := hc
  refine ⟨⟨c, cs, rfl, hspace, hclosing⟩, fun rest hrest ↦ ?_⟩
  cases depth with
  | zero =>
    rw [readValue, List.cons_append, skipSpace_cons hspace, ← List.cons_append, h rest hrest]
  | succ depth =>
    rw [readValue, List.cons_append, skipSpace_cons hspace, ← List.cons_append]
    split
    next heq => exact absurd (List.cons.inj heq).1 hbracket
    next heq => exact absurd (List.cons.inj heq).1 hbrace
    next => exact h rest hrest

theorem spelled_null : Spelled depth .null "null".toList :=
  .of_readScalar (by decide) fun _ _ ↦ rfl

theorem spelled_bool (b : Bool) : Spelled depth (.bool b) (boolText b).toList := by
  cases b with
  | false => exact .of_readScalar (by decide) fun _ _ ↦ rfl
  | true => exact .of_readScalar (by decide) fun _ _ ↦ rfl

/-- **A string is read back** from its quoted form. -/
theorem spelled_string (s : String) : Spelled depth (.string s) (quote s).toList := by
  rw [toList_quote]
  refine .of_readScalar (by decide) fun rest _ ↦ ?_
  have hread := readString_flatMap_escapeChar s.toList rest
  rw [String.ofList_toList] at hread
  simp [readScalar, hread]

/-- **A number is read back** from its digits and its power of ten. -/
theorem spelled_number {x : JsonNumber} (hx : InRange x) :
    Spelled depth (.number x) x.text.toList := by
  have hread : ∀ rest, Ends rest → readScalar (x.text.toList ++ rest) = some (.number x, rest) :=
    fun _ hrest ↦ readScalar_text hx hrest
  obtain ⟨c, cs, hcs, hc⟩ : ∃ c cs, x.text.toList = c :: cs ∧ (c = '-' ∨ c.isDigit = true) := by
    obtain ⟨c, cs, hcs⟩ :=
      List.exists_cons_of_ne_nil (Nat.toDigits_ne_nil (n := x.significand) (b := 10))
    rw [toList_text, hcs]
    cases x.negative with
    | true => exact ⟨_, _, rfl, .inl rfl⟩
    | false =>
      have hc := Text.isDigit_of_mem_toDigits x.significand c (hcs ▸ List.mem_cons_self)
      exact ⟨_, _, rfl, .inr hc⟩
  rw [hcs] at hread ⊢
  refine .of_readScalar (Bool.eq_false_iff.2 fun hother ↦ ?_) hread
  simp only [isSpace, Bool.or_eq_true, beq_iff_eq] at hother
  rcases hc with rfl | hc
  · exact absurd hother (by decide)
  · rcases hother with ((((((rfl | rfl) | rfl) | rfl) | rfl) | rfl) | rfl) <;>
      exact absurd hc (by decide)

/-! ### What stands between brackets -/

/-- Nothing, or the items with commas between them and white space around. -/
def body (lead gap trail : List Char) (texts : List (List Char)) : List Char :=
  if texts.isEmpty then [] else lead ++ ((',' :: gap).intercalate texts ++ trail)

section Items

variable {α : Type} {loop : Nat → List Char → Option (List α × List Char)} {form : α → List Char}
  {closing : Char} {lead gap trail : List Char}

/-- What a reader sees between brackets with items in it: not the closing one, and all items. -/
theorem skipSpace_body {item : α} {items : List α}
    (h : ∀ i ∈ item :: items, TakesItem loop closing i (form i))
    (hloop : ∀ bound cs, loop bound (gap ++ cs) = loop bound cs) (hlead : IsGap lead)
    (htrail : IsGap trail) (rest : List Char) :
    ∃ c more, skipSpace (body lead gap trail ((item :: items).map form) ++ closing :: rest) =
        c :: more ∧ c ≠ closing ∧
      loop (c :: more).length (c :: more) = some (item :: items, rest) := by
  obtain ⟨c, cs, hcs, hspace, hclosing⟩ := (h item List.mem_cons_self).starts
  have hbound := length_le_length_intercalate (fun i hi ↦ (h i hi).ne_nil) (',' :: gap)
  have hread : ∀ bound, (item :: items).length ≤ bound → loop bound ((',' :: gap).intercalate
      ((item :: items).map form) ++ (trail ++ closing :: rest)) = some (item :: items, rest) := by
    intro bound hbound
    rw [loop_intercalate h hloop (List.cons_ne_nil _ _) htrail hbound, List.map_id']
  obtain ⟨more, hmore⟩ : ∃ more, (',' :: gap).intercalate ((item :: items).map form) ++
      (trail ++ closing :: rest) = c :: more := by
    cases items with
    | nil => exact ⟨_, by rw [List.map_singleton, List.intercalate_singleton, hcs]; rfl⟩
    | cons item' items =>
      exact ⟨_, by rw [List.map_cons, List.map_cons, List.intercalate_cons_cons, hcs]; rfl⟩
  refine ⟨c, more, ?_, hclosing, ?_⟩
  · rw [body, if_neg (by simp), List.append_assoc, skipSpace_append hlead, List.append_assoc, hmore,
      skipSpace_cons hspace]
  · rw [← hmore]
    refine hread _ ?_
    rw [List.length_append]
    omega

end Items

/-! ### Arrays -/

section Containers

variable {form : Json → List Char} {lead gap trail : List Char}

theorem readElements_append (h : IsGap gap) (bound : Nat) (cs : List Char) :
    readElements (readValue depth) bound (gap ++ cs) =
      readElements (readValue depth) bound cs := by
  cases bound with
  | zero => rfl
  | succ bound => rw [readElements, readElements, readValue_append h]

/-- The value of an element is read in the loop over elements, be it the last or not. -/
theorem takesItem_element {e : Json} (he : Spelled depth e (form e)) :
    TakesItem (readElements (readValue depth)) ']' e (form e) where
  starts := he.starts
  last {trail} htrail bound rest := by
    have hends : Ends (trail ++ ']' :: rest) := htrail.ends_append (ends_cons rest (by decide))
    have hskip : skipSpace (trail ++ ']' :: rest) = ']' :: rest := by
      rw [skipSpace_append htrail, skipSpace_cons (by decide)]
    simp [readElements, he.reads _ hends, hskip]
  next bound more := by
    have hends : Ends (',' :: more) := ends_cons more (by decide)
    have hskip : skipSpace (',' :: more) = ',' :: more := skipSpace_cons (by decide) more
    rw [readElements, he.reads _ hends]
    simp only [Option.bind_eq_bind, Option.bind_some, hskip]
    cases readElements (readValue depth) bound more <;> rfl

/-- **An array is read back**, whatever the white space in it. -/
theorem spelled_array {es : List Json} (h : ∀ e ∈ es, Spelled depth e (form e))
    (hlead : IsGap lead) (hgap : IsGap gap) (htrail : IsGap trail) :
    Spelled (depth + 1) (.array es) ('[' :: (body lead gap trail (es.map form) ++ [']'])) := by
  refine ⟨⟨_, _, rfl, by decide, by decide⟩, fun rest _ ↦ ?_⟩
  have hopen : readValue (depth + 1) ('[' :: (body lead gap trail (es.map form) ++ [']']) ++ rest) =
      readArray (readValue depth) (body lead gap trail (es.map form) ++ ']' :: rest) := by
    simp [readValue, skipSpace_cons (by decide : isSpace '[' = false)]
  rw [hopen, readArray]
  cases es with
  | nil => rfl
  | cons e es =>
    obtain ⟨c, more, hskip, hc, hread⟩ := skipSpace_body (fun e he ↦ takesItem_element (h e he))
      (readElements_append hgap) hlead htrail rest
    rw [hskip]
    split
    next heq => exact absurd (List.cons.inj heq).1 hc
    next => rw [hread]; rfl

/-! ### Objects -/

/-- A member: its name, a colon, and its value after white space. -/
def memberText (form : Json → List Char) (colon : List Char) (m : String × Json) : List Char :=
  (quote m.1).toList ++ ':' :: (colon ++ form m.2)

theorem memberText_eq_cons (form : Json → List Char) (colon : List Char) (m : String × Json) :
    memberText form colon m =
      '"' :: (m.1.toList.flatMap escapeChar ++ '"' :: ':' :: (colon ++ form m.2)) := by
  simp [memberText, toList_quote]

theorem readMembers_append (hgap : IsGap gap) (bound : Nat) (cs : List Char) :
    readMembers (readValue depth) bound (gap ++ cs) =
      readMembers (readValue depth) bound cs := by
  cases bound with
  | zero => rfl
  | succ bound => rw [readMembers, readMembers, skipSpace_append hgap]

/-- A member is read in the loop over members, with any white space after the colon. -/
theorem takesItem_member {colon : List Char} (hcolon : IsGap colon) {m : String × Json}
    (hm : Spelled depth m.2 (form m.2)) :
    TakesItem (readMembers (readValue depth)) '}' m (memberText form colon m) where
  starts := ⟨_, _, memberText_eq_cons form colon m, by decide, by decide⟩
  last {trail} htrail bound rest := by
    have hends : Ends (trail ++ '}' :: rest) := htrail.ends_append (ends_cons rest (by decide))
    have hskip : skipSpace (trail ++ '}' :: rest) = '}' :: rest := by
      rw [skipSpace_append htrail, skipSpace_cons (by decide)]
    have hvalue : readValue depth (colon ++ (form m.2 ++ (trail ++ '}' :: rest))) =
        some (m.2, trail ++ '}' :: rest) := by
      rw [readValue_append hcolon, hm.reads _ hends]
    rw [memberText_eq_cons]
    simp [readMembers, skipSpace_cons (by decide : isSpace '"' = false),
      skipSpace_cons (by decide : isSpace ':' = false), readString_flatMap_escapeChar, hvalue,
      hskip]
  next bound more := by
    have hends : Ends (',' :: more) := ends_cons more (by decide)
    have hskip : skipSpace (',' :: more) = ',' :: more := skipSpace_cons (by decide) more
    have hvalue : readValue depth (colon ++ (form m.2 ++ ',' :: more)) =
        some (m.2, ',' :: more) := by
      rw [readValue_append hcolon, hm.reads _ hends]
    rw [memberText_eq_cons]
    simp only [readMembers, List.cons_append, List.append_assoc, String.ofList_toList,
      skipSpace_cons (by decide : isSpace '"' = false), readString_flatMap_escapeChar,
      skipSpace_cons (by decide : isSpace ':' = false), Option.bind_eq_bind, Option.bind_some,
      hvalue, hskip]
    cases readMembers (readValue depth) bound more <;> rfl

/-- **An object is read back**, whatever the white space in it. -/
theorem spelled_object {ms : List (String × Json)} (h : ∀ m ∈ ms, Spelled depth m.2 (form m.2))
    {colon : List Char} (hcolon : IsGap colon) (hlead : IsGap lead) (hgap : IsGap gap)
    (htrail : IsGap trail) :
    Spelled (depth + 1) (.object ms)
      ('{' :: (body lead gap trail (ms.map (memberText form colon)) ++ ['}'])) := by
  refine ⟨⟨_, _, rfl, by decide, by decide⟩, fun rest _ ↦ ?_⟩
  have hopen : readValue (depth + 1)
      ('{' :: (body lead gap trail (ms.map (memberText form colon)) ++ ['}']) ++ rest) =
      readObject (readValue depth)
        (body lead gap trail (ms.map (memberText form colon)) ++ '}' :: rest) := by
    simp [readValue, skipSpace_cons (by decide : isSpace '{' = false)]
  rw [hopen, readObject]
  cases ms with
  | nil => rfl
  | cons m ms =>
    obtain ⟨c, more, hskip, hc, hread⟩ :=
      skipSpace_body (fun m hm ↦ takesItem_member hcolon (h m hm)) (readMembers_append hgap) hlead
        htrail rest
    rw [hskip]
    split
    next heq => exact absurd (List.cons.inj heq).1 hc
    next => rw [hread]; rfl

end Containers

/-! ### The two forms -/

/-- The value is within the limits of the reader, with this depth allowed. -/
inductive Readable : Nat → Json → Prop
  | null {depth : Nat} : Readable depth .null
  | bool {depth : Nat} (b : Bool) : Readable depth (.bool b)
  | string {depth : Nat} (s : String) : Readable depth (.string s)
  | number {depth : Nat} {x : JsonNumber} : InRange x → Readable depth (.number x)
  | array {depth : Nat} {es : List Json} :
    (∀ e ∈ es, Readable depth e) → Readable (depth + 1) (.array es)
  | object {depth : Nat} {ms : List (String × Json)} :
    (∀ m ∈ ms, Readable depth m.2) → Readable (depth + 1) (.object ms)

theorem compactElements_eq_map (es : List Json) : compactElements es = es.map compact := by
  induction es with
  | nil => rfl
  | cons e es ih => rw [compactElements, ih, List.map_cons]

theorem compactMembers_eq_map (ms : List (String × Json)) :
    compactMembers ms = ms.map fun m ↦ quote m.1 ++ ":" ++ compact m.2 := by
  induction ms with
  | nil => rfl
  | cons m ms ih => rw [compactMembers, ih, List.map_cons]

theorem prettyElements_eq_map (level : Nat) (es : List Json) :
    prettyElements level es = es.map (prettyAt level) := by
  induction es with
  | nil => rfl
  | cons e es ih => rw [prettyElements, ih, List.map_cons]

theorem prettyMembers_eq_map (level : Nat) (ms : List (String × Json)) :
    prettyMembers level ms = ms.map fun m ↦ quote m.1 ++ ": " ++ prettyAt level m.2 := by
  induction ms with
  | nil => rfl
  | cons m ms ih => rw [prettyMembers, ih, List.map_cons]

theorem intercalate_comma (texts : List (List Char)) :
    [','].intercalate texts = body [] [] [] texts := by
  rw [body]
  cases texts with
  | nil => rfl
  | cons text texts => simp

/-- A block is what stands between brackets, with line breaks for white space. -/
theorem toList_block (level : Nat) (items : List String) :
    (block level items).toList = body (newline (level + 1)).toList (newline (level + 1)).toList
      (newline level).toList (items.map String.toList) := by
  rw [block, body]
  cases items with
  | nil => rfl
  | cons item items => simp [String.toList_intercalate]

theorem isGap_newline (level : Nat) : IsGap (newline level).toList := by
  have htext : (newline level).toList = '\n' :: List.replicate (2 * level) ' ' := by simp [newline]
  rw [htext]
  exact isGap_lineBreak (2 * level)

/-- **A value is read back from its compact form.** -/
theorem spelled_compact (h : Readable depth v) : Spelled depth v v.compact.toList := by
  induction h with
  | null => exact spelled_null
  | bool b => exact spelled_bool b
  | string s => exact spelled_string s
  | number hx => exact spelled_number hx
  | @array depth es _ ih =>
    have htext : (Json.array es).compact.toList =
        '[' :: (body [] [] [] (es.map fun e ↦ e.compact.toList) ++ [']']) := by
      simp [compact, compactElements_eq_map, intercalate_comma, Function.comp_def]
    rw [htext]
    exact spelled_array ih isGap_nil isGap_nil isGap_nil
  | @object depth ms _ ih =>
    have htext : (Json.object ms).compact.toList =
        '{' :: (body [] [] [] (ms.map fun m ↦ memberText (fun v ↦ v.compact.toList) [] m) ++
          ['}']) := by
      simp [compact, compactMembers_eq_map, intercalate_comma, Function.comp_def, memberText]
    rw [htext]
    exact spelled_object ih isGap_nil isGap_nil isGap_nil isGap_nil

/-- **A value is read back from its pretty form**, at any level. -/
theorem spelled_prettyAt (h : Readable depth v) (level : Nat) :
    Spelled depth v (prettyAt level v).toList := by
  induction h generalizing level with
  | null => exact spelled_null
  | bool b => exact spelled_bool b
  | string s => exact spelled_string s
  | number hx => exact spelled_number hx
  | @array depth es _ ih =>
    have htext : (prettyAt level (.array es)).toList = '[' :: (body (newline (level + 1)).toList
        (newline (level + 1)).toList (newline level).toList
        (es.map fun e ↦ (prettyAt (level + 1) e).toList) ++ [']']) := by
      simp [prettyAt, prettyElements_eq_map, toList_block, Function.comp_def]
    rw [htext]
    exact spelled_array (fun e he ↦ ih e he (level + 1)) (isGap_newline _) (isGap_newline _)
      (isGap_newline _)
  | @object depth ms _ ih =>
    have htext : (prettyAt level (.object ms)).toList = '{' :: (body (newline (level + 1)).toList
        (newline (level + 1)).toList (newline level).toList
        (ms.map fun m ↦ memberText (fun v ↦ (prettyAt (level + 1) v).toList) [' '] m) ++
          ['}']) := by
      simp [prettyAt, prettyMembers_eq_map, toList_block, Function.comp_def, memberText]
    rw [htext]
    exact spelled_object (fun m hm ↦ ih m hm (level + 1)) isGap_space (isGap_newline _)
      (isGap_newline _) (isGap_newline _)

/-! ### Whole texts -/

/-- A text is read as the value that it spells, with white space after it. -/
theorem read?_of_spelled {text gap : List Char} (h : Spelled maxDepth v text) (hgap : IsGap gap) :
    read? (String.ofList (text ++ gap)) = some v := by
  have hends : Ends gap := by
    have hnil : Ends [] := fun c hc ↦ by cases hc
    simpa using hgap.ends_append hnil
  have hskip : skipSpace gap = [] := List.dropWhile_eq_nil_iff.2 hgap
  rw [read?, String.toList_ofList, h.reads gap hends]
  simp [hskip]

end PluralForms.Json
