import PluralForms.Document.Php
import PluralForms.Proofs.Json.Items

/-!
# PHP literals

How PHP reads the literals that a definition file is made of: texts in single quotes, where a
backslash is an escape only before a quote or another backslash; decimal numbers, which have no zero
in front (it would make them octal); and arrays, whose items may have keys and of which the last may
have a comma after it. White space is that of JSON.

What follows says which texts are read as which values. As with JSON, this is said of a text
wherever it stands (`Spelled`), and for arrays it follows from the same loops over items.
-/

namespace PluralForms.Php

open Json (isSpace skipSpace)

/-! ### The reader -/

/-- What a literal stands for. An item of an array may have a key. -/
inductive Value where
  | text (s : String)
  | number (n : Nat)
  | array (items : List (Option Value × Value))

/-- The characters up to the closing quote. -/
def readCharacters : List Char → Option (List Char × List Char)
  | [] => none
  | '\'' :: rest => some ([], rest)
  | '\\' :: '\\' :: rest => (readCharacters rest).map fun p ↦ ('\\' :: p.1, p.2)
  | '\\' :: '\'' :: rest => (readCharacters rest).map fun p ↦ ('\'' :: p.1, p.2)
  | c :: rest => (readCharacters rest).map fun p ↦ (c :: p.1, p.2)

/-- A text in single quotes. -/
def readQuoted : List Char → Option (String × List Char)
  | '\'' :: rest => (readCharacters rest).map fun p ↦ (String.ofList p.1, p.2)
  | _ => none

/-- A decimal number. -/
def readNumber (cs : List Char) : Option (Nat × List Char) :=
  (Json.readWhole cs).map fun p ↦ (Nat.ofDigitChars 10 p.1 0, p.2)

/-- A text or a number. -/
def readScalar : List Char → Option (Value × List Char)
  | '\'' :: rest => (readQuoted ('\'' :: rest)).map fun p ↦ (.text p.1, p.2)
  | cs => (readNumber cs).map fun p ↦ (.number p.1, p.2)

/-- An item of an array: a value, or a key, an arrow and a value. -/
def readItem (readValue : List Char → Option (Value × List Char)) (cs : List Char) :
    Option ((Option Value × Value) × List Char) := do
  let (value, rest) ← readValue cs
  match skipSpace rest with
  | '=' :: '>' :: rest' =>
    let (value', rest') ← readValue rest'
    return ((some value, value'), rest')
  | _ => return ((none, value), rest)

/-- What comes after an item: a comma and more items, or the closing bracket. -/
def readAfter (readMore : List Char → Option (List (Option Value × Value) × List Char))
    (item : Option Value × Value) (cs : List Char) :
    Option (List (Option Value × Value) × List Char) :=
  match skipSpace cs with
  | ',' :: rest => (readMore rest).map fun p ↦ (item :: p.1, p.2)
  | ')' :: rest => some ([item], rest)
  | _ => none

/-- The items of an array, read from behind its opening bracket. -/
def readItems (readValue : List Char → Option (Value × List Char)) :
    (bound : Nat) → List Char → Option (List (Option Value × Value) × List Char)
  | 0, _ => none
  | bound + 1, cs =>
    match skipSpace cs with
    | ')' :: rest => some ([], rest)
    | cs => do
      let (item, rest) ← readItem readValue cs
      readAfter (readItems readValue bound) item rest

/-- An array, read from behind its keyword. -/
def readArray (readValue : List Char → Option (Value × List Char)) (cs : List Char) :
    Option (Value × List Char) :=
  match skipSpace cs with
  | '(' :: rest => (readItems readValue rest.length rest).map fun p ↦ (.array p.1, p.2)
  | _ => none

/-- A value, with the depth to which arrays may still be nested. -/
def readValue : (depth : Nat) → List Char → Option (Value × List Char)
  | 0, cs => readScalar (skipSpace cs)
  | depth + 1, cs =>
    match skipSpace cs with
    | 'a' :: 'r' :: 'r' :: 'a' :: 'y' :: rest => readArray (readValue depth) rest
    | cs => readScalar cs

/-- A word with white space after it. -/
def readWord (word : String) (cs : List Char) : Option (List Char) := do
  let rest ← word.toList.isPrefixOf? cs
  if rest.head?.any isSpace then some (skipSpace rest) else none

/-- The value that a file returns. Arrays can be nested no deeper than the file is long. -/
def read? (file : String) : Option Value := do
  let rest ← readWord "<?php" file.toList
  let rest ← readWord "return" rest
  let (value, rest) ← readValue file.length rest
  match skipSpace rest with
  | ';' :: rest => if (skipSpace rest).isEmpty then some value else none
  | _ => none

/-! ### Texts and numbers -/

open Json (Ends IsGap TakesItem ends_cons isGap_nil skipSpace_append skipSpace_cons)
open Document (phpEscape phpQuote)

variable {depth : Nat} {v : Value}

theorem toList_phpQuote (s : String) :
    (phpQuote s).toList = '\'' :: (s.toList.flatMap phpEscape ++ ['\'']) := by
  simp [phpQuote]

/-- An escaped character is read as the character, whatever comes after it. -/
theorem readCharacters_phpEscape (c : Char) (rest : List Char) :
    readCharacters (phpEscape c ++ rest) =
      (readCharacters rest).map fun p ↦ (c :: p.1, p.2) := by
  rw [phpEscape]
  split_ifs with hbackslash hquote
  · rw [hbackslash]
    rfl
  · rw [hquote]
    rfl
  · rw [List.singleton_append, readCharacters]
    · exact hquote
    · exact fun _ h ↦ absurd h hbackslash
    · exact fun _ h ↦ absurd h hbackslash

/-- **A text is read back from its literal**, up to the closing quote and no further. -/
theorem readQuoted_phpQuote (s : String) (rest : List Char) :
    readQuoted ((phpQuote s).toList ++ rest) = some (s, rest) := by
  have hread : ∀ cs : List Char,
      readCharacters (cs.flatMap phpEscape ++ '\'' :: rest) = some (cs, rest) := by
    intro cs
    induction cs with
    | nil => rfl
    | cons c cs ih =>
      rw [List.flatMap_cons, List.append_assoc, readCharacters_phpEscape, ih]
      rfl
  rw [toList_phpQuote, List.cons_append, List.append_assoc, List.singleton_append, readQuoted,
    hread, Option.map_some, String.ofList_toList]

/-- Other backslashes stand for themselves. -/
example : readQuoted "'\\n \\' \\\\', ''".toList = some ("\\n ' \\", ", ''".toList) := by
  decide

/-- The text is read as the value wherever it stands, and can be told from a closing bracket. -/
structure Spelled (depth : Nat) (v : Value) (text : List Char) : Prop where
  starts : ∃ c cs, text = c :: cs ∧ isSpace c = false ∧ c ≠ ')'
  reads : ∀ rest, Ends rest → readValue depth (text ++ rest) = some (v, rest)

/-- White space in front of a value is skipped. -/
theorem readValue_append {gap : List Char} (h : IsGap gap) (cs : List Char) :
    readValue depth (gap ++ cs) = readValue depth cs := by
  cases depth <;> rw [readValue, readValue, skipSpace_append h]

/-- A value that does not start as an array does. -/
theorem Spelled.of_readScalar {c : Char} {cs : List Char}
    (hc : (isSpace c || c == ')' || c == 'a') = false)
    (h : ∀ rest, Ends rest → readScalar (c :: cs ++ rest) = some (v, rest)) :
    Spelled depth v (c :: cs) := by
  simp only [Bool.or_eq_false_iff, beq_eq_false_iff_ne] at hc
  obtain ⟨⟨hspace, hclosing⟩, hkeyword⟩ := hc
  refine ⟨⟨c, cs, rfl, hspace, hclosing⟩, fun rest hrest ↦ ?_⟩
  cases depth with
  | zero =>
    rw [readValue, List.cons_append, skipSpace_cons hspace, ← List.cons_append, h rest hrest]
  | succ depth =>
    rw [readValue, List.cons_append, skipSpace_cons hspace, ← List.cons_append]
    split
    next heq => exact absurd (List.cons.inj heq).1 hkeyword
    next => exact h rest hrest

/-- **A quoted text spells the text.** -/
theorem spelled_text (s : String) : Spelled depth (.text s) (phpQuote s).toList := by
  have hread := readQuoted_phpQuote s
  rw [toList_phpQuote] at hread ⊢
  refine .of_readScalar (by decide) fun rest _ ↦ ?_
  have hscalar := hread rest
  rw [List.cons_append] at hscalar ⊢
  rw [readScalar, hscalar]
  rfl

/-- A number in decimal digits spells the number. -/
theorem spelled_number (n : Nat) : Spelled depth (.number n) (toString n).toList := by
  obtain ⟨c, cs, hcs⟩ := List.exists_cons_of_ne_nil (Nat.toDigits_ne_nil (n := n) (b := 10))
  have hc : c.isDigit = true := Text.isDigit_of_mem_toDigits n c (hcs ▸ List.mem_cons_self)
  rw [Text.toList_toString, hcs]
  refine .of_readScalar (Bool.eq_false_iff.2 fun hother ↦ ?_) fun rest hrest ↦ ?_
  · simp only [isSpace, Bool.or_eq_true, beq_iff_eq] at hother
    rcases hother with (((((rfl | rfl) | rfl) | rfl) | rfl) | rfl) <;> exact absurd hc (by decide)
  · have hwhole := Json.readWhole_toDigits n hrest.not_isDigit
    rw [hcs] at hwhole
    rw [List.cons_append, readScalar, ← List.cons_append, readNumber, hwhole, ← hcs]
    · simp [Nat.ofDigitChars_ten_toDigits]
    · intro rest' h
      rw [(List.cons.inj h).1] at hc
      exact absurd hc (by decide)

/-! ### Arrays -/

/-- The text is read as the item wherever no arrow can follow. -/
structure SpelledItem (depth : Nat) (item : Option Value × Value) (text : List Char) : Prop where
  starts : ∃ c cs, text = c :: cs ∧ isSpace c = false ∧ c ≠ ')'
  reads : ∀ rest, Ends rest → '=' ∉ (skipSpace rest).head? →
    readItem (readValue depth) (text ++ rest) = some (item, rest)

/-- A value without a key is an item. -/
theorem Spelled.item {text : List Char} (h : Spelled depth v text) :
    SpelledItem depth (none, v) text := by
  refine ⟨h.starts, fun rest hrest harrow ↦ ?_⟩
  rw [readItem, h.reads rest hrest]
  simp only [Option.bind_eq_bind, Option.bind_some]
  split
  next heq => exact absurd (by rw [heq]; rfl) harrow
  next => rfl

/-- An item with a key. -/
def keyed (key : String) (text : List Char) : List Char :=
  (phpQuote key).toList ++ ' ' :: '=' :: '>' :: ' ' :: text

/-- A value behind a quoted key and an arrow is an item with this key. -/
theorem Spelled.keyed {text : List Char} (h : Spelled depth v text) (key : String) :
    SpelledItem depth (some (.text key), v) (keyed key text) := by
  have htext : Spelled depth (.text key) (phpQuote key).toList := spelled_text key
  obtain ⟨c, cs, hcs, hspace, hclosing⟩ := htext.starts
  have hfirst : Php.keyed key text = c :: (cs ++ ' ' :: '=' :: '>' :: ' ' :: text) := by
    rw [Php.keyed, hcs, List.cons_append]
  refine ⟨⟨c, _, hfirst, hspace, hclosing⟩, fun rest hrest _ ↦ ?_⟩
  have hkey := htext.reads (' ' :: '=' :: '>' :: ' ' :: (text ++ rest)) (ends_cons _ (by decide))
  have hskip : skipSpace (' ' :: '=' :: '>' :: ' ' :: (text ++ rest)) =
      '=' :: '>' :: ([' '] ++ (text ++ rest)) := rfl
  rw [Php.keyed, List.append_assoc]
  simp only [List.cons_append]
  rw [readItem, hkey]
  simp only [Option.bind_eq_bind, Option.bind_some, hskip, readValue_append Json.isGap_space,
    h.reads rest hrest]
  rfl

theorem readItems_append {gap : List Char} (h : IsGap gap) (bound : Nat) (cs : List Char) :
    readItems (readValue depth) bound (gap ++ cs) = readItems (readValue depth) bound cs := by
  cases bound with
  | zero => rfl
  | succ bound => rw [readItems, readItems, skipSpace_append h]

/-- An item is read, and the reader goes on behind it, unless an arrow would make it a key. -/
theorem SpelledItem.readItems_eq {item : Option Value × Value} {text : List Char}
    (h : SpelledItem depth item text) (bound : Nat) {rest : List Char} (hrest : Ends rest)
    (harrow : '=' ∉ (skipSpace rest).head?) :
    readItems (readValue depth) (bound + 1) (text ++ rest) =
      readAfter (readItems (readValue depth) bound) item rest := by
  have hitem := h.reads rest hrest harrow
  obtain ⟨c, cs, rfl, hspace, hclosing⟩ := h.starts
  rw [readItems, List.cons_append, skipSpace_cons hspace, ← List.cons_append]
  split
  next heq => exact absurd (List.cons.inj heq).1 hclosing
  next =>
    rw [hitem]
    rfl

/-- The items of an array are read like those of any list with commas and a closing bracket. -/
theorem SpelledItem.takesItem {item : Option Value × Value} {text : List Char}
    (h : SpelledItem depth item text) :
    TakesItem (readItems (readValue depth)) ')' item text where
  starts := h.starts
  last {trail} htrail bound rest := by
    have hends : Ends (trail ++ ')' :: rest) := htrail.ends_append (ends_cons rest (by decide))
    have hskip : skipSpace (trail ++ ')' :: rest) = ')' :: rest := by
      rw [skipSpace_append htrail, skipSpace_cons (by decide)]
    rw [h.readItems_eq bound hends (by simp [hskip]), readAfter, hskip]
    rfl
  next bound more := by
    have hends : Ends (',' :: more) := ends_cons more (by decide)
    have hskip : skipSpace (',' :: more) = ',' :: more := skipSpace_cons (by decide) more
    rw [h.readItems_eq bound hends (by simp [hskip]), readAfter, hskip]
    rfl

/-- An array literal. -/
def arrayText (body : List Char) : List Char :=
  'a' :: 'r' :: 'r' :: 'a' :: 'y' :: '(' :: (body ++ [')'])

/-- An array is read back if the loop over its items reads them. -/
theorem Spelled.of_readItems {items : List (Option Value × Value)} {body : List Char}
    (h : ∀ rest, readItems (readValue depth) (body ++ ')' :: rest).length (body ++ ')' :: rest) =
      some (items, rest)) :
    Spelled (depth + 1) (.array items) (arrayText body) := by
  refine ⟨⟨'a', _, rfl, by decide, by decide⟩, fun rest _ ↦ ?_⟩
  have hopen : readValue (depth + 1) (arrayText body ++ rest) =
      readArray (readValue depth) ('(' :: (body ++ ')' :: rest)) := by
    simp [readValue, arrayText, skipSpace_cons (by decide : isSpace 'a' = false)]
  rw [hopen, readArray, skipSpace_cons (by decide)]
  simp only [h, Option.map_some]

section Items

variable {ι : Type} {item : ι → Option Value × Value} {form : ι → List Char} {xs : List ι}
  {gap trail : List Char}

/-- **An array on one line is read back**: commas between the items. -/
theorem spelled_row (h : ∀ x ∈ xs, SpelledItem depth (item x) (form x)) (hgap : IsGap gap) :
    Spelled (depth + 1) (.array (xs.map item))
      (arrayText ((',' :: gap).intercalate (xs.map form))) := by
  refine .of_readItems fun rest ↦ ?_
  have htakes : ∀ x ∈ xs, TakesItem (readItems (readValue depth)) ')' (item x) (form x) :=
    fun x hx ↦ (h x hx).takesItem
  have hlength := Json.length_le_length_intercalate (fun x hx ↦ (htakes x hx).ne_nil) (',' :: gap)
  rcases eq_or_ne xs [] with rfl | hne
  · rfl
  · refine Json.loop_intercalate htakes (readItems_append hgap) hne isGap_nil ?_ rest
    rw [List.length_append]
    omega

/-- **An array with a line for each item is read back**: a comma after each. -/
theorem spelled_block (h : ∀ x ∈ xs, SpelledItem depth (item x) (form x)) (hgap : IsGap gap)
    (htrail : IsGap trail) :
    Spelled (depth + 1) (.array (xs.map item))
      (arrayText (xs.flatMap (fun x ↦ gap ++ (form x ++ [','])) ++ trail)) := by
  refine .of_readItems fun rest ↦ ?_
  have hlength : xs.length ≤ (xs.flatMap fun x ↦ gap ++ (form x ++ [','])).length := by
    induction xs with
    | nil => exact Nat.le_refl 0
    | cons x xs ih =>
      have hrest := ih (List.forall_mem_cons.1 h).2
      simp only [List.flatMap_cons, List.length_append, List.length_cons]
      omega
  have hclose : ∀ bound, readItems (readValue depth) (bound + 1) (trail ++ ')' :: rest) =
      some ([], rest) := by
    intro bound
    rw [readItems_append htrail]
    rfl
  rw [List.append_assoc]
  refine Json.loop_terminated (fun x hx ↦ (h x hx).takesItem) (readItems_append hgap) hclose ?_
  simp only [List.length_append, List.length_cons]
  omega

end Items

/-! ### Files -/

/-- **A file that returns a value is read as the value**, if the text of the value is not shorter
than the value is deep. -/
theorem read?_of_spelled {text : List Char} {deep : Nat} (hdeep : deep ≤ text.length)
    (h : ∀ depth, Spelled (depth + deep) v text) :
    read? (String.ofList ("<?php\nreturn ".toList ++ (text ++ ";\n".toList))) = some v := by
  obtain ⟨depth, hdepth⟩ : ∃ depth, (String.ofList
      ("<?php\nreturn ".toList ++ (text ++ ";\n".toList))).length = depth + deep := by
    rw [String.length_ofList, List.length_append, List.length_append]
    exact ⟨_, (Nat.sub_add_cancel (by omega)).symm⟩
  obtain ⟨c, cs, hcs, hspace, -⟩ := (h depth).starts
  have hskip : skipSpace (text ++ ";\n".toList) = text ++ ";\n".toList := by
    rw [hcs, List.cons_append, skipSpace_cons hspace]
  have hopen : readWord "<?php" ("<?php\nreturn ".toList ++ (text ++ ";\n".toList)) =
      some ("return ".toList ++ (text ++ ";\n".toList)) := rfl
  have hreturn : readWord "return" ("return ".toList ++ (text ++ ";\n".toList)) =
      some (text ++ ";\n".toList) := by
    show some (skipSpace (text ++ ";\n".toList)) = some (text ++ ";\n".toList)
    rw [hskip]
  have hvalue := (h depth).reads ";\n".toList (ends_cons _ (by decide))
  have hsemicolon : skipSpace ";\n".toList = ';' :: "\n".toList := rfl
  have hnewline : skipSpace "\n".toList = [] := rfl
  rw [read?, String.toList_ofList, hopen, hdepth]
  simp only [Option.bind_eq_bind, Option.bind_some, hreturn, hvalue, hsemicolon, hnewline,
    List.isEmpty_nil, if_true]

end PluralForms.Php
