import PluralForms.Document
import PluralForms.Proofs.Php.Literals
import PluralForms.Proofs.Table.Lookup
import PluralForms.Proofs.Traversal

/-!
# PHP documents

A PHP document tells everything about the definitions it was made of, and no text in it can be taken
for anything else: the file returns an array with the locales in order (`languagesPhp`), and the
definitions are taken from that array field by field. So no two tables have one document.
-/

namespace PluralForms

/-! ### Parts of values -/

namespace Php.Value

/-- The text. -/
def text? : Value → Option String
  | .text s => some s
  | _ => none

/-- The number. -/
def number? : Value → Option Nat
  | .number n => some n
  | _ => none

/-- The values of an array without keys, each decoded. -/
def list? {α : Type} (decode : Value → Option α) : Value → Option (List α)
  | .array items => items.mapM fun
    | (none, value) => decode value
    | (some _, _) => none
  | _ => none

/-- An item whose key is a text. -/
def member? : Option Value × Value → Option (String × Value)
  | (some (.text key), value) => some (key, value)
  | _ => none

/-- The items of an array whose keys are texts, in order. -/
def members? : Value → Option (List (String × Value))
  | .array items => items.mapM member?
  | _ => none

/-- The value under a key. The last item with a key counts. -/
def get? (value : Value) (key : String) : Option Value := do
  (Table.ofList (← value.members?)).get? key

/-- The table of the decoded members. -/
def table? {κ α : Type} [Ord κ] [Std.TransOrd κ] [Std.LawfulEqOrd κ]
    (decode : String × Value → Option (κ × α)) (value : Value) : Option (Table κ α) := do
  let members ← value.members?
  let entries ← members.mapM decode
  return .ofList entries

/-- The array with these members. -/
def ofMembers (members : List (String × Value)) : Value :=
  .array (members.map fun m ↦ (some (.text m.1), m.2))

theorem members?_ofMembers (members : List (String × Value)) :
    (ofMembers members).members? = some members :=
  mapM_map_eq_some fun _ _ ↦ rfl

/-- What is written under a key is found under it, if no key is written twice. -/
theorem get?_ofMembers {members : List (String × Value)} (h : (members.map (·.1)).Nodup)
    {key : String} {value : Value} (hm : (key, value) ∈ members) :
    (ofMembers members).get? key = some value := by
  simp [get?, members?_ofMembers, (Table.get?_ofList_eq_some_iff h).2 hm]

/-- A table is read back entry by entry. -/
theorem table?_ofMembers {κ α : Type} [Ord κ] [Std.TransOrd κ] [Std.LawfulEqOrd κ]
    {decode : String × Value → Option (κ × α)} {encode : κ × α → String × Value}
    (h : ∀ e, decode (encode e) = some e) (t : Table κ α) :
    (ofMembers (t.entries.map encode)).table? decode = some t := by
  simp [table?, members?_ofMembers, mapM_map_eq_some fun e _ ↦ h e,
    Table.ofList_eq_of_perm (List.Perm.refl t.entries)]

end Php.Value

/-! ### Definitions -/

/-- Categories as an array, in order. -/
def categoriesPhp (cs : List Category) : Php.Value :=
  .array (cs.map fun c ↦ (none, .text c.text))

/-- Sample lists as an array, by category. -/
def examplesPhp (examples : Table Category String) : Php.Value :=
  .ofMembers (examples.entries.map fun e ↦ (e.1.text, .text e.2))

/-- The fields of a definition, as they are written. -/
def LanguageEntry.phpFields (entry : LanguageEntry) : List (String × Php.Value) :=
  [("name", .text entry.name), ("plurals", .number entry.plurals), ("formula", .text entry.formula),
    ("cases", categoriesPhp entry.cases), ("examples", examplesPhp entry.examples)]

/-- Definitions as an array, by locale. -/
def languagesPhp (languages : Table String LanguageEntry) : Php.Value :=
  .ofMembers (languages.entries.map fun e ↦ (e.1, .ofMembers e.2.phpFields))

/-- The category that a tag names. -/
def Category.ofPhp? (value : Php.Value) : Option Category :=
  value.text?.bind ofText?

/-- A sample list with its category. -/
def exampleOfPhp? (m : String × Php.Value) : Option (Category × String) := do
  return (← Category.ofText? m.1, ← m.2.text?)

/-- A definition, field by field. -/
def LanguageEntry.ofPhp? (value : Php.Value) : Option LanguageEntry := do
  let name ← (← value.get? "name").text?
  let plurals ← (← value.get? "plurals").number?
  let formula ← (← value.get? "formula").text?
  let cases ← (← value.get? "cases").list? Category.ofPhp?
  let examples ← (← value.get? "examples").table? exampleOfPhp?
  return { name, plurals, formula, cases, examples }

/-- Definitions by locale. -/
def languagesOfPhp? (value : Php.Value) : Option (Table String LanguageEntry) :=
  value.table? fun m ↦ (LanguageEntry.ofPhp? m.2).map (m.1, ·)

theorem list?_categoriesPhp (cs : List Category) :
    (categoriesPhp cs).list? Category.ofPhp? = some cs :=
  mapM_map_eq_some fun c _ ↦ Category.ofText?_text c

theorem table?_examplesPhp (examples : Table Category String) :
    (examplesPhp examples).table? exampleOfPhp? = some examples :=
  Php.Value.table?_ofMembers
    (fun e ↦ by simp [exampleOfPhp?, Category.ofText?_text, Php.Value.text?]) examples

/-- The fields of a definition are found under their keys. -/
theorem LanguageEntry.get?_phpFields {entry : LanguageEntry} {key : String} {value : Php.Value}
    (h : (key, value) ∈ entry.phpFields) :
    (Php.Value.ofMembers entry.phpFields).get? key = some value := by
  have hnodup : (entry.phpFields.map (·.1)).Nodup := by simp [phpFields]
  exact Php.Value.get?_ofMembers hnodup h

/-- **A definition comes back from its array.** -/
theorem LanguageEntry.ofPhp?_phpFields (entry : LanguageEntry) :
    ofPhp? (.ofMembers entry.phpFields) = some entry := by
  have hname : (Php.Value.ofMembers entry.phpFields).get? "name" = some (.text entry.name) :=
    get?_phpFields (by simp [phpFields])
  have hplurals : (Php.Value.ofMembers entry.phpFields).get? "plurals" =
      some (.number entry.plurals) :=
    get?_phpFields (by simp [phpFields])
  have hformula : (Php.Value.ofMembers entry.phpFields).get? "formula" =
      some (.text entry.formula) :=
    get?_phpFields (by simp [phpFields])
  have hcases : (Php.Value.ofMembers entry.phpFields).get? "cases" =
      some (categoriesPhp entry.cases) :=
    get?_phpFields (by simp [phpFields])
  have hexamples : (Php.Value.ofMembers entry.phpFields).get? "examples" =
      some (examplesPhp entry.examples) :=
    get?_phpFields (by simp [phpFields])
  simp [ofPhp?, hname, hplurals, hformula, hcases, hexamples, Php.Value.text?, Php.Value.number?,
    list?_categoriesPhp, table?_examplesPhp]

/-- **The value of a table of definitions is read back as the table.** -/
theorem languagesOfPhp?_languagesPhp (languages : Table String LanguageEntry) :
    languagesOfPhp? (languagesPhp languages) = some languages :=
  Php.Value.table?_ofMembers (fun e ↦ by simp [LanguageEntry.ofPhp?_phpFields]) languages

/-! ### Documents -/

namespace Document

open Php (Spelled arrayText keyed)
open Json (IsGap)

variable {depth : Nat}

/-- A line break, with spaces in front of the next line. -/
def indent (n : Nat) : List Char :=
  '\n' :: List.replicate n ' '

theorem isGap_indent (n : Nat) : IsGap (indent n) :=
  Json.isGap_lineBreak n

/-- Categories on one line. -/
def phpCases (cs : List Category) : List Char :=
  arrayText ([',', ' '].intercalate (cs.map fun c ↦ (phpQuote c.text).toList))

theorem spelled_phpCases (cs : List Category) :
    Spelled (depth + 1) (categoriesPhp cs) (phpCases cs) :=
  Php.spelled_row (fun c _ ↦ (Php.spelled_text c.text).item) Json.isGap_space

/-- Sample lists, one in a line. -/
def phpExamples (examples : Table Category String) : List Char :=
  arrayText ((examples.entries.flatMap fun e ↦
    indent 12 ++ (keyed e.1.text (phpQuote e.2).toList ++ [','])) ++
      indent 8)

/-- The examples are spelled as an array with keys, which may be empty. -/
theorem spelled_phpExamples (examples : Table Category String) :
    Spelled (depth + 1) (examplesPhp examples) (phpExamples examples) := by
  rw [examplesPhp, Php.Value.ofMembers, List.map_map]
  exact Php.spelled_block (fun e _ ↦ (Php.spelled_text e.2).keyed e.1.text)
    (isGap_indent _) (isGap_indent _)

/-- The fields of a definition with their texts. -/
def phpLines (entry : LanguageEntry) : List (String × Php.Value × List Char) :=
  [("name", .text entry.name, (phpQuote entry.name).toList),
    ("plurals", .number entry.plurals, (toString entry.plurals).toList),
    ("formula", .text entry.formula, (phpQuote entry.formula).toList),
    ("cases", categoriesPhp entry.cases, phpCases entry.cases),
    ("examples", examplesPhp entry.examples, phpExamples entry.examples)]

/-- A definition, one field in a line. -/
def phpDefinition (entry : LanguageEntry) : List Char :=
  arrayText (((phpLines entry).flatMap fun f ↦
    indent 8 ++ (keyed f.1 f.2.2 ++ [','])) ++ indent 4)

/-- A definition is spelled as an array of its five fields. -/
theorem spelled_phpDefinition (entry : LanguageEntry) :
    Spelled (depth + 2) (.ofMembers entry.phpFields) (phpDefinition entry) := by
  have hlines : ∀ f ∈ phpLines entry, Spelled (depth + 1) f.2.1 f.2.2 := by
    simp only [phpLines, List.forall_mem_cons, List.not_mem_nil, false_implies, implies_true,
      and_true]
    exact ⟨Php.spelled_text _, Php.spelled_number _, Php.spelled_text _, spelled_phpCases _,
      spelled_phpExamples _⟩
  have hfields : (entry.phpFields.map fun m ↦ (some (Php.Value.text m.1), m.2)) =
      (phpLines entry).map fun f ↦ (some (.text f.1), f.2.1) := rfl
  rw [Php.Value.ofMembers, hfields]
  exact Php.spelled_block (fun f hf ↦ (hlines f hf).keyed f.1) (isGap_indent _) (isGap_indent _)

/-- Definitions, one after the other. -/
def phpDefinitions (languages : Table String LanguageEntry) : List Char :=
  arrayText ((languages.entries.flatMap fun e ↦
    indent 4 ++ (keyed e.1 (phpDefinition e.2) ++ [','])) ++ indent 0)

/-- **All definitions together are spelled as one array**, with their ids as keys. -/
theorem spelled_phpDefinitions (languages : Table String LanguageEntry) :
    Spelled (depth + 3) (languagesPhp languages) (phpDefinitions languages) := by
  rw [languagesPhp, Php.Value.ofMembers, List.map_map]
  exact Php.spelled_block (fun e _ ↦ (spelled_phpDefinition e.2).keyed e.1)
    (isGap_indent _) (isGap_indent _)

theorem toList_phpEntry (id : String) (entry : LanguageEntry) : (phpEntry id entry).toList =
    indent 4 ++ (keyed id (phpDefinition entry) ++ [',']) := by
  have hkeys : phpQuote "name" = "'name'" ∧ phpQuote "plurals" = "'plurals'" ∧
      phpQuote "formula" = "'formula'" ∧ phpQuote "cases" = "'cases'" ∧
      phpQuote "examples" = "'examples'" := by decide
  obtain ⟨hname, hplurals, hformula, hcases, hexamples⟩ := hkeys
  unfold phpEntry
  simp [phpExample, phpDefinition, phpLines, phpCases, phpExamples, keyed, arrayText,
    indent, List.replicate, hname, hplurals, hformula, hcases, hexamples, List.flatMap_map,
    Function.comp_def]

theorem php_eq (languages : Table String LanguageEntry) : php languages =
    String.ofList ("<?php\nreturn ".toList ++ (phpDefinitions languages ++ ";\n".toList)) := by
  rw [← String.toList_inj]
  unfold php
  simp [phpDefinitions, toList_phpEntry, arrayText, indent, List.flatMap_map]

/-- **The file returns the definitions.** -/
theorem read?_php (languages : Table String LanguageEntry) :
    Php.read? (php languages) = some (languagesPhp languages) := by
  have hdeep : 3 ≤ (phpDefinitions languages).length := by
    simp [phpDefinitions, arrayText]
  rw [php_eq]
  exact Php.read?_of_spelled hdeep fun _ ↦ spelled_phpDefinitions languages

/-- A backslash is put in front of each occurrence of the character. -/
def escapeEach (special : Char) (cs : List Char) : List Char :=
  cs.flatMap fun c ↦ if c = special then ['\\', c] else [c]

/-- The literal of a text comes of escaping backslashes first and quotes after that. -/
theorem phpQuote_eq (s : String) : phpQuote s =
    "'" ++ String.ofList (escapeEach '\'' (escapeEach '\\' s.toList)) ++ "'" := by
  have hpasses : s.toList.flatMap phpEscape = escapeEach '\'' (escapeEach '\\' s.toList) := by
    rw [escapeEach, escapeEach, List.flatMap_assoc]
    refine List.flatMap_congr fun c _ ↦ ?_
    rw [phpEscape]
    split_ifs with hbackslash hquote
    · simp [hbackslash]
    · simp [hquote]
    · simp [hquote]
  rw [phpQuote, hpasses]

end Document

/-- **No text can be taken for anything else in a PHP document**: a literal is read as its text and
no further, the file returns the definitions in order, and no two tables have one document. -/
theorem render_php_decodes :
    (∀ s, Document.phpQuote s = "'" ++ String.ofList
        (Document.escapeEach '\'' (Document.escapeEach '\\' s.toList)) ++ "'" ∧
      ∀ rest, Php.readQuoted ((Document.phpQuote s).toList ++ rest) = some (s, rest)) ∧
    (∀ languages, Php.read? (Document.render .php languages) = some (languagesPhp languages) ∧
      languagesOfPhp? (languagesPhp languages) = some languages) ∧
    Function.Injective (Document.render .php) := by
  refine ⟨fun s ↦ ⟨Document.phpQuote_eq s, Php.readQuoted_phpQuote s⟩, fun languages ↦
    ⟨Document.read?_php languages, languagesOfPhp?_languagesPhp languages⟩,
    fun languages languages' h ↦ ?_⟩
  have hvalue : some (languagesPhp languages) = some (languagesPhp languages') :=
    calc some (languagesPhp languages)
      _ = Php.read? (Document.php languages) := (Document.read?_php languages).symm
      _ = Php.read? (Document.php languages') := congrArg Php.read? h
      _ = some (languagesPhp languages') := Document.read?_php languages'
  have hdecoded := congrArg languagesOfPhp? (Option.some.inj hvalue)
  rw [languagesOfPhp?_languagesPhp, languagesOfPhp?_languagesPhp] at hdecoded
  exact Option.some.inj hdecoded

end PluralForms
