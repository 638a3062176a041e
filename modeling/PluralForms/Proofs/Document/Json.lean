import PluralForms.Document
import PluralForms.Proofs.Json.RoundTrip
import PluralForms.Proofs.Table.Lookup
import PluralForms.Proofs.Traversal

/-!
# JSON documents

A JSON document tells everything about the definitions it was made of. It is read as JSON, in either
form to the same value, and a definition is taken from that value field by field, by name.

Objects are used in two ways here: as records, whose members are looked up, and as tables, whose
members are all decoded (`Json.table?`). A table comes back whatever order its members are in, which
matters for sample lists: as a JSON object they are ordered by the tags of the categories, not by
the categories.
-/

namespace PluralForms

/-! ### Parts of values -/

namespace Json

/-- The natural number. -/
def nat? : Json → Option Nat
  | .number x => x.toNat?
  | _ => none

/-- The elements of an array, each decoded. -/
def list? {α : Type} (decode : Json → Option α) : Json → Option (List α)
  | .array es => es.mapM decode
  | _ => none

/-- The table of the decoded members of an object. -/
def table? {κ α : Type} [Ord κ] [Std.TransOrd κ] [Std.LawfulEqOrd κ]
    (decode : String × Json → Option (κ × α)) (value : Json) : Option (Table κ α) := do
  let members ← value.members?
  let entries ← members.entries.mapM decode
  return .ofList entries

theorem list?_array {α : Type} {decode : Json → Option α} {encode : α → Json}
    (h : ∀ a, decode (encode a) = some a) (l : List α) :
    (Json.array (l.map encode)).list? decode = some l := by
  rw [list?, mapM_map_eq_some fun a _ ↦ h a]

/-- **A table comes back from its encoded entries**, if the names of their members differ. -/
theorem table?_object {κ α : Type} [Ord κ] [Std.TransOrd κ] [Std.LawfulEqOrd κ]
    {decode : String × Json → Option (κ × α)} {encode : κ × α → String × Json}
    (h : ∀ e, decode (encode e) = some e) (t : Table κ α)
    (hnames : (t.entries.map fun e ↦ (encode e).1).Nodup) :
    (Json.object (t.entries.map encode)).table? decode = some t := by
  have hnodup : ((t.entries.map encode).map (·.1)).Nodup := by rwa [List.map_map]
  have hdecode : List.Forall₂ (fun m e ↦ decode m = some e) (t.entries.map encode) t.entries :=
    List.forall₂_map_left_iff.2 (List.forall₂_same.2 fun e _ ↦ h e)
  obtain ⟨entries, hentries, hperm⟩ :=
    List.perm_comp_forall₂ (Table.entries_ofList_perm hnodup) hdecode
  simp [table?, members?, mapM_eq_some_iff.2 hentries, Table.ofList_eq_of_perm hperm]

/-- The members of a record are found by their names. -/
theorem get?_object {ms : List (String × Json)} (h : (ms.map (·.1)).Nodup) {name : String}
    {value : Json} (hm : (name, value) ∈ ms) : (Json.object ms).get? name = some value := by
  simp [get?, members?, (Table.get?_ofList_eq_some_iff h).2 hm]

end Json

/-! ### Definitions -/

/-- The category that a tag names. -/
def Category.ofJson? (value : Json) : Option Category :=
  value.string?.bind ofText?

/-- A sample list with its category. -/
def exampleOfMember? (m : String × Json) : Option (Category × String) := do
  return (← Category.ofText? m.1, ← m.2.string?)

/-- A definition, field by field. -/
def LanguageEntry.ofJson? (value : Json) : Option LanguageEntry := do
  let name ← (← value.get? "name").string?
  let plurals ← (← value.get? "plurals").nat?
  let formula ← (← value.get? "formula").string?
  let cases ← (← value.get? "cases").list? Category.ofJson?
  let examples ← (← value.get? "examples").table? exampleOfMember?
  return { name, plurals, formula, cases, examples }

/-- Definitions by locale. -/
def languagesOfJson? (value : Json) : Option (Table String LanguageEntry) :=
  value.table? fun m ↦ (LanguageEntry.ofJson? m.2).map (m.1, ·)

theorem list?_categoriesJson (cs : List Category) :
    (categoriesJson cs).list? Category.ofJson? = some cs :=
  Json.list?_array (fun c ↦ Category.ofText?_text c) cs

theorem table?_examplesJson (examples : Table Category String) :
    (examplesJson examples).table? exampleOfMember? = some examples := by
  refine Json.table?_object (fun e ↦ ?_) examples ?_
  · simp [exampleOfMember?, Category.ofText?_text, Json.string?]
  · have hkeys : (examples.keys.map Category.text).Nodup :=
      examples.nodup_keys.map fun c c' hcc' ↦ Option.some.inj
        ((Category.ofText?_text c).symm.trans (hcc' ▸ Category.ofText?_text c'))
    rwa [Table.keys, List.map_map] at hkeys

/-- The fields of a definition, as they are written. -/
def LanguageEntry.fields (entry : LanguageEntry) : List (String × Json) :=
  [("name", .string entry.name), ("plurals", .nat entry.plurals),
    ("formula", .string entry.formula), ("cases", categoriesJson entry.cases),
    ("examples", examplesJson entry.examples)]

/-- The fields of a definition are found under their names. -/
theorem LanguageEntry.get?_toJson {entry : LanguageEntry} {name : String} {value : Json}
    (h : (name, value) ∈ entry.fields) : entry.toJson.get? name = some value := by
  have hnodup : (entry.fields.map (·.1)).Nodup := by simp [fields]
  exact Json.get?_object hnodup h

/-- **A definition comes back from its JSON value.** -/
theorem LanguageEntry.ofJson?_toJson (entry : LanguageEntry) :
    ofJson? entry.toJson = some entry := by
  have hname : entry.toJson.get? "name" = some (.string entry.name) :=
    get?_toJson (by simp [fields])
  have hplurals : entry.toJson.get? "plurals" = some (.nat entry.plurals) :=
    get?_toJson (by simp [fields])
  have hformula : entry.toJson.get? "formula" = some (.string entry.formula) :=
    get?_toJson (by simp [fields])
  have hcases : entry.toJson.get? "cases" = some (categoriesJson entry.cases) :=
    get?_toJson (by simp [fields])
  have hexamples : entry.toJson.get? "examples" = some (examplesJson entry.examples) :=
    get?_toJson (by simp [fields])
  have hnat : (Json.nat entry.plurals).nat? = some entry.plurals := rfl
  simp [ofJson?, hname, hplurals, hformula, hcases, hexamples, Json.string?, hnat,
    list?_categoriesJson, table?_examplesJson]

/-- **The value of a table of definitions is read back as the table.** -/
theorem languagesOfJson?_languagesJson (languages : Table String LanguageEntry) :
    languagesOfJson? (languagesJson languages) = some languages :=
  Json.table?_object (fun e ↦ by simp [LanguageEntry.ofJson?_toJson]) languages
    languages.nodup_keys

/-! ### Documents -/

/-- A definition is nested two deep, and its number of plurals has room in a numeral. -/
theorem readable_toJson {entry : LanguageEntry} (h : entry.plurals < Text.numeralBound)
    (depth : Nat) : Json.Readable (depth + 2) entry.toJson := by
  have hcases : Json.Readable (depth + 1) (categoriesJson entry.cases) :=
    .array (List.forall_mem_map.2 fun c _ ↦ .string c.text)
  have hexamples : Json.Readable (depth + 1) (examplesJson entry.examples) :=
    .object (List.forall_mem_map.2 fun e _ ↦ .string e.2)
  refine .object ?_
  simp only [List.forall_mem_cons, List.not_mem_nil, false_implies, implies_true, and_true]
  exact ⟨.string _, .number (Json.inRange_ofNat h), .string _, hcases, hexamples⟩

/-- **Both JSON documents decode to what was rendered**, by way of one value. Counts are machine
words; the reader takes larger ones too, but not if they are beyond the range of a double. -/
theorem render_json_decodes (languages : Table String LanguageEntry)
    (h : ∀ e ∈ languages.entries, e.2.plurals < Text.numeralBound) :
    ∃ value, Json.read? (Document.render .json languages) = some value ∧
      Json.read? (Document.render .prettyJson languages) = some value ∧
      languagesOfJson? value = some languages := by
  have hreadable : Json.Readable Json.maxDepth (languagesJson languages) :=
    .object (List.forall_mem_map.2 fun e he ↦ readable_toJson (h e he) 124)
  refine ⟨languagesJson languages, ?_, ?_, languagesOfJson?_languagesJson languages⟩
  · have hcompact := Json.read?_of_spelled (Json.spelled_compact hreadable) Json.isGap_nil
    rwa [List.append_nil, String.ofList_toList] at hcompact
  · have hnewline : Json.IsGap "\n".toList := Json.isGap_lineBreak 0
    have hpretty := Json.read?_of_spelled (Json.spelled_prettyAt hreadable 0) hnewline
    rwa [← String.toList_append, String.ofList_toList] at hpretty

/-- Definitions with all kinds of characters in them, the last with nothing at all. -/
def awkward : List (String × LanguageEntry) :=
  [("\"pt\\", ⟨"Português\n\x01</td>", 2, "n != 1", [.one, .other],
      .ofList [(.one, "1"), (.other, "0,\t2~16, …")]⟩),
   ("zz", ⟨"", 0, "", [], ∅⟩)]

theorem entries_awkward : (Table.ofList awkward).entries = awkward := by
  have hordered : awkward.Pairwise fun a b ↦ compare a.1 b.1 = .lt := by decide +kernel
  exact Table.entries_ofList hordered

/-- The counts of these definitions are small enough, and their documents decode. -/
theorem render_json_decodes_awkward :
    (∀ e ∈ (Table.ofList awkward).entries, e.2.plurals < Text.numeralBound) ∧
    ∃ value, Json.read? (Document.render .json (.ofList awkward)) = some value ∧
      Json.read? (Document.render .prettyJson (.ofList awkward)) = some value ∧
      languagesOfJson? value = some (.ofList awkward) := by
  have hplurals : ∀ e ∈ (Table.ofList awkward).entries, e.2.plurals < Text.numeralBound := by
    rw [entries_awkward]
    decide
  exact ⟨hplurals, render_json_decodes (.ofList awkward) hplurals⟩

end PluralForms
