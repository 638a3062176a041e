import PluralForms.Document
import PluralForms.Proofs.Html.Pieces
import PluralForms.Proofs.Locale.Accounting
import PluralForms.Proofs.RuleSet.Invariant
import PluralForms.Proofs.Table.Lookup
import PluralForms.Proofs.Traversal

/-!
# HTML documents

The tags of an HTML document are given by the shape of the definitions alone: how many there are,
how many categories each has, and which of these have an example (`tags_html`). No text can add a
tag or hide one. Cut at its tags, the document tells everything that it shows (`readRows?_html`).

It does not show an example of a category that is not listed. A definition without such examples is
told in full (`map_entry_rowsOf`), and so are all that come out of a conversion
(`listsExamples_of_run`).
-/

namespace PluralForms

open Document (htmlEscape)

namespace Html

/-! ### Rows -/

/-- What the document shows of a definition. -/
structure Row where
  id : String
  name : String
  plurals : Nat
  formula : String
  /-- The categories, each with its example. -/
  cases : List (Category × Option String)

/-- The row of a definition. -/
def Row.ofEntry (id : String) (entry : LanguageEntry) : Row where
  id := id
  name := entry.name
  plurals := entry.plurals
  formula := entry.formula
  cases := entry.cases.map fun c ↦ (c, entry.examples.get? c)

/-- The rows of the definitions of all locales. -/
def rowsOf (languages : Table String LanguageEntry) : List Row :=
  languages.entries.map fun e ↦ .ofEntry e.1 e.2

/-- The tag that opens the list of categories. -/
def listTag : String := "ol class=\"cases\" start=\"0\""

/-! ### Reading -/

/-- A category with its example, read from an item of the list. -/
def readCase? (pieces : List Piece) : Option (Category × Option String) := do
  let category ← Category.ofText? (← (contents "span" pieces).head?)
  return (category, (contents "code" pieces).head?)

/-- A number in decimal digits. -/
def readCount? (text : String) : Option Nat :=
  if text.toList.all Char.isDigit then some (Nat.ofDigitChars 10 text.toList 0) else none

/-- What a row shows. -/
def readRow? (pieces : List Piece) : Option Row := do
  let [id, name, plurals, formula, _] := contents "td" pieces | none
  let plurals ← readCount? plurals
  let cases ← (sections (·.tag == "li") (inside listTag "/ol" pieces)).mapM readCase?
  return { id, name, plurals, formula, cases }

/-- The body of the table, which starts at the last tag of its kind. -/
def tableBody (pieces : List Piece) : List Piece :=
  ((sections (·.tag == "tbody") pieces).getLast?.getD []).takeWhile (·.tag != "/tbody")

/-- The rows of the table. -/
def readRows? (page : String) : Option (List Row) :=
  (sections (·.tag == "tr") (tableBody (cut page.toList))).mapM readRow?

/-! ### Tags -/

/-- The tags of a page. -/
def tags (page : String) : List String :=
  (cut page.toList).map (·.tag)

/-- The tags of an item of the list. -/
def caseTags (hasExample : Bool) : List String :=
  ["li", "span", "/span"] ++ (if hasExample then ["code", "/code"] else []) ++ ["/li"]

/-- The tags of a row. -/
def rowTags (shape : List Bool) : List String :=
  ["tr", "td", "/td", "td", "/td", "td", "/td", "td", "/td", "td", listTag]
    ++ shape.flatMap caseTags ++ ["/ol", "/td", "/tr"]

/-- The tags of a document. -/
def pageTags (shape : List (List Bool)) : List String :=
  tags Document.htmlHead ++ shape.flatMap rowTags ++ tags Document.htmlTail

/-! ### The pieces of a row -/

/-- A cell with a text in it. -/
def cellPieces (text : String) : List Piece :=
  [⟨"td", text⟩, ⟨"/td", ""⟩]

/-- An item of the list, from behind its tag. -/
def casePieces (shown : Category × Option String) : List Piece :=
  [⟨"span", htmlEscape shown.1.text⟩, ⟨"/span", ""⟩]
    ++ (shown.2.toList.flatMap fun text ↦ [⟨"code", htmlEscape text⟩, ⟨"/code", ""⟩])
    ++ [⟨"/li", ""⟩]

/-- The items of the list. -/
def listPieces (cases : List (Category × Option String)) : List Piece :=
  cases.flatMap fun shown ↦ ⟨"li", ""⟩ :: casePieces shown

/-- The cells before the list. -/
def textPieces (row : Row) : List Piece :=
  cellPieces (htmlEscape row.id) ++ cellPieces (htmlEscape row.name)
    ++ cellPieces (toString row.plurals) ++ cellPieces (htmlEscape row.formula) ++ [⟨"td", ""⟩]

/-- A row, from behind its tag. -/
def rowPieces (row : Row) : List Piece :=
  textPieces row ++ ⟨listTag, ""⟩ ::
    (listPieces row.cases ++ [⟨"/ol", ""⟩, ⟨"/td", ""⟩, ⟨"/tr", "\n"⟩])

/-! ### What tags there are -/

/-- The tags of a case depend only on whether it has an example. -/
theorem tags_casePieces (shown : Category × Option String) :
    "li" :: (casePieces shown).map (·.tag) = caseTags shown.2.isSome := by
  obtain ⟨c, _ | text⟩ := shown <;> rfl

/-- The tags of a list of cases depend only on which of them have examples. -/
theorem tags_listPieces (cases : List (Category × Option String)) :
    (listPieces cases).map (·.tag) = (cases.map (·.2.isSome)).flatMap caseTags := by
  rw [listPieces, List.map_flatMap, List.flatMap_map]
  exact List.flatMap_congr fun shown _ ↦ tags_casePieces shown

/-- The tags of a row depend only on which of its cases have examples. -/
theorem tags_rowPieces (row : Row) :
    "tr" :: (rowPieces row).map (·.tag) = rowTags (row.cases.map (·.2.isSome)) := by
  simp [rowPieces, textPieces, cellPieces, rowTags, tags_listPieces]

theorem tag_mem_casePieces {shown : Category × Option String} {piece : Piece}
    (h : piece ∈ casePieces shown) : piece.tag ∈ ["span", "/span", "code", "/code", "/li"] := by
  have htags : (casePieces shown).map (·.tag) = (caseTags shown.2.isSome).tail := by
    rw [← tags_casePieces, List.tail_cons]
  have hall : ∀ hasExample, ∀ tag ∈ (caseTags hasExample).tail,
      tag ∈ ["span", "/span", "code", "/code", "/li"] := by decide
  exact hall _ _ (htags ▸ List.mem_map_of_mem h)

/-- The tags of a list of cases, none of which is one of a row or of a cell. -/
theorem tag_mem_listPieces {cases : List (Category × Option String)} {piece : Piece}
    (h : piece ∈ listPieces cases) :
    piece.tag ∈ ["li", "span", "/span", "code", "/code", "/li"] := by
  obtain ⟨shown, -, hpiece⟩ := List.mem_flatMap.1 h
  rcases List.mem_cons.1 hpiece with rfl | hcase
  · exact List.mem_cons_self
  · exact List.mem_cons_of_mem _ (tag_mem_casePieces hcase)

theorem tag_mem_textPieces {row : Row} {piece : Piece} (h : piece ∈ textPieces row) :
    piece.tag ∈ ["td", "/td"] := by
  have htags : (textPieces row).map (·.tag) =
      ["td", "/td", "td", "/td", "td", "/td", "td", "/td", "td"] := rfl
  have hall : ∀ tag ∈ ["td", "/td", "td", "/td", "td", "/td", "td", "/td", "td"],
      tag ∈ ["td", "/td"] := by decide
  exact hall _ (htags ▸ List.mem_map_of_mem h)

/-- The tags in a row. -/
def rowTagNames : List String :=
  ["td", "/td", listTag, "li", "span", "/span", "code", "/code", "/li", "/ol", "/tr"]

/-- The tags of a row, none of which begins another row. -/
theorem tag_mem_rowPieces {row : Row} {piece : Piece} (h : piece ∈ rowPieces row) :
    piece.tag ∈ rowTagNames := by
  have htext : ["td", "/td"] ⊆ rowTagNames := by decide
  have hlist : ["li", "span", "/span", "code", "/code", "/li"] ⊆ rowTagNames := by decide
  rw [rowPieces, List.mem_append, List.mem_cons, List.mem_append] at h
  rcases h with h | rfl | h | h
  · exact htext (tag_mem_textPieces h)
  · decide
  · exact hlist (tag_mem_listPieces h)
  · simp only [List.mem_cons, List.not_mem_nil, or_false] at h
    rcases h with rfl | rfl | rfl <;> decide

/-! ### Reading a row back -/

@[simp] theorem contents_append (tag : String) (pieces pieces' : List Piece) :
    contents tag (pieces ++ pieces') = contents tag pieces ++ contents tag pieces' := by
  rw [contents, List.filter_append, List.map_append, contents, contents]

theorem contents_eq_nil {tag : String} {pieces : List Piece} {tags : List String}
    (h : ∀ piece ∈ pieces, piece.tag ∈ tags) (htag : tag ∉ tags) : contents tag pieces = [] := by
  rw [contents, List.map_eq_nil_iff, List.filter_eq_nil_iff]
  intro piece hpiece heq
  exact htag (beq_iff_eq.1 heq ▸ h piece hpiece)

/-- **What is escaped is shown as it was.** -/
@[simp] theorem content_htmlEscape (tag text : String) :
    (⟨tag, htmlEscape text⟩ : Piece).content = text := by
  rw [Piece.content, unescape_htmlEscape, String.ofList_toList]

theorem content_toString (tag : String) (n : Nat) :
    (⟨tag, toString n⟩ : Piece).content = toString n := by
  have hplain : '&' ∉ (toString n).toList := by
    rw [Text.toList_toString]
    exact Text.notMem_toDigits (by decide)
  rw [Piece.content, unescape_eq_self hplain, String.ofList_toList]

theorem contents_cellPieces (text : String) :
    contents "td" (cellPieces text) = [(⟨"td", text⟩ : Piece).content] := rfl

/-- A count is read back from the cell that shows it. -/
theorem readCount?_toString (n : Nat) : readCount? (toString n) = some n := by
  have hdigits : (Nat.toDigits 10 n).all Char.isDigit = true :=
    List.all_eq_true.2 (Text.isDigit_of_mem_toDigits n)
  rw [readCount?, Text.toList_toString, if_pos hdigits, Nat.ofDigitChars_ten_toDigits]

/-- **A case is read back** from its pieces, with its example or without. -/
theorem readCase?_casePieces (shown : Category × Option String) :
    readCase? (casePieces shown) = some shown := by
  obtain ⟨c, _ | text⟩ := shown <;>
    simp [readCase?, casePieces, contents, Category.ofText?_text]

/-- The cells of a row show its id, its name, its number of plurals and its formula; the last has
only the list in it. -/
theorem contents_rowPieces (row : Row) : contents "td" (rowPieces row) =
    [row.id, row.name, toString row.plurals, row.formula, ""] := by
  have hlist : contents "td" (listPieces row.cases) = [] :=
    contents_eq_nil (fun _ h ↦ tag_mem_listPieces h) (by decide)
  have hclose : contents "td" (⟨listTag, ""⟩ ::
      (listPieces row.cases ++ [⟨"/ol", ""⟩, ⟨"/td", ""⟩, ⟨"/tr", "\n"⟩])) = [] := by
    rw [← List.singleton_append, contents_append, contents_append, hlist]
    rfl
  have htext : contents "td" (textPieces row) =
      [row.id, row.name, toString row.plurals, row.formula, ""] := by
    simp only [textPieces, contents_append, contents_cellPieces, content_htmlEscape,
      content_toString]
    rfl
  rw [rowPieces, contents_append, htext, hclose, List.append_nil]

/-- The list of a row is its cases and nothing else. -/
theorem inside_rowPieces (row : Row) :
    inside listTag "/ol" (rowPieces row) = listPieces row.cases := by
  refine inside_append ⟨listTag, ""⟩ ⟨"/ol", ""⟩ (fun piece hpiece ↦ ?_) fun piece hpiece ↦ ?_
  · exact ne_of_mem_of_not_mem (tag_mem_textPieces hpiece) (by decide)
  · exact ne_of_mem_of_not_mem (tag_mem_listPieces hpiece) (by decide)

/-- The items of the list are the cases one by one. -/
theorem sections_listPieces (cases : List (Category × Option String)) :
    sections (·.tag == "li") (listPieces cases) = cases.map casePieces := by
  refine sections_flatMap (fun _ _ ↦ rfl) fun shown _ piece hpiece ↦ beq_eq_false_iff_ne.2 ?_
  exact ne_of_mem_of_not_mem (tag_mem_casePieces hpiece) (by decide)

/-- **A row tells everything that it shows.** -/
theorem readRow?_rowPieces (row : Row) : readRow? (rowPieces row) = some row := by
  have hcases : (sections (·.tag == "li") (inside listTag "/ol" (rowPieces row))).mapM readCase? =
      some row.cases := by
    rw [inside_rowPieces, sections_listPieces,
      mapM_map_eq_some fun shown _ ↦ readCase?_casePieces shown]
  rw [readRow?, contents_rowPieces]
  simp only [readCount?_toString, hcases, Option.bind_eq_bind, Option.bind_some]
  rfl

/-! ### The pieces of a document -/

/-- The rows of the table. -/
def bodyPieces (rows : List Row) : List Piece :=
  rows.flatMap fun row ↦ ⟨"tr", ""⟩ :: rowPieces row

/-- The table body has no tags but those of rows, and so does not end before the last of them. -/
theorem tag_mem_bodyPieces {rows : List Row} {piece : Piece} (h : piece ∈ bodyPieces rows) :
    piece.tag ∈ "tr" :: rowTagNames := by
  obtain ⟨row, -, hpiece⟩ := List.mem_flatMap.1 h
  rcases List.mem_cons.1 hpiece with rfl | hrow
  · exact List.mem_cons_self
  · exact List.mem_cons_of_mem _ (tag_mem_rowPieces hrow)

/-- No text in a case has a `<` in it. -/
theorem opening_notMem_casePieces (shown : Category × Option String) :
    ∀ piece ∈ casePieces shown, '<' ∉ piece.text.toList := by
  obtain ⟨c, _ | text⟩ := shown <;> simp [casePieces, opening_notMem_htmlEscape]

theorem opening_notMem_rowPieces (row : Row) :
    ∀ piece ∈ rowPieces row, '<' ∉ piece.text.toList := by
  have hcases : ∀ piece ∈ listPieces row.cases, '<' ∉ piece.text.toList := by
    intro piece hpiece
    obtain ⟨shown, -, hpiece⟩ := List.mem_flatMap.1 hpiece
    rcases List.mem_cons.1 hpiece with rfl | hcase
    · decide
    · exact opening_notMem_casePieces shown piece hcase
  have hplurals : '<' ∉ Nat.toDigits 10 row.plurals := Text.notMem_toDigits (by decide)
  simp only [rowPieces, textPieces, cellPieces, List.forall_mem_append, List.forall_mem_cons,
    List.not_mem_nil, false_implies, implies_true, and_true]
  simpa [hplurals, opening_notMem_htmlEscape] using hcases

/-- **The pieces of the rows can be told apart**: no text in them adds a tag. -/
theorem clean_bodyPieces (rows : List Row) : ∀ piece ∈ bodyPieces rows, piece.Clean := by
  have htags : ∀ tag ∈ "tr" :: rowTagNames,
      (tag.toList.all fun c ↦ c != '<' && c != '>') = true := by decide
  intro piece hpiece
  refine ⟨htags _ (tag_mem_bodyPieces hpiece), ?_⟩
  obtain ⟨row, -, hpiece⟩ := List.mem_flatMap.1 hpiece
  rcases List.mem_cons.1 hpiece with rfl | hrow
  · exact List.not_mem_nil
  · exact opening_notMem_rowPieces row piece hrow

theorem toList_htmlCase (examples : Table Category String) (c : Category) :
    (Document.htmlCase examples c).toList =
      (⟨"li", ""⟩ :: casePieces (c, examples.get? c)).flatMap fun piece ↦ '<' :: piece.chars := by
  unfold Document.htmlCase
  cases examples.get? c <;> simp [casePieces, Piece.chars]

theorem toList_htmlRow (id : String) (entry : LanguageEntry) :
    (Document.htmlRow id entry).toList =
      (⟨"tr", ""⟩ :: rowPieces (.ofEntry id entry)).flatMap fun piece ↦ '<' :: piece.chars := by
  unfold Document.htmlRow
  simp [rowPieces, textPieces, cellPieces, listPieces, Piece.chars, toList_htmlCase, listTag,
    Row.ofEntry, List.flatMap_map, List.flatMap_assoc]

/-- **A document is its head, the pieces of its rows, and its tail.** -/
theorem toList_html (languages : Table String LanguageEntry) :
    (Document.html languages).toList = Document.htmlHead.toList ++
      (((bodyPieces (rowsOf languages)).flatMap fun piece ↦ '<' :: piece.chars) ++
        Document.htmlTail.toList) := by
  unfold Document.html
  simp [bodyPieces, rowsOf, toList_htmlRow, List.flatMap_map, List.flatMap_assoc]

/-- Cut at its tags, a document is cut into the pieces of its three parts. -/
theorem cut_html (languages : Table String LanguageEntry) :
    cut (Document.html languages).toList = cut Document.htmlHead.toList ++
      (bodyPieces (rowsOf languages) ++ cut Document.htmlTail.toList) := by
  have hfirst : Document.htmlTail.toList.head? = some '<' := by decide +kernel
  have htail : ∀ c ∈ Document.htmlTail.toList.head?, c = '<' :=
    fun c hc ↦ Option.some.inj (hc.symm.trans hfirst)
  have hbody : ∀ c ∈ (((bodyPieces (rowsOf languages)).flatMap fun piece ↦ '<' :: piece.chars) ++
      Document.htmlTail.toList).head?, c = '<' := by
    cases bodyPieces (rowsOf languages) with
    | nil => exact htail
    | cons piece pieces => exact fun c hc ↦ (Option.some.inj hc).symm
  rw [toList_html, cut_append _ hbody, cut_append _ htail, cut_written (clean_bodyPieces _)]

/-! ### Documents -/

/-- How many definitions there are, how many categories each has, and which of these have an
example. -/
def shapeOf (languages : Table String LanguageEntry) : List (List Bool) :=
  languages.entries.map fun e ↦ e.2.cases.map fun c ↦ (e.2.examples.get? c).isSome

/-- **The tags are given by the shape alone.** -/
theorem tags_html (languages : Table String LanguageEntry) :
    tags (Document.html languages) = pageTags (shapeOf languages) := by
  have hbody : (bodyPieces (rowsOf languages)).map (·.tag) =
      (shapeOf languages).flatMap rowTags := by
    rw [bodyPieces, rowsOf, shapeOf, List.flatMap_map, List.map_flatMap, List.flatMap_map]
    refine List.flatMap_congr fun e _ ↦ (tags_rowPieces (.ofEntry e.1 e.2)).trans ?_
    rw [Row.ofEntry, List.map_map]
    rfl
  rw [tags, cut_html, List.map_append, List.map_append, hbody, pageTags, tags, tags,
    List.append_assoc]

/-- The table starts where the head of the document ends. -/
theorem exists_cut_htmlHead :
    ∃ before, cut Document.htmlHead.toList = before ++ [⟨"tbody", "\n"⟩] := by
  have hbody : cut "<tbody>\n".toList = [⟨"tbody", "\n"⟩] := by decide +kernel
  have hfirst : ∀ c ∈ "<tbody>\n".toList.head?, c = '<' :=
    fun c hc ↦ (Option.some.inj hc).symm
  unfold Document.htmlHead
  rw [String.toList_append, cut_append _ hfirst, hbody]
  exact ⟨_, rfl⟩

theorem cut_htmlTail : cut Document.htmlTail.toList =
    [⟨"/tbody", "\n"⟩, ⟨"/table", "\n"⟩, ⟨"/body", "\n"⟩, ⟨"/html", "\n"⟩] := by
  decide +kernel

/-- The rows of the body are those that were written. -/
theorem sections_bodyPieces (rows : List Row) :
    sections (·.tag == "tr") (bodyPieces rows) = rows.map rowPieces := by
  refine sections_flatMap (fun _ _ ↦ rfl) fun row _ piece hpiece ↦ beq_eq_false_iff_ne.2 ?_
  exact ne_of_mem_of_not_mem (tag_mem_rowPieces hpiece) (by decide)

/-- **The table body of a document is its rows**: the head ends where the body begins. -/
theorem tableBody_html (languages : Table String LanguageEntry) :
    tableBody (cut (Document.html languages).toList) = bodyPieces (rowsOf languages) := by
  have hafter : ∀ piece ∈ bodyPieces (rowsOf languages) ++ cut Document.htmlTail.toList,
      (piece.tag == "tbody") = false := by
    rw [cut_htmlTail, List.forall_mem_append]
    refine ⟨fun piece hpiece ↦ beq_eq_false_iff_ne.2 ?_, by decide⟩
    exact ne_of_mem_of_not_mem (tag_mem_bodyPieces hpiece) (by decide)
  have hbefore : ∀ piece ∈ bodyPieces (rowsOf languages), (piece.tag != "/tbody") = true := by
    refine fun piece hpiece ↦ bne_iff_ne.2 ?_
    exact ne_of_mem_of_not_mem (tag_mem_bodyPieces hpiece) (by decide)
  obtain ⟨before, hhead⟩ := exists_cut_htmlHead
  have hlast : (sections (·.tag == "tbody") (cut (Document.html languages).toList)).getLast? =
      some (bodyPieces (rowsOf languages) ++ cut Document.htmlTail.toList) := by
    rw [cut_html, hhead, List.append_assoc, List.singleton_append,
      sections_append_cons _ _ (by decide), List.splitOnP_eq_singleton hafter,
      List.getLast?_append, List.getLast?_singleton]
    rfl
  rw [tableBody, hlast, Option.getD_some, cut_htmlTail, List.takeWhile_append_of_pos hbefore,
    List.takeWhile_cons_of_neg (by decide), List.append_nil]

/-- **Cut at its tags, a document tells everything that it shows.** -/
theorem readRows?_html (languages : Table String LanguageEntry) :
    readRows? (Document.html languages) = some (rowsOf languages) := by
  rw [readRows?, tableBody_html, sections_bodyPieces,
    mapM_map_eq_some fun row _ ↦ readRow?_rowPieces row]

/-! ### What is not shown -/

/-- Examples are for categories that are listed. -/
def ListsExamples (languages : Table String LanguageEntry) : Prop :=
  ∀ e ∈ languages.entries, ∀ c ∈ e.2.examples.keys, c ∈ e.2.cases

/-- The definition of a row, if nothing is left out of it. -/
def Row.entry (row : Row) : String × LanguageEntry where
  fst := row.id
  snd :=
    { name := row.name
      plurals := row.plurals
      formula := row.formula
      cases := row.cases.map (·.1)
      examples := .ofList (row.cases.filterMap fun shown ↦ shown.2.map (shown.1, ·)) }

/-- A definition whose examples all belong to its categories is told in full by its row. -/
theorem entry_ofEntry {id : String} {entry : LanguageEntry}
    (h : ∀ c ∈ entry.examples.keys, c ∈ entry.cases) :
    (Row.ofEntry id entry).entry = (id, entry) := by
  have hexamples : Table.ofList ((entry.cases.map fun c ↦ (c, entry.examples.get? c)).filterMap
      fun shown ↦ shown.2.map (shown.1, ·)) = entry.examples := by
    rw [List.filterMap_map]
    exact Table.ofList_filterMap_get? h
  have hcases : (entry.cases.map fun c ↦ (c, entry.examples.get? c)).map (·.1) = entry.cases := by
    rw [List.map_map]
    exact List.map_id _
  rw [Row.entry, Row.ofEntry]
  simp only [hexamples, hcases]

/-- **A document tells everything**, if it shows all examples. -/
theorem map_entry_rowsOf {languages : Table String LanguageEntry} (h : ListsExamples languages) :
    (rowsOf languages).map Row.entry = languages.entries := by
  rw [rowsOf, List.map_map]
  exact (List.map_congr_left fun e he ↦ entry_ofEntry (h e he)).trans (List.map_id _)

/-- Of such definitions the rows tell which they are. -/
theorem rowsOf_inj {languages languages' : Table String LanguageEntry}
    (h : ListsExamples languages) (h' : ListsExamples languages')
    (heq : rowsOf languages = rowsOf languages') : languages = languages' :=
  Table.ext (by rw [← map_entry_rowsOf h, heq, map_entry_rowsOf h'])

/-- **Conversions list the categories of all examples.** -/
theorem listsExamples_of_run {tables : Tables} {options : ConversionOptions} {c : Conversion}
    (h : Conversion.run tables options = .ok c) : ListsExamples c.languages := by
  obtain ⟨-, -, rfl⟩ := Conversion.run_eq_ok_iff.1 h
  rintro ⟨id, entry⟩ he
  have hrecord := Conversion.mem_of_records (.converted (Table.get?_eq_some_iff.2 he))
  obtain ⟨⟨locale, rules⟩, -, heq⟩ := List.mem_map.1 hrecord
  have hresult := (Prod.mk.inj heq).2
  rw [Conversion.convertLocale_eq, Conversion.outcomeOf_eq_converted_iff] at hresult
  obtain ⟨name, set, -, hset, rfl⟩ := hresult
  obtain ⟨categoryRules, -, hcompile⟩ := bind_eq_ok_iff.1 hset
  exact (RuleSet.Invariant.of_compile hcompile).keys_subset

end Html

/-- **The data cannot break an HTML document**: its tags are given by the shape of the definitions,
and between them it tells everything that it shows. Two tables with the categories of their examples
listed, as in all that is converted, never have one document. -/
theorem render_html_decodes :
    (∀ languages, Html.tags (Document.render .html languages) =
      Html.pageTags (Html.shapeOf languages)) ∧
    (∀ languages, Html.readRows? (Document.render .html languages) =
      some (Html.rowsOf languages)) ∧
    (∀ languages languages', Html.ListsExamples languages → Html.ListsExamples languages' →
      Document.render .html languages = Document.render .html languages' →
      languages = languages') ∧
    ∀ tables options c, Conversion.run tables options = .ok c → Html.ListsExamples c.languages := by
  refine ⟨Html.tags_html, Html.readRows?_html, fun languages languages' h h' heq ↦ ?_,
    fun _ _ _ ↦ Html.listsExamples_of_run⟩
  have hrows : some (Html.rowsOf languages) = some (Html.rowsOf languages') :=
    calc some (Html.rowsOf languages)
      _ = Html.readRows? (Document.html languages) := (Html.readRows?_html languages).symm
      _ = Html.readRows? (Document.html languages') := congrArg Html.readRows? heq
      _ = some (Html.rowsOf languages') := Html.readRows?_html languages'
  exact Html.rowsOf_inj h h' (Option.some.inj hrows)

/-- A definition with markup in its texts. -/
def markedUp (name : String) : Table String LanguageEntry :=
  .ofList [("</td>", ⟨name, 2, "n < 1 && '/'", [.one, .other], .ofList [(.one, "<code>")]⟩)]

/-- A locale with a category that no integer has. -/
def dropping : Tables where
  languages := .ofList [("xx", "Example")]
  territories := ∅
  cardinals := .ofList [("xx", .ofList [("one", "n = 1 @integer 1"), ("other", "@integer 0, 2~16"),
    ("two", "v = 1")])]

/-- A name and the same name escaped make the same tags but not the same document, and the locale
is converted. -/
theorem render_html_decodes_markedUp :
    Html.ListsExamples (markedUp "<b>") ∧ Html.ListsExamples (markedUp "&lt;b&gt;") ∧
    Document.render .html (markedUp "<b>") ≠ Document.render .html (markedUp "&lt;b&gt;") ∧
    Html.tags (Document.render .html (markedUp "<b>")) =
      Html.tags (Document.render .html (markedUp "&lt;b&gt;")) ∧
    ∃ c, Conversion.run dropping ⟨true, []⟩ = .ok c ∧ c.languages.keys = ["xx"] ∧
      Html.ListsExamples c.languages := by
  obtain ⟨htags, -, hinj, hrun⟩ := render_html_decodes
  have hlists : ∀ name, Html.ListsExamples (markedUp name) := by
    intro name e he c hc
    obtain rfl := List.mem_singleton.1 he
    obtain rfl := List.mem_singleton.1 hc
    exact List.mem_cons_self
  refine ⟨hlists _, hlists _, fun heq ↦ ?_, ?_, ?_⟩
  · have hsame := congrArg (fun t ↦ t.entries.map (·.2.name))
      (hinj _ _ (hlists _) (hlists _) heq)
    exact absurd hsame (by decide)
  · rw [htags, htags]
    rfl
  · have hconverted : (Conversion.run dropping ⟨true, []⟩).map (·.languages.keys) =
        .ok ["xx"] := by decide +kernel
    obtain ⟨c, hc, hkeys⟩ := map_eq_ok_iff.1 hconverted
    exact ⟨c, hc, hkeys, hrun _ _ _ hc⟩

end PluralForms
