import PluralForms.Json.Basic
import PluralForms.Proofs.Table.Lookup

/-!
# Fields of JSON documents

A list of fields leads from a document to a value inside it, or nowhere. Where it leads nowhere, it
has a shortest beginning that does (`FirstMissing`). A value can be put at the end of any fields
(`follow?_nest`), and a table can be made the members of an object (`exists_members_ofTable`).
-/

namespace PluralForms

namespace Json

variable {document value : Json} {field : String} {fields missing : List String}

/-! ### Kinds of values -/

/-- The value is a string. -/
def IsString (value : Json) : Prop :=
  ∃ text, value = .string text

theorem string?_eq_some_iff {text : String} : value.string? = some text ↔ value = .string text := by
  cases value <;> simp [string?]

/-- A value without a string is of another kind. -/
theorem string?_eq_none_iff : value.string? = none ↔ ¬value.IsString := by
  rw [Option.eq_none_iff_forall_ne_some, IsString, not_exists]
  simp only [ne_eq, string?_eq_some_iff]

/-- All values of the table are strings. -/
def AllStrings (members : Table String Json) : Prop :=
  ∀ key value, members.get? key = some value → value.IsString

/-- The value is an object of strings. -/
def IsTextObject (value : Json) : Prop :=
  ∃ members, value.members? = some members ∧ AllStrings members

/-! ### Following fields -/

/-- What the fields lead to. -/
def follow? (document : Json) (fields : List String) : Option Json :=
  fields.foldlM get? document

@[simp] theorem follow?_nil (document : Json) : document.follow? [] = some document := rfl

@[simp] theorem follow?_cons (document : Json) (field : String) (fields : List String) :
    document.follow? (field :: fields) = (document.get? field).bind (·.follow? fields) := by
  rw [follow?, List.foldlM_cons]
  rfl

/-- The shortest beginning of the fields that leads nowhere. -/
structure FirstMissing (document : Json) (fields missing : List String) : Prop where
  isPrefix : missing <+: fields
  absent : document.follow? missing = none
  shortest : ∀ shorter, shorter <+: fields → document.follow? shorter = none →
    missing.length ≤ shorter.length

/-- What is missing has a name: the document itself is never missing. -/
theorem FirstMissing.ne_nil (h : document.FirstMissing fields missing) : missing ≠ [] := by
  rintro rfl
  exact absurd h.absent (by simp)

/-- The first field leads nowhere, or what it leads to has something missing. -/
theorem firstMissing_cons_iff :
    document.FirstMissing (field :: fields) missing ↔
      (document.get? field = none ∧ missing = [field]) ∨
      ∃ value missing', document.get? field = some value ∧ value.FirstMissing fields missing' ∧
        missing = field :: missing' := by
  constructor
  · intro h
    obtain ⟨field', missing', rfl⟩ := List.exists_cons_of_ne_nil h.ne_nil
    obtain ⟨rfl, hmissing'⟩ := List.cons_prefix_cons.1 h.isPrefix
    rcases hget : document.get? field' with _ | value
    · have hone := h.shortest [field'] (by simp) (by simp [hget])
      obtain rfl : missing' = [] := List.eq_nil_of_length_eq_zero (by simpa using hone)
      exact .inl ⟨rfl, rfl⟩
    · refine .inr ⟨value, missing', rfl, ⟨hmissing', ?_, fun shorter hshorter habsent ↦ ?_⟩, rfl⟩
      · simpa [hget] using h.absent
      · have hle := h.shortest (field' :: shorter) (List.cons_prefix_cons.2 ⟨rfl, hshorter⟩)
          (by simpa [hget] using habsent)
        simpa using hle
  · rintro (⟨hget, rfl⟩ | ⟨value, missing', hget, h, rfl⟩)
    · refine ⟨by simp, by simp [hget], fun shorter _ habsent ↦ ?_⟩
      rcases shorter with _ | ⟨field', shorter⟩
      · exact absurd habsent (by simp)
      · simp
    · refine ⟨List.cons_prefix_cons.2 ⟨rfl, h.isPrefix⟩, by simpa [hget] using h.absent,
        fun shorter hshorter habsent ↦ ?_⟩
      rcases shorter with _ | ⟨field', shorter⟩
      · exact absurd habsent (by simp)
      · obtain ⟨rfl, hrest⟩ := List.cons_prefix_cons.1 hshorter
        have hle := h.shortest shorter hrest (by simpa [hget] using habsent)
        simpa using hle

/-! ### Writing documents -/

/-- The document with the value at the end of the fields, and nothing else. -/
def nest (fields : List String) (value : Json) : Json :=
  fields.foldr (fun field value ↦ .object [(field, value)]) value

/-- **A value is found where it was put**, at the end of its fields. -/
@[simp] theorem follow?_nest (fields : List String) (value : Json) :
    (nest fields value).follow? fields = some value := by
  induction fields with
  | nil => rfl
  | cons field fields ih =>
    have hget : (nest (field :: fields) value).get? field = some (nest fields value) :=
      Table.get?_insert_self _ _ _
    rw [follow?_cons, hget]
    exact ih

/-- The object with the entries of the table, each written as `write` says. -/
def ofTable {α : Type} (write : α → Json) (t : Table String α) : Json :=
  .object (t.entries.map fun (key, value) ↦ (key, write value))

/-- A table that is written as an object is found in it key by key. -/
theorem exists_members_ofTable {α : Type} (write : α → Json) (t : Table String α) :
    ∃ members, (ofTable write t).members? = some members ∧
      ∀ key, members.get? key = (t.get? key).map write := by
  refine ⟨_, rfl, fun key ↦ Option.ext fun value ↦ ?_⟩
  have hnodup : ((t.entries.map fun (key, value) ↦ (key, write value)).map (·.1)).Nodup := by
    rw [List.map_map]
    exact t.nodup_keys
  rw [Table.get?_ofList_eq_some_iff hnodup, Option.map_eq_some_iff, List.mem_map]
  simp only [Table.get?_eq_some_iff, Prod.exists, Prod.mk.injEq]
  constructor
  · rintro ⟨_, value', hmem, rfl, rfl⟩
    exact ⟨value', hmem, rfl⟩
  · rintro ⟨value', hmem, rfl⟩
    exact ⟨key, value', hmem, rfl, rfl⟩

end Json

end PluralForms
