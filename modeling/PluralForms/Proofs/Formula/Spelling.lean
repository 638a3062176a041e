import PluralForms.Condition.Text
import PluralForms.Proofs.Condition.Canonical
import PluralForms.Proofs.Formula.Reading

/-!
# The expression that a condition spells

The text of a condition, read as a C expression, is an expression that can be told from the
condition: `Condition.expression`. The text has few parentheses, so precedence has to do the work. A
conjunction in a junction is written without any: in a conjunction its members become members of the
outer one, and in a disjunction `&&` binds tighter than `||`. A disjunction in a junction is
parenthesized and hence an operand. Therefore the text of a nested condition is read as a sequence
of expressions with `&&` between them (`Condition.reads_nested`), and the text of any condition as
these expressions joined (`Condition.reads_expression`).

All that is asked of a condition is that each junction in it has a member, since an empty one has no
text.
-/

namespace PluralForms

open Formula

/-! ### Comparisons -/

namespace Comparator

/-- The operator of expressions that a comparator is written as. -/
def operator : Comparator → Operator
  | eq => .eq
  | ne => .ne
  | lt => .lt
  | gt => .gt
  | le => .le
  | ge => .ge

/-- The symbol of a comparator is one token between its blanks. -/
theorem closed_symbol (r : Comparator) :
    Closed (" " ++ r.symbol ++ " ") [.operator r.operator] := by
  cases r <;> exact fun _ ↦ rfl

end Comparator

namespace Operand

/-- The expression of an operand. -/
def expression : Operand → Expression
  | count => .count
  | remainder m => .binary .rem .count (.number m)

/-- The row of an operand. -/
def row : Operand → Row
  | count => .single .count
  | remainder m => (Row.single .count).join (.operator .rem) (.single (.number m))

/-- The text of an operand is read as the operand, and a remainder as a row of two. -/
theorem reads_text (o : Operand) : Reads o.text o.row := by
  cases o with
  | count => exact reads_count
  | remainder m =>
    have hsign : Closed " % " [.operator .rem] := fun _ ↦ rfl
    have htext : "n % " = "n" ++ " % " := by decide
    rw [text, htext]
    exact reads_count.operator (reads_number m) hsign rfl

end Operand

namespace Condition

/-- A comparison is read as an operator between its operand and its value. -/
theorem reads_compare (o : Operand) (r : Comparator) (v : Nat) (nested : Bool) :
    ∃ row, Reads ((compare o r v).textWithin nested) row ∧
      [5, 4, 3].foldl Row.tighten row =
        .single (.binary r.operator o.expression (.number v)) := by
  refine ⟨o.row.join (.operator r.operator) (.single (.number v)), ?_, ?_⟩
  · have hread := o.reads_text.operator (reads_number v) r.closed_symbol (by simp)
    simpa [textWithin, String.append_assoc] using hread
  · cases o <;> cases r <;> rfl

/-! ### Junctions -/

mutual

/-- The expressions with `&&` between them that a condition spells as a member of a junction. -/
def sequence : Condition → List Expression
  | .compare o r v => [.binary r.operator o.expression (.number v)]
  | .all cs => memberSequence cs
  | .any cs => [.joined .or (memberExpressions cs)]

/-- The sequences of the listed conditions, one after the other. -/
def memberSequence : List Condition → List Expression
  | [] => []
  | c :: cs => sequence c ++ memberSequence cs

/-- The expressions of the listed conditions. -/
def memberExpressions : List Condition → List Expression
  | [] => []
  | c :: cs => .joined .and (sequence c) :: memberExpressions cs

end

/-- The expression that a condition spells. -/
def expression (c : Condition) : Expression :=
  .joined .and c.sequence

@[simp] theorem sequence_compare (o : Operand) (r : Comparator) (v : Nat) :
    (compare o r v).sequence = [.binary r.operator o.expression (.number v)] := by
  rw [sequence]

/-- The members of a member are members. -/
@[simp] theorem sequence_all (cs : List Condition) : (all cs).sequence = cs.flatMap sequence := by
  rw [sequence]
  induction cs with
  | nil => rfl
  | cons c cs ih => rw [memberSequence, ih, List.flatMap_cons]

@[simp] theorem sequence_any (cs : List Condition) :
    (any cs).sequence = [.joined .or (cs.map expression)] := by
  have hmembers : memberExpressions cs = cs.map expression := by
    induction cs with
    | nil => rfl
    | cons c cs ih => rw [memberExpressions, ih, List.map_cons, expression]
  rw [sequence, hmembers]

/-- The expression of a disjunction joins those of its members by `||`. -/
theorem expression_any (cs : List Condition) :
    (any cs).expression = .joined .or (cs.map expression) := by
  rw [expression, sequence_any]
  rfl

variable {P : Operand → Prop}

/-- Members that are read as expressions of their own, with `||` between them. -/
theorem reads_any {cs : List Condition} (hne : cs ≠ [])
    (h : ∀ c ∈ cs, ∃ row, Reads (c.textWithin true) row ∧
      [5, 4, 3, 2].foldl Row.tighten row = .single c.expression) :
    ∃ row, Reads (" || ".intercalate (memberTexts cs)) row ∧
      row.ResolvesTo (any cs).expression := by
  have hmembers : List.Forall₂
      (fun s es ↦ ∃ row, Reads s row ∧ row.IsSequence [5, 4, 3, 2] .or es)
      (cs.map (textWithin true)) (cs.map fun c ↦ [c.expression]) := by
    rw [List.forall₂_map_left_iff, List.forall₂_map_right_iff, List.forall₂_same]
    intro c hc
    obtain ⟨row, hread, hrow⟩ := h c hc
    exact ⟨row, hread, Row.isSequence_singleton hrow⟩
  have hsign : Closed " || " [.operator .or] := fun _ ↦ rfl
  obtain ⟨row, hread, hrow⟩ := Row.IsSequence.exists_reads_intercalate hsign rfl (by decide)
    (by simpa using hne) hmembers
  refine ⟨row, by rwa [memberTexts_eq_map], Row.resolvesTo_of_foldl_tighten ?_⟩
  have hflatten : (cs.map fun c ↦ [c.expression]).flatten = cs.map expression := by
    rw [← List.flatMap_def, ← List.map_eq_flatMap]
  rw [expression_any, ← hflatten]
  exact hrow.foldl_tighten

/-- **A nested condition is read as its sequence**, with `&&` between the expressions. -/
theorem reads_nested {c : Condition} (h : c.Occupied P) :
    ∃ row, Reads (c.textWithin true) row ∧ row.IsSequence [5, 4, 3] .and c.sequence := by
  induction h with
  | @compare o r v _ =>
    obtain ⟨row, hread, hrow⟩ := reads_compare o r v true
    exact ⟨row, hread, sequence_compare o r v ▸ Row.isSequence_singleton hrow⟩
  | @all cs hne _ ih =>
    -- the members of a member become members
    have hmembers : List.Forall₂
        (fun s es ↦ ∃ row, Reads s row ∧ row.IsSequence [5, 4, 3] .and es)
        (cs.map (textWithin true)) (cs.map sequence) := by
      rwa [List.forall₂_map_left_iff, List.forall₂_map_right_iff, List.forall₂_same]
    have hsign : Closed " && " [.operator .and] := fun _ ↦ rfl
    obtain ⟨row, hread, hrow⟩ := Row.IsSequence.exists_reads_intercalate hsign rfl (by decide)
      (by simpa using hne) hmembers
    exact ⟨row, by rwa [textWithin, memberTexts_eq_map], by rwa [sequence_all, List.flatMap_def]⟩
  | @any cs hne _ ih =>
    -- in parentheses, and so a sequence of one
    obtain ⟨row, hread, hrow⟩ := reads_any hne fun c hc ↦ by
      obtain ⟨row, hread, hrow⟩ := ih c hc
      exact ⟨row, hread, hrow.foldl_tighten⟩
    refine ⟨.single (any cs).expression, hread.group hrow, ?_⟩
    rw [sequence_any, ← expression_any]
    exact Row.isSequence_singleton rfl

/-- **The text of a condition is read as its expression.** -/
theorem reads_expression {c : Condition} (h : c.Occupied P) :
    ∃ row, Reads c.text row ∧ row.ResolvesTo c.expression := by
  have hmember : ∀ {c : Condition}, c.Occupied P → ∃ row, Reads (c.textWithin true) row ∧
      [5, 4, 3, 2].foldl Row.tighten row = .single c.expression := by
    intro c h
    obtain ⟨row, hread, hrow⟩ := reads_nested h
    exact ⟨row, hread, hrow.foldl_tighten⟩
  -- outside of a disjunction the text is that of a member, and no `||` is left to apply
  have hlast : ∀ {row : Row} {e : Expression}, [5, 4, 3, 2].foldl Row.tighten row = .single e →
      row.ResolvesTo e := by
    intro row e hrow
    refine Row.resolvesTo_of_foldl_tighten ?_
    show ([5, 4, 3, 2] ++ [1]).foldl Row.tighten row = _
    rw [List.foldl_append, hrow]
    rfl
  cases h with
  | compare h =>
    obtain ⟨row, hread, hrow⟩ := hmember (.compare h)
    exact ⟨row, hread, hlast hrow⟩
  | all hne h =>
    obtain ⟨row, hread, hrow⟩ := hmember (.all hne h)
    exact ⟨row, hread, hlast hrow⟩
  | any hne h => exact reads_any hne fun c hc ↦ hmember (h c hc)

end Condition

end PluralForms
