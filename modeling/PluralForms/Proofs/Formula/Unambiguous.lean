import PluralForms.Proofs.Formula.Spelling

/-!
# The text of a condition determines it

Parentheses are written only around a disjunction in a junction, so the text alone does not say
where a conjunction in a junction begins and ends, and a junction of one member looks like the
member. Conditions that are put together from comparisons with `conj` and `disj` have neither a
junction in one of its own kind nor a junction of one member (`Composed.flat`), and among them a
text belongs to one condition only: `text_eq_text_iff`.

The text is read as the expression of the condition, whatever wrote it. In this expression the
members of a flat conjunction are the operands of its leftmost `&&` signs, and those of a flat
disjunction the operands of its leftmost `||` signs (`Flat.operands_and`, `Flat.operands_or`). So
the expression gives the members back, and from them, by induction, the condition.
-/

namespace PluralForms

open Formula

/-! ### Operands on the left -/

namespace Formula.Expression

/-- What is joined by the outermost operators `op`, one of which stands on the left of the other. -/
def operands (op : Operator) : Expression → List Expression
  | .binary op' a b => if op' = op then a.operands op ++ [b] else [.binary op' a b]
  | e => [e]

/-- What is joined from left to right is found again as operands. -/
theorem operands_foldl (op : Operator) (a : Expression) (es : List Expression) :
    (es.foldl (.binary op) a).operands op = a.operands op ++ es := by
  induction es generalizing a with
  | nil => simp
  | cons e es ih =>
    rw [List.foldl_cons, ih, operands, if_pos rfl, List.append_assoc]
    rfl

/-- The operands of joined expressions are the expressions. -/
theorem operands_joined {op : Operator} {es : List Expression} (hne : es ≠ [])
    (h : ∀ e ∈ es, e.operands op = [e]) : (joined op es).operands op = es := by
  obtain ⟨e, es, rfl⟩ := List.exists_cons_of_ne_nil hne
  rw [joined, operands_foldl, h e List.mem_cons_self]
  rfl

/-- Two or more joined expressions are a single operand for any other operator. -/
theorem operands_joined_of_ne {op op' : Operator} (hop : op ≠ op') {es : List Expression}
    (hlen : 2 ≤ es.length) : (joined op es).operands op' = [joined op es] := by
  match es, hlen with
  | e :: f :: es, _ =>
    -- the last of the expressions is the right operand of the whole
    obtain ⟨init, g, hlast⟩ :=
      (List.eq_nil_or_concat (f :: es)).resolve_left (List.cons_ne_nil f es)
    rw [joined, hlast, List.concat_eq_append, List.foldl_append, List.foldl_cons, List.foldl_nil,
      operands, if_neg hop]

end Formula.Expression

theorem Operand.expression_inj {o o' : Operand} (h : o.expression = o'.expression) : o = o' := by
  cases o <;> cases o' <;> simp_all [expression]

theorem Comparator.operator_inj {r r' : Comparator} (h : r.operator = r'.operator) : r = r' := by
  cases r <;> cases r' <;> simp_all [operator]

namespace Condition

variable {P : Operand → Prop} {c d : Condition} {cs ds : List Condition}

/-! ### Members of a flat condition -/

theorem sequence_of_isConjunction_eq_false (h : c.isConjunction = false) :
    c.sequence = [c.expression] := by
  cases c with
  | compare o r v => rw [expression, sequence_compare]; rfl
  | all cs => cases h
  | any cs => rw [expression_any, sequence_any]

/-- The expression of a flat conjunction joins those of its members by `&&`. -/
theorem expression_all (h : ∀ c ∈ cs, c.isConjunction = false) :
    (all cs).expression = .joined .and (cs.map expression) := by
  have hmembers : ∀ c ∈ cs, c.sequence = [c.expression] :=
    fun c hc ↦ sequence_of_isConjunction_eq_false (h c hc)
  rw [expression, sequence_all, List.flatMap_congr hmembers, ← List.map_eq_flatMap]

/-- A comparison is a single operand for any operator but its own. -/
theorem operands_expression_compare (o : Operand) (r : Comparator) (v : Nat) {op : Operator}
    (h : r.operator ≠ op) :
    (compare o r v).expression.operands op = [(compare o r v).expression] := by
  rw [expression, sequence_compare]
  exact if_neg h

/-- **The members of a flat conjunction** are what `&&` joins in its expression. -/
theorem Flat.operands_and (h : c.Flat P) :
    c.expression.operands .and = c.conjuncts.map expression := by
  induction h with
  | @compare o r v _ => exact operands_expression_compare o r v (by cases r <;> decide)
  | @all cs hlen hflat _ ih =>
    have hne : cs.map expression ≠ [] := List.ne_nil_of_length_pos (by rw [List.length_map]; omega)
    rw [expression_all hflat]
    refine Expression.operands_joined hne (List.forall_mem_map.2 fun c hc ↦ ?_)
    rw [ih c hc, conjuncts_of_isConjunction_eq_false (hflat c hc), List.map_singleton]
  | @any cs hlen _ _ _ =>
    rw [conjuncts_of_isConjunction_eq_false rfl, List.map_singleton, expression_any]
    exact Expression.operands_joined_of_ne (by decide) (by rwa [List.length_map])

/-- **The members of a flat disjunction** are what `||` joins in its expression. -/
theorem Flat.operands_or (h : c.Flat P) :
    c.expression.operands .or = c.disjuncts.map expression := by
  induction h with
  | @compare o r v _ => exact operands_expression_compare o r v (by cases r <;> decide)
  | @all cs hlen hflat _ _ =>
    rw [disjuncts_of_isDisjunction_eq_false rfl, List.map_singleton, expression_all hflat]
    exact Expression.operands_joined_of_ne (by decide) (by rwa [List.length_map])
  | @any cs hlen hflat _ ih =>
    have hne : cs.map expression ≠ [] := List.ne_nil_of_length_pos (by rw [List.length_map]; omega)
    rw [expression_any]
    refine Expression.operands_joined hne (List.forall_mem_map.2 fun c hc ↦ ?_)
    rw [ih c hc, disjuncts_of_isDisjunction_eq_false (hflat c hc), List.map_singleton]

/-! ### Flat conditions with the same expression -/

/-- Members with the same expressions are the same, if each of them is told by its expression. -/
theorem eq_of_map_expression_eq
    (hcs : ∀ c ∈ cs, ∀ d : Condition, d.Flat P → c.expression = d.expression → c = d)
    (hds : ∀ d ∈ ds, d.Flat P) (h : cs.map expression = ds.map expression) : cs = ds := by
  induction cs generalizing ds with
  | nil => exact (List.map_eq_nil_iff.1 h.symm).symm
  | cons c cs ih =>
    obtain ⟨d, ds, rfl, hd, htail⟩ := List.map_eq_cons_iff.1 h.symm
    obtain ⟨hc, hcs⟩ := List.forall_mem_cons.1 hcs
    obtain ⟨hflat, hds⟩ := List.forall_mem_cons.1 hds
    rw [hc d hflat hd.symm, ih hcs hds htail.symm]

/-- The expression of a flat condition determines those of its conjuncts. -/
theorem Flat.map_conjuncts_eq (hc : c.Flat P) (hd : d.Flat P) (h : c.expression = d.expression) :
    c.conjuncts.map expression = d.conjuncts.map expression := by
  rw [← hc.operands_and, ← hd.operands_and, h]

/-- The expression of a flat condition determines those of its disjuncts. -/
theorem Flat.map_disjuncts_eq (hc : c.Flat P) (hd : d.Flat P) (h : c.expression = d.expression) :
    c.disjuncts.map expression = d.disjuncts.map expression := by
  rw [← hc.operands_or, ← hd.operands_or, h]

/-- **Flat conditions with the same expression are the same.** -/
theorem Flat.expression_inj (hc : c.Flat P) (hd : d.Flat P) (h : c.expression = d.expression) :
    c = d := by
  induction hc generalizing d with
  | @compare o r v hP =>
    have hconj := (Flat.compare hP).map_conjuncts_eq hd h
    have hdisj := (Flat.compare hP).map_disjuncts_eq hd h
    -- a junction would have two members
    cases hd with
    | compare =>
      simp only [expression, sequence_compare, Expression.joined, List.foldl_nil,
        Expression.binary.injEq, Expression.number.injEq] at h
      obtain ⟨hr, ho, rfl⟩ := h
      rw [Comparator.operator_inj hr, Operand.expression_inj ho]
    | all hlen =>
      have hlength := congrArg List.length hconj
      simp only [conjuncts, List.length_map, List.length_singleton] at hlength
      omega
    | any hlen =>
      have hlength := congrArg List.length hdisj
      simp only [disjuncts, List.length_map, List.length_singleton] at hlength
      omega
  | @all cs hlen hflat hcs ih =>
    have hmembers : cs.map expression = d.conjuncts.map expression :=
      (Flat.all hlen hflat hcs).map_conjuncts_eq hd h
    cases hd with
    | all _ _ hds => exact congrArg Condition.all (eq_of_map_expression_eq ih hds hmembers)
    | _ =>
      have hlength := congrArg List.length hmembers
      simp only [conjuncts, List.length_map, List.length_singleton] at hlength
      omega
  | @any cs hlen hflat hcs ih =>
    have hmembers : cs.map expression = d.disjuncts.map expression :=
      (Flat.any hlen hflat hcs).map_disjuncts_eq hd h
    cases hd with
    | any _ _ hds => exact congrArg Condition.any (eq_of_map_expression_eq ih hds hmembers)
    | _ =>
      have hlength := congrArg List.length hmembers
      simp only [disjuncts, List.length_map, List.length_singleton] at hlength
      omega

/-! ### Composed conditions -/

/-- Made of comparisons by joining one or more conditions, all of them or any of them. -/
inductive Composed : Condition → Prop
  | compare (o : Operand) (r : Comparator) (v : Nat) : Composed (.compare o r v)
  | conj {parts : List Condition} (hne : parts ≠ []) (h : ∀ p ∈ parts, Composed p) :
      Composed (conj parts)
  | disj {parts : List Condition} (hne : parts ≠ []) (h : ∀ p ∈ parts, Composed p) :
      Composed (disj parts)

/-- **What is joined by `conj` and `disj` is flat.** -/
theorem Composed.flat (h : c.Composed) : c.Flat fun _ ↦ True := by
  induction h with
  | compare => exact .compare trivial
  | conj hne _ ih => exact flat_conj hne ih
  | disj hne _ ih => exact flat_disj hne ih

/-- The text of an occupied condition is read as its expression, from either side. -/
theorem read_text (h : c.Occupied P) (side : Side) : read side c.text = some c.expression := by
  obtain ⟨row, hread, hrow⟩ := reads_expression h
  exact read_of_reads hread hrow side

/-- **Composed conditions with the same text are the same.** -/
theorem text_eq_text_iff (hc : c.Composed) (hd : d.Composed) : c.text = d.text ↔ c = d := by
  refine ⟨fun h ↦ ?_, congrArg text⟩
  have hread : some c.expression = some d.expression := by
    rw [← read_text hc.flat.occupied .right, h, read_text hd.flat.occupied]
  exact hc.flat.expression_inj hd.flat (Option.some.inj hread)

/-- Trees that nobody joined may share their text. -/
example : (all [all [.compare .count .ge 2], .compare .count .le 4]).text =
    (all [.compare .count .ge 2, .compare .count .le 4]).text := by decide +kernel

/-- A conjunction that is joined to the left. -/
def leftGrouped : Condition :=
  conj [conj [.compare (.remainder 10) .ge 2, .compare (.remainder 10) .le 4],
    disj [.compare (.remainder 100) .lt 12,
      conj [.compare (.remainder 100) .gt 14, .compare .count .ne 0]]]

/-- The same comparisons joined to the right, some of them on their own. -/
def rightGrouped : Condition :=
  conj [.compare (.remainder 10) .ge 2,
    conj [conj [.compare (.remainder 10) .le 4],
      disj [disj [.compare (.remainder 100) .lt 12],
        disj [conj [.compare (.remainder 100) .gt 14, .compare .count .ne 0]]]]]

/-- However the comparisons are grouped, the text is the same and hence the condition. -/
theorem text_eq_text_iff_regrouped :
    leftGrouped.Composed ∧ rightGrouped.Composed ∧ leftGrouped.text = rightGrouped.text ∧
      leftGrouped = rightGrouped := by
  have hone : ∀ p : Condition, p.Composed → ∀ q ∈ [p], q.Composed := by simp
  have htwo : ∀ p p' : Condition, p.Composed → p'.Composed → ∀ q ∈ [p, p'], q.Composed := by
    intro p p' hp hp'
    simp [hp, hp']
  have hpair : (conj [.compare (.remainder 100) .gt 14, .compare .count .ne 0]).Composed :=
    .conj (by simp) (htwo _ _ (.compare _ _ _) (.compare _ _ _))
  have hleft : leftGrouped.Composed := by
    refine .conj (by simp) (htwo _ _ ?_ ?_)
    · exact .conj (by simp) (htwo _ _ (.compare _ _ _) (.compare _ _ _))
    · exact .disj (by simp) (htwo _ _ (.compare _ _ _) hpair)
  have hright : rightGrouped.Composed := by
    refine .conj (by simp) (htwo _ _ (.compare _ _ _) ?_)
    refine .conj (by simp) (htwo _ _ ?_ ?_)
    · exact .conj (by simp) (hone _ (.compare _ _ _))
    · refine .disj (by simp) (htwo _ _ ?_ ?_)
      · exact .disj (by simp) (hone _ (.compare _ _ _))
      · exact .disj (by simp) (hone _ hpair)
  have htext : leftGrouped.text = rightGrouped.text := by decide +kernel
  exact ⟨hleft, hright, htext, (text_eq_text_iff hleft hright).1 htext⟩

end Condition

end PluralForms
