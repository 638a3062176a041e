import PluralForms.Proofs.Formula.Spelling
import PluralForms.Proofs.Traversal
import PluralForms.Selector

/-!
# What the text of a formula means

The text of a formula, read as a C expression, has at every count the value of the formula
(`Selector.exists_read_text`). The conditions in it may be any trees, nested as one likes, as long
as each junction has a member and no remainder is modulo zero.

The text of a condition is read as its expression, so what is left is to evaluate that expression:
it decides the condition (`Condition.decides_expression`).

All conditional operators but one are in parentheses, and so the trees read from the left and from
the right are the same.
-/

namespace PluralForms

open Formula

/-! ### Truth values -/

/-- At every count the expression has the truth value of `p`. -/
def Formula.Expression.Decides (e : Expression) (p : Nat → Bool) : Prop :=
  ∀ n, e.eval n = some (p n).toNat

namespace Formula.Expression

variable {e f : Expression} {p q : Nat → Bool} {es : List Expression} {ps : List (Nat → Bool)}

/-- `&&` decides a conjunction. -/
theorem Decides.and (he : e.Decides p) (hf : f.Decides q) :
    (binary .and e f).Decides fun n ↦ p n && q n := by
  intro n
  rw [eval, he n]
  cases hp : p n <;> cases hq : q n <;> simp [hf n, hp, hq, Operator.apply]

theorem Decides.or (he : e.Decides p) (hf : f.Decides q) :
    (binary .or e f).Decides fun n ↦ p n || q n := by
  intro n
  rw [eval, he n]
  cases hp : p n <;> cases hq : q n <;> simp [hf n, hp, hq, Operator.apply]

/-- Applied from left to right, `&&` decides the conjunction of all. -/
theorem Decides.foldl_and (he : e.Decides p) (h : List.Forall₂ Decides es ps) :
    (es.foldl (binary .and) e).Decides fun n ↦ p n && ps.all (· n) := by
  induction h generalizing e p with
  | nil => simpa using he
  | cons hf _ ih => simpa [Bool.and_assoc] using ih (he.and hf)

theorem Decides.foldl_or (he : e.Decides p) (h : List.Forall₂ Decides es ps) :
    (es.foldl (binary .or) e).Decides fun n ↦ p n || ps.any (· n) := by
  induction h generalizing e p with
  | nil => simpa using he
  | cons hf _ ih => simpa [Bool.or_assoc] using ih (he.or hf)

/-- Expressions with `&&` between them decide all of it. -/
theorem decides_joined_and (h : List.Forall₂ Decides es ps) (hne : es ≠ []) :
    (joined .and es).Decides fun n ↦ ps.all (· n) := by
  cases h with
  | nil => exact absurd rfl hne
  | cons he h => exact he.foldl_and h

/-- Expressions with `||` between them decide whether any of it holds. -/
theorem decides_joined_or (h : List.Forall₂ Decides es ps) :
    (joined .or es).Decides fun n ↦ ps.any (· n) := by
  cases h with
  | nil => exact fun n ↦ rfl
  | cons he h => exact he.foldl_or h

end Formula.Expression

/-! ### Comparisons -/

/-- The operator of a comparator gives its truth value. -/
theorem Comparator.apply_operator (r : Comparator) (a b : Nat) :
    r.operator.apply a b = some (r.holds a b).toNat := by
  cases r with
  | ne =>
    simp only [operator, Operator.apply, holds, bne, decide_not]
    rfl
  | _ => rfl

/-- The expression of an operand has its value, if no remainder is modulo zero. -/
theorem Operand.eval_expression {o : Operand} (h : o.IsDefined) (n : Nat) :
    o.expression.eval n = some (o.value n) := by
  cases o with
  | count => rfl
  | remainder m =>
    have hm : m ≠ 0 := Nat.ne_of_gt h
    simp [expression, Expression.eval, Operator.apply, hm, value]

namespace Condition

/-- **The expression of a comparison decides it.** -/
theorem decides_compare {o : Operand} (h : o.IsDefined) (r : Comparator) (v : Nat) :
    (Expression.binary r.operator o.expression (.number v)).Decides (compare o r v).holds := by
  intro n
  rw [Expression.eval, Operand.eval_expression h n, holds_compare, ← r.apply_operator]
  have hand : r.operator ≠ .and := by cases r <;> decide
  have hor : r.operator ≠ .or := by cases r <;> decide
  simp [hand, hor, Expression.eval]

/-! ### Junctions -/

/-- What stands for each of some conditions, taken together, stands for all of them. -/
theorem all_flatten_of_forall₂ {cs : List Condition} {pss : List (List (Nat → Bool))}
    (h : List.Forall₂ (fun c ps ↦ (fun n ↦ ps.all (· n)) = c.holds) cs pss) (n : Nat) :
    pss.flatten.all (· n) = cs.all (·.holds n) := by
  induction h with
  | nil => rfl
  | cons hc _ ih => rw [List.flatten_cons, List.all_append, ih, List.all_cons, ← hc]

/-- An occupied condition has something to say. -/
theorem Occupied.sequence_ne_nil {P : Operand → Prop} {c : Condition} (h : c.Occupied P) :
    c.sequence ≠ [] := by
  induction h with
  | compare => simp
  | @all cs hne _ ih =>
    obtain ⟨c, hc⟩ := List.exists_mem_of_ne_nil cs hne
    rw [sequence_all]
    exact fun hnil ↦ ih c hc (List.flatMap_eq_nil_iff.1 hnil c hc)
  | any => simp

/-- **The expressions of a nested condition decide conditions**, all of which hold when the
condition does. -/
theorem exists_decides_sequence {c : Condition} (h : c.WellFormed) :
    ∃ ps : List (Nat → Bool), List.Forall₂ Expression.Decides c.sequence ps ∧
      (fun n ↦ ps.all (· n)) = c.holds := by
  induction h with
  | @compare o r v h =>
    refine ⟨[(compare o r v).holds], ?_, funext fun n ↦ Bool.and_true _⟩
    rw [sequence_compare]
    exact .cons (decides_compare h r v) .nil
  | @all cs _ _ ih =>
    -- the members of a member are members
    obtain ⟨pss, hpss⟩ := exists_forall₂_of_forall_mem ih
    refine ⟨pss.flatten, ?_, funext fun n ↦ ?_⟩
    · rw [sequence_all, List.flatMap_def]
      refine List.rel_flatten ?_
      rw [List.forall₂_map_left_iff]
      exact hpss.imp fun _ _ h ↦ h.1
    · rw [holds_all]
      exact all_flatten_of_forall₂ (hpss.imp fun _ _ h ↦ h.2) n
  | @any cs _ h ih =>
    have hmembers : List.Forall₂ Expression.Decides (cs.map expression) (cs.map holds) := by
      rw [List.forall₂_map_left_iff, List.forall₂_map_right_iff, List.forall₂_same]
      intro c hc
      obtain ⟨ps, hps, hholds⟩ := ih c hc
      exact hholds ▸ Expression.decides_joined_and hps (h c hc).sequence_ne_nil
    have hany : (fun n ↦ (cs.map holds).any (· n)) = (any cs).holds := by
      funext n
      simp [Function.comp_def]
    refine ⟨[(any cs).holds], ?_, funext fun n ↦ Bool.and_true _⟩
    rw [sequence_any]
    exact .cons (hany ▸ Expression.decides_joined_or hmembers) .nil

/-- **The expression of a condition decides it.** -/
theorem decides_expression {c : Condition} (h : c.WellFormed) : c.expression.Decides c.holds := by
  obtain ⟨ps, hps, hholds⟩ := exists_decides_sequence h
  exact hholds ▸ Expression.decides_joined_and hps h.sequence_ne_nil

/-- **The text of a condition is read as an expression that decides it.** -/
theorem reads_text {c : Condition} (h : c.WellFormed) :
    ∃ row e, Reads c.text row ∧ row.ResolvesTo e ∧ e.Decides c.holds := by
  obtain ⟨row, hread, hrow⟩ := reads_expression h
  exact ⟨row, c.expression, hread, hrow, decides_expression h⟩

/-- So is the text in parentheses, as an operand. -/
theorem reads_grouped {c : Condition} (h : c.WellFormed) :
    ∃ e, Reads c.grouped (.single e) ∧ e.Decides c.holds := by
  obtain ⟨row, e, hread, he, hdecides⟩ := reads_text h
  exact ⟨e, hread.group he, hdecides⟩

end Condition

/-! ### Selectors -/

namespace Selector

/-- A test in parentheses, a number and an alternative make up a conditional operator, which is the
same from either side. -/
theorem reads_select {c : Condition} (h : c.WellFormed) (index : Nat) {tail : String}
    {e : Expression} (htail : Reads tail (.single e)) :
    ∃ row e', Reads (c.grouped ++ " ? " ++ toString index ++ " : " ++ tail) row ∧
      row.ResolvesTo e' ∧ ∀ n, e'.eval n = if c.holds n then some index else e.eval n := by
  obtain ⟨test, hread, htest⟩ := Condition.reads_grouped h
  refine ⟨_, .conditional test (.number index) e,
    hread.select (reads_number index) (Row.resolvesTo_single _) htail, ?_, fun n ↦ ?_⟩
  · intro side
    cases side <;> rfl
  · rw [Expression.eval, htest n]
    cases c.holds n <;> simp [Expression.eval]

/-- The tests from a number on are read as the number of the first that holds. -/
theorem reads_chainTail {cs : List Condition} (h : ∀ c ∈ cs, c.WellFormed) (index : Nat) :
    ∃ e, Reads (chainTail index cs) (.single e) ∧
      ∀ n, e.eval n = some (index + cs.findIdx (·.holds n)) := by
  induction cs generalizing index with
  | nil => exact ⟨.number index, reads_number index, fun n ↦ rfl⟩
  | cons c cs ih =>
    obtain ⟨hc, hcs⟩ := List.forall_mem_cons.1 h
    obtain ⟨e, hread, heval⟩ := ih hcs (index + 1)
    obtain ⟨row, e', hselect, hrow, heval'⟩ := reads_select hc index hread
    refine ⟨e', ?_, fun n ↦ ?_⟩
    · have hgroup := hselect.group hrow
      simpa [chainTail, String.append_assoc] using hgroup
    · rw [heval' n, heval n, List.findIdx_cons]
      cases c.holds n with
      | true => rfl
      | false => simp [Nat.add_assoc, Nat.add_comm 1]

/-- **The text of a formula means the formula.** Read as a C expression, the text of a selector with
well-formed conditions has at every count the value of the selector. It is read as the same tree
whether the conditional operator associates to the right or to the left. -/
theorem exists_read_text {s : Selector} (h : ∀ c ∈ s.conditions, c.WellFormed) :
    ∃ e, (∀ side, read side s.text = some e) ∧ ∀ n, e.eval n = some (s.eval n) := by
  have hzero := read_of_reads (reads_number 0) (Row.resolvesTo_single (.number 0))
  match s, h with
  | constant, _ => exact ⟨.number 0, hzero, fun n ↦ rfl⟩
  | binary c, h =>
    obtain ⟨row, e, hread, he, hdecides⟩ := Condition.reads_text (h c (by simp [conditions]))
    exact ⟨e, read_of_reads hread he, hdecides⟩
  | chain [], _ => exact ⟨.number 0, hzero, fun n ↦ rfl⟩
  | chain (c :: cs), h =>
    obtain ⟨hc, hcs⟩ := List.forall_mem_cons.1 h
    obtain ⟨e, hread, heval⟩ := reads_chainTail hcs 1
    obtain ⟨row, e', hselect, hrow, heval'⟩ := reads_select hc 0 hread
    have htext : (chain (c :: cs)).text =
        c.grouped ++ " ? " ++ toString 0 ++ " : " ++ chainTail 1 cs := by
      have hsigns : " ? 0 : " = " ? " ++ toString 0 ++ " : " := by decide
      rw [text, hsigns]
      simp only [String.append_assoc]
    refine ⟨e', ?_, fun n ↦ ?_⟩
    · rw [htext]
      exact read_of_reads hselect hrow
    · rw [heval' n, heval n, eval, List.findIdx_cons]
      cases c.holds n with
      | true => rfl
      | false => simp [Nat.add_comm 1]

/-- Conditions as no compilation leaves them: junctions of one member, and junctions in junctions of
their own kind. -/
def unreduced : Selector :=
  .chain
    [.all [.all [.compare (.remainder 10) .eq 1, .any [.compare .count .lt 5]],
      .any [.all [.compare .count .ne 11, .compare .count .gt 0], .compare .count .ge 100]],
     .any [.any [.compare (.remainder 7) .le 2]]]

/-- The text of these conditions is read, and what it says at some counts. -/
theorem exists_read_text_unreduced :
    (∀ c ∈ unreduced.conditions, c.WellFormed) ∧
      ∃ e, (∀ side, read side unreduced.text = some e) ∧ e.eval 1 = some 0 ∧ e.eval 2 = some 1 ∧
        e.eval 11 = some 2 := by
  have hwellFormed : ∀ c ∈ unreduced.conditions, c.WellFormed := by
    simp [unreduced, conditions, Condition.WellFormed, Operand.IsDefined]
  obtain ⟨e, hread, heval⟩ := exists_read_text hwellFormed
  exact ⟨hwellFormed, e, hread, heval 1, heval 2, heval 11⟩

end Selector

end PluralForms
