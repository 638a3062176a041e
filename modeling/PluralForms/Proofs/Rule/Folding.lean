import Mathlib.Logic.Relation
import PluralForms.Proofs.Condition.Checked
import PluralForms.Proofs.Rule.Meaning

/-!
# Folding

Conditions are put together by splicing and unwrapping, and shortened by a table; truths are put
together by folding constants away. None of this asks what the conditions look like: they may be
empty junctions, junctions of one member, or junctions in junctions of their own kind. And none of
it changes what is said at any count (`folding_exact`).

That includes whether anything is said. A remainder modulo zero has no value, and an evaluation from
left to right stops there unless a member before it was decisive (`junctionValue`). Splicing and
unwrapping keep the order of the members, so what they make stops exactly where its parts do.
Folding constants does so too, with one exception: a part that never holds decides a conjunction
whatever stands before it.
-/

namespace PluralForms

/-! ### The value of a junction -/

/-- The value of a junction of members with these values. A member with the decisive value ends the
evaluation, and one without a value stops it. -/
def junctionValue (decisive : Bool) : List (Option Bool) → Option Bool
  | [] => some !decisive
  | v :: vs => v.bind fun b ↦ if b = decisive then some decisive else junctionValue decisive vs

variable {decisive : Bool}

/-- A junction goes on to further members unless those before them settle its value or stop it. -/
theorem junctionValue_append (vs ws : List (Option Bool)) :
    junctionValue decisive (vs ++ ws) = (junctionValue decisive vs).bind fun b ↦
      if b = decisive then some decisive else junctionValue decisive ws := by
  induction vs with
  | nil => simp [junctionValue]
  | cons v vs ih =>
    rw [List.cons_append, junctionValue, junctionValue, Option.bind_assoc]
    refine congrArg _ (funext fun b ↦ ?_)
    split
    · simp
    · exact ih

@[simp] theorem junctionValue_singleton (v : Option Bool) : junctionValue decisive [v] = v := by
  cases v with
  | none => rfl
  | some b => cases b <;> cases decisive <;> rfl

/-- Members may be replaced by lists of members that together have their values. -/
theorem junctionValue_map_flatMap {α β : Type} {f : α → List β} {v : β → Option Bool}
    {w : α → Option Bool} {l : List α}
    (h : ∀ a ∈ l, junctionValue decisive ((f a).map v) = w a) :
    junctionValue decisive ((l.flatMap f).map v) = junctionValue decisive (l.map w) := by
  induction l with
  | nil => rfl
  | cons a l ih =>
    obtain ⟨ha, hl⟩ := List.forall_mem_cons.1 h
    rw [List.flatMap_cons, List.map_append, junctionValue_append, ha, ih hl, List.map_cons,
      junctionValue]

/-! ### Conditions -/

namespace Condition

theorem holds?_all (cs : List Condition) (n : Nat) :
    (all cs).holds? n = junctionValue false (cs.map (·.holds? n)) := by
  rw [holds?]
  induction cs with
  | nil => rfl
  | cons c cs ih =>
    rw [allHold?, ih, List.map_cons, junctionValue]
    refine congrArg _ (funext fun b ↦ ?_)
    cases b <;> rfl

theorem holds?_any (cs : List Condition) (n : Nat) :
    (any cs).holds? n = junctionValue true (cs.map (·.holds? n)) := by
  rw [holds?]
  induction cs with
  | nil => rfl
  | cons c cs ih =>
    rw [anyHolds?, ih, List.map_cons, junctionValue]

/-- Flattening a conjunction keeps its value. -/
theorem holds?_conj (parts : List Condition) (n : Nat) :
    (conj parts).holds? n = junctionValue false (parts.map (·.holds? n)) := by
  have hflat : junctionValue false ((parts.flatMap conjuncts).map (·.holds? n)) =
      junctionValue false (parts.map (·.holds? n)) :=
    junctionValue_map_flatMap fun c _ ↦ by cases c <;> simp [conjuncts, holds?_all]
  rw [conj, ← hflat]
  split
  next c h => simp [h]
  next => exact holds?_all _ n

theorem holds?_disj (parts : List Condition) (n : Nat) :
    (disj parts).holds? n = junctionValue true (parts.map (·.holds? n)) := by
  have hflat : junctionValue true ((parts.flatMap disjuncts).map (·.holds? n)) =
      junctionValue true (parts.map (·.holds? n)) :=
    junctionValue_map_flatMap fun c _ ↦ by cases c <;> simp [disjuncts, holds?_any]
  rw [disj, ← hflat]
  split
  next c h => simp [h]
  next => exact holds?_any _ n

/-- **Reduction keeps the value**, or that there is none. -/
theorem holds?_reduce (c : Condition) (n : Nat) : c.reduce.holds? n = c.holds? n := by
  -- the rows of the table compare the count itself, so that both sides have a value
  have hdefined : ∀ row ∈ reductions, row.1.IsDefined ∧ row.2.IsDefined := by decide
  rcases reduce_eq_or_mem c with hsame | hrow
  · rw [hsame]
  · obtain ⟨hc, hreduced⟩ := hdefined _ hrow
    rw [hc.holds?_eq, hreduced.holds?_eq, holds_reduce]

/-- One simplification, of a condition or somewhere in it. -/
inductive Simplifies : Condition → Condition → Prop where
  | conj (parts : List Condition) : Simplifies (.all parts) (conj parts)
  | disj (parts : List Condition) : Simplifies (.any parts) (disj parts)
  | reduce (c : Condition) : Simplifies c c.reduce
  | all {c d : Condition} (before after : List Condition) (h : Simplifies c d) :
    Simplifies (.all (before ++ c :: after)) (.all (before ++ d :: after))
  | any {c d : Condition} (before after : List Condition) (h : Simplifies c d) :
    Simplifies (.any (before ++ c :: after)) (.any (before ++ d :: after))

/-- The conditions say the same at the count, and have a value there or not alike. -/
def AgreeAt (n : Nat) (c d : Condition) : Prop :=
  d.holds n = c.holds n ∧ d.holds? n = c.holds? n

/-- **A simplification keeps the value of a condition.** -/
theorem Simplifies.agreeAt {c d : Condition} (h : Simplifies c d) (n : Nat) : AgreeAt n c d := by
  induction h with
  | conj parts => exact ⟨by rw [holds_conj, holds_all], by rw [holds?_conj, holds?_all]⟩
  | disj parts => exact ⟨by rw [holds_disj, holds_any], by rw [holds?_disj, holds?_any]⟩
  | reduce c => exact ⟨holds_reduce c n, holds?_reduce c n⟩
  | all before after _ ih =>
    exact ⟨by simp only [holds_all, List.all_append, List.all_cons, ih.1],
      by simp only [holds?_all, List.map_append, List.map_cons, ih.2]⟩
  | any before after _ ih =>
    exact ⟨by simp only [holds_any, List.any_append, List.any_cons, ih.1],
      by simp only [holds?_any, List.map_append, List.map_cons, ih.2]⟩

/-- So do any number of them. -/
theorem agreeAt_of_reflTransGen {c d : Condition} (h : Relation.ReflTransGen Simplifies c d)
    (n : Nat) : AgreeAt n c d := by
  induction h with
  | refl => exact ⟨rfl, rfl⟩
  | tail _ hstep ih =>
    obtain ⟨hholds, hvalue⟩ := hstep.agreeAt n
    exact ⟨hholds.trans ih.1, hvalue.trans ih.2⟩

end Condition

/-! ### Truths -/

namespace Truth

variable {parts : List Truth}

/-- The truth at a count, unless a remainder modulo zero is met. -/
def holds? (t : Truth) (n : Nat) : Option Bool :=
  match t with
  | always => some true
  | never => some false
  | .when c => c.holds? n

/-- Parts with the other constant value than the decisive one add nothing to a junction. -/
theorem junctionValue_filterMap_condition? {n : Nat} (h : ∀ p ∈ parts, p.condition? = none →
    p.holds? n = some !decisive) :
    junctionValue decisive ((parts.filterMap condition?).map (·.holds? n)) =
      junctionValue decisive (parts.map (·.holds? n)) := by
  rw [List.filterMap_eq_flatMap_toList]
  refine junctionValue_map_flatMap fun p hp ↦ ?_
  cases p with
  | «when» c => exact junctionValue_singleton _
  | always => exact (h _ hp rfl).symm
  | never => exact (h _ hp rfl).symm

/-- A part that never holds settles a conjunction before any other is looked at. -/
theorem holds?_conjunction (parts : List Truth) (n : Nat) :
    (conjunction parts).holds? n =
      if never ∈ parts then some false else junctionValue false (parts.map (·.holds? n)) := by
  rw [conjunction]
  simp only [List.contains_iff_mem]
  split
  next => rfl
  next hmem =>
    rw [← junctionValue_filterMap_condition? (n := n) fun p hp hconst ↦ ?_]
    · split
      next h => rw [h]; rfl
      next => exact (Condition.holds?_reduce _ n).trans (Condition.holds?_conj _ n)
    · rcases condition?_eq_none_iff.1 hconst with rfl | rfl
      · rfl
      · exact absurd hp hmem

/-- A disjunction that folds has the value of its parts, one after the other. -/
theorem holds?_of_disjunction {t : Truth} (h : disjunction parts = .ok t) (n : Nat) :
    t.holds? n = junctionValue true (parts.map (·.holds? n)) := by
  rw [disjunction] at h
  simp only [List.contains_iff_mem] at h
  split at h
  next => cases h
  next hmem =>
    rw [← junctionValue_filterMap_condition? (n := n) fun p hp hconst ↦ ?_]
    · split at h
      next hnil =>
        cases h
        rw [hnil]; rfl
      next =>
        cases h
        exact Condition.holds?_disj _ n
    · rcases condition?_eq_none_iff.1 hconst with rfl | rfl
      · exact absurd hp hmem
      · rfl

/-- **Folding is exact, whatever the conditions look like.** A conjunction holds when all of its
parts do; it is never true exactly when some part never is, and always exactly when all parts are. A
disjunction fails exactly when some part is always true, and otherwise holds when some part does.
Both have a value where their parts in turn come to one, and simplifying conditions, however often
and at whatever depth, does not change their values. -/
theorem folding_exact (parts : List Truth) :
    (∀ n, (conjunction parts).holds n ↔ ∀ p ∈ parts, p.holds n) ∧
    (conjunction parts = never ↔ never ∈ parts) ∧
    (conjunction parts = always ↔ ∀ p ∈ parts, p = always) ∧
    (∀ n, (conjunction parts).holds? n =
      if never ∈ parts then some false else junctionValue false (parts.map (·.holds? n))) ∧
    (disjunction parts = .error .alwaysTrue ↔ always ∈ parts) ∧
    (always ∉ parts → ∃ t, disjunction parts = .ok t ∧
      ∀ n, (t.holds n ↔ ∃ p ∈ parts, p.holds n) ∧
        t.holds? n = junctionValue true (parts.map (·.holds? n))) ∧
    ∀ c d, Relation.ReflTransGen Condition.Simplifies c d → ∀ n, Condition.AgreeAt n c d := by
  refine ⟨fun n ↦ ?_, conjunction_eq_never_iff, conjunction_eq_always_iff, holds?_conjunction parts,
    ?_, fun h ↦ ?_, fun c d ↦ Condition.agreeAt_of_reflTransGen⟩
  · rw [holds_conjunction, List.all_eq_true]
  · rw [disjunction_eq_error_iff]
    exact and_iff_right rfl
  · rcases hfold : disjunction parts with f | t
    · exact absurd (disjunction_eq_error_iff.1 hfold).2 h
    · refine ⟨t, rfl, fun n ↦ ⟨?_, holds?_of_disjunction hfold n⟩⟩
      rw [holds_of_disjunction hfold, List.any_eq_true]

/-- Parts with empty junctions, junctions of one member, and junctions in junctions of their own
kind; the last one has a remainder modulo zero. -/
def raggedParts : List Truth :=
  [.never, .when (.any []), .when (.any [.any [.countIs .eq 5], .countIs .eq 7]),
    .when (.all [.all [.countIs .gt 9]]), .when (.compare (.remainder 0) .eq 0)]

theorem folding_exact_ragged :
    (always ∉ raggedParts ∧ ∃ t, disjunction raggedParts = .ok t ∧
      ∀ n, (t.holds n ↔ ∃ p ∈ raggedParts, p.holds n) ∧
        t.holds? n = junctionValue true (raggedParts.map (·.holds? n))) ∧
    Relation.ReflTransGen Condition.Simplifies (.all [.all [.countIs .ne 0], .countIs .ne 1])
      (.countIs .gt 1) ∧
    ∀ n, Condition.AgreeAt n (.all [.all [.countIs .ne 0], .countIs .ne 1]) (.countIs .gt 1) := by
  have hparts : always ∉ raggedParts := by decide
  have hsteps : Relation.ReflTransGen Condition.Simplifies
      (.all [.all [.countIs .ne 0], .countIs .ne 1]) (.countIs .gt 1) :=
    .tail (.single (.conj _)) (.reduce (.all [.countIs .ne 0, .countIs .ne 1]))
  obtain ⟨-, -, -, -, -, hdisjunction, hsimplified⟩ := folding_exact raggedParts
  exact ⟨⟨hparts, hdisjunction hparts⟩, hsteps, hsimplified _ _ hsteps⟩

end Truth

end PluralForms
