import PluralForms.Selector
import PluralForms.Proofs.Condition.Canonical
import PluralForms.Proofs.Rule.Grammar

/-!
# The conditions of rules are canonical

A relation that was read is valid: it has a value, and its modulus is not zero. Compiling keeps it
so. What a valid relation amounts to is a canonical condition, if it is a condition at all, and
folding, reduction and negation add nothing else. So every condition in an assembled selector is
canonical (`Selector.canonical_of_assemble`), and in particular well-formed.
-/

namespace PluralForms

/-! ### Relations -/

namespace Relation

variable {r : Relation}

/-- The operand of a valid relation has no remainder modulo zero. -/
theorem Valid.isDefined_operand (h : r.Valid) : r.operand.IsDefined := by
  rw [operand]
  cases hmodulus : r.modulus with
  | none => trivial
  | some m => exact (h.modulus m hmodulus).1

/-- Whichever junction a relation takes, it is flat if its parts are. -/
theorem flat_junction {P : Operand → Prop} {parts : List Condition} (hne : parts ≠ [])
    (h : ∀ p ∈ parts, p.Flat P) : (r.junction parts).Flat P := by
  rw [junction]
  split
  · exact Condition.flat_conj hne h
  · exact Condition.flat_disj hne h

theorem Valid.canonical_spanCondition (h : r.Valid) (s : Span) : (r.spanCondition s).Canonical := by
  have hcompare : ∀ o v, (Condition.compare r.operand o v).Flat Operand.IsDefined :=
    fun o v ↦ .compare h.isDefined_operand
  cases s with
  | single v => exact hcompare _ v
  | range first last =>
    rw [spanCondition]
    split
    · exact flat_junction (List.cons_ne_nil _ _) (by simp [valueCondition, hcompare])
    · split
      · exact Condition.flat_disj (List.cons_ne_nil _ _) (by simp [hcompare])
      · exact Condition.flat_conj (List.cons_ne_nil _ _) (by simp [hcompare])

/-- **The condition of a valid relation is canonical.** -/
theorem Valid.canonical_of_compile (h : r.Valid) {c : Condition} (hc : r.compile = .when c) :
    c.Canonical := by
  rw [compile] at hc
  split at hc
  next => split at hc <;> cases hc
  next =>
    obtain rfl := Truth.when.inj hc
    refine flat_junction (by simpa using h.values_ne_nil) ?_
    rintro _ hp
    obtain ⟨s, -, rfl⟩ := List.mem_map.1 hp
    exact h.canonical_spanCondition s

end Relation

/-! ### Folding -/

namespace Truth

variable {parts : List Truth} {c : Condition}

theorem mem_filterMap_condition? : c ∈ parts.filterMap condition? ↔ .when c ∈ parts := by
  rw [List.mem_filterMap]
  constructor
  · rintro ⟨p, hp, hc⟩
    cases p with
    | «when» d =>
      obtain rfl := Option.some.inj hc
      exact hp
    | _ => cases hc
  · exact fun h ↦ ⟨.when c, h, rfl⟩

/-- A conjunction of canonical conditions is canonical. -/
theorem canonical_of_conjunction (h : ∀ d, .when d ∈ parts → d.Canonical)
    (hc : conjunction parts = .when c) : c.Canonical := by
  rw [conjunction] at hc
  split at hc
  next => cases hc
  next =>
    split at hc
    next => cases hc
    next hne =>
      obtain rfl := Truth.when.inj hc
      refine Condition.canonical_reduce (Condition.flat_conj hne fun d hd ↦ ?_)
      exact h d (mem_filterMap_condition?.1 hd)

theorem canonical_of_disjunction (h : ∀ d, .when d ∈ parts → d.Canonical)
    (hc : disjunction parts = .ok (.when c)) : c.Canonical := by
  rw [disjunction] at hc
  split at hc
  next => cases hc
  next =>
    split at hc
    next => cases hc
    next hne =>
      obtain rfl := Truth.when.inj (Except.ok.inj hc)
      refine Condition.flat_disj hne fun d hd ↦ ?_
      exact h d (mem_filterMap_condition?.1 hd)

end Truth

/-! ### Rules -/

namespace Rule

/-- **The condition of a valid rule is canonical.** -/
theorem Valid.canonical_of_compile {rule : Rule} (h : rule.Valid) {c : Condition}
    (hc : rule.compile = .ok (.when c)) : c.Canonical := by
  refine Truth.canonical_of_disjunction (fun d hd ↦ ?_) hc
  obtain ⟨group, hgroup, hd⟩ := List.mem_map.1 hd
  refine Truth.canonical_of_conjunction (fun e he ↦ ?_) hd
  obtain ⟨r, hr, he⟩ := List.mem_map.1 he
  exact (h.relations group hgroup r hr).canonical_of_compile he

/-- **The condition of a text is canonical.** -/
theorem canonical_of_compileText {text : String} {c : Condition}
    (h : compileText text = .ok (.when c)) : c.Canonical := by
  obtain ⟨rule, hread, hc⟩ := bind_eq_ok_iff.1 h
  exact (read_eq_ok_iff.1 hread).valid.canonical_of_compile hc

end Rule

/-! ### Selectors -/

/-- **The conditions of a selector are canonical** when it was made of canonical ones. -/
theorem Selector.canonical_of_assemble {cs : List Condition} (h : ∀ c ∈ cs, c.Canonical)
    {s : Selector} (hs : Selector.assemble cs = .ok s) : ∀ c ∈ s.conditions, c.Canonical := by
  match cs, h, hs with
  | [], _, hs =>
    cases hs
    exact nofun
  | [c], h, hs =>
    obtain ⟨d, hd, rfl⟩ := assemble_singleton_eq_ok_iff.1 hs
    have hcanonical := Condition.canonical_of_negate (h c List.mem_cons_self) hd
    simpa [conditions] using hcanonical
  | c :: c' :: cs, h, hs =>
    cases hs
    intro d hd
    obtain ⟨e, he, rfl⟩ := List.mem_map.1 hd
    exact Condition.canonical_reduce (h e he)

end PluralForms
