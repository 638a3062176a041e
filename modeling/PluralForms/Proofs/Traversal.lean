import Mathlib.Data.List.Forall2

/-!
# Traversals that can fail

Reading and compiling are chains of steps, each of which may end the computation, and passes over
lists of items, each of which may fail. This file says once what it means for such a chain or pass
to succeed, and what it means for it to fail: a pass succeeds exactly when every item does, and it
fails with the fault of the **leftmost** item that has one.

Nothing here knows of plural rules.
-/

namespace PluralForms

/-- Of two lists that match item by item, the left has no item without a match. -/
theorem exists_of_forall₂_of_mem {α β : Type} {R : α → β → Prop} {l : List α} {bs : List β}
    (h : List.Forall₂ R l bs) {a : α} (ha : a ∈ l) : ∃ b ∈ bs, R a b := by
  induction h with
  | nil => cases ha
  | cons hab _ ih =>
    rcases List.mem_cons.1 ha with rfl | ha
    · exact ⟨_, List.mem_cons_self, hab⟩
    · obtain ⟨b, hb, hR⟩ := ih ha
      exact ⟨b, List.mem_cons_of_mem _ hb, hR⟩

/-- A list whose items all have a match has a matching list. -/
theorem exists_forall₂_of_forall_mem {α β : Type} {R : α → β → Prop} {l : List α}
    (h : ∀ a ∈ l, ∃ b, R a b) : ∃ bs, List.Forall₂ R l bs := by
  induction l with
  | nil => exact ⟨[], .nil⟩
  | cons a l ih =>
    obtain ⟨ha, hl⟩ := List.forall_mem_cons.1 h
    obtain ⟨b, hb⟩ := ha
    obtain ⟨bs, hbs⟩ := ih hl
    exact ⟨b :: bs, .cons hb hbs⟩

/-- Two lists that match item by item, with something in between for each two items that match. -/
theorem exists_forall₂_between {α β γ : Type} {R : α → γ → Prop} {P : β → γ → Prop}
    {Q : β → α → Prop} {as : List α} {cs : List γ} (h : List.Forall₂ R as cs)
    (hR : ∀ a c, R a c → ∃ b, P b c ∧ Q b a) :
    ∃ bs, List.Forall₂ P bs cs ∧ List.Forall₂ Q bs as := by
  induction h with
  | nil => exact ⟨[], .nil, .nil⟩
  | cons hac _ ih =>
    obtain ⟨b, hP, hQ⟩ := hR _ _ hac
    obtain ⟨bs, hPs, hQs⟩ := ih
    exact ⟨b :: bs, .cons hP hPs, .cons hQ hQs⟩

/-- Two lists that both match a third match each other. -/
theorem forall₂_of_forall₂_of_forall₂ {α β γ : Type} {P : α → β → Prop} {Q : α → γ → Prop}
    {R : γ → β → Prop} {as : List α} {bs : List β} {cs : List γ} (hP : List.Forall₂ P as bs)
    (hQ : List.Forall₂ Q as cs) (hR : ∀ a b c, P a b → Q a c → R c b) :
    List.Forall₂ R cs bs := by
  induction hP generalizing cs with
  | nil =>
    obtain rfl := List.forall₂_nil_left_iff.1 hQ
    exact .nil
  | cons hab _ ih =>
    obtain ⟨c, cs, hac, htail, rfl⟩ := List.forall₂_cons_left_iff.1 hQ
    exact .cons (hR _ _ _ hab hac) (ih htail)

/-- Matching may be judged differently as long as it comes out the same for the items at hand. -/
theorem forall₂_iff_of_forall_mem {α β : Type} {R S : α → β → Prop} {as : List α} {bs : List β}
    (h : ∀ a ∈ as, ∀ b, R a b ↔ S a b) : List.Forall₂ R as bs ↔ List.Forall₂ S as bs := by
  induction as generalizing bs with
  | nil => rw [List.forall₂_nil_left_iff, List.forall₂_nil_left_iff]
  | cons a as ih =>
    obtain ⟨ha, has⟩ := List.forall_mem_cons.1 h
    simp only [List.forall₂_cons_left_iff, ha, ih has]

/-- In an ordered list, the items before one of them are those that are less. -/
theorem exists_leftmost_iff_of_pairwise {α : Type} {r : α → α → Prop} {l : List α}
    (hl : l.Pairwise r) (hr : ∀ {a b}, r a b → ¬r b a) {P Q : α → Prop} :
    (∃ before a after, l = before ++ a :: after ∧ (∀ x ∈ before, P x) ∧ Q a) ↔
      ∃ a ∈ l, Q a ∧ ∀ x ∈ l, r x a → P x := by
  constructor
  · rintro ⟨before, a, after, rfl, hbefore, ha⟩
    refine ⟨a, by simp, ha, fun x hx hlt ↦ ?_⟩
    obtain ⟨-, htail, -⟩ := List.pairwise_append.1 hl
    rcases List.mem_append.1 hx with hx | hx
    · exact hbefore x hx
    · rcases List.mem_cons.1 hx with rfl | hx
      · exact absurd hlt (hr hlt)
      · exact absurd hlt (hr ((List.pairwise_cons.1 htail).1 x hx))
  · rintro ⟨a, ha, hQ, hP⟩
    obtain ⟨before, after, rfl⟩ := List.append_of_mem ha
    refine ⟨before, a, after, rfl, fun x hx ↦ hP x (by simp [hx]) ?_, hQ⟩
    exact (List.pairwise_append.1 hl).2.2 x hx a List.mem_cons_self

section Except

variable {ε α β : Type}

/-- A computation of which it is known what it comes to in each of the possible cases. -/
theorem eq_ok_iff_and_eq_error_iff {x : Except ε α} {P : α → Prop} {Q : ε → Prop}
    (hok : ∀ a, P a → x = .ok a) (herror : ∀ e, Q e → x = .error e)
    (hcases : (∃ a, P a) ∨ ∃ e, Q e) :
    (∀ a, x = .ok a ↔ P a) ∧ ∀ e, x = .error e ↔ Q e := by
  refine ⟨fun a ↦ ⟨fun h ↦ ?_, hok a⟩, fun e ↦ ⟨fun h ↦ ?_, herror e⟩⟩
  · rcases hcases with ⟨b, hb⟩ | ⟨e, he⟩
    · obtain rfl := Except.ok.inj ((hok b hb).symm.trans h)
      exact hb
    · exact nomatch (herror e he).symm.trans h
  · rcases hcases with ⟨a, ha⟩ | ⟨e', he'⟩
    · exact nomatch (hok a ha).symm.trans h
    · obtain rfl := Except.error.inj ((herror e' he').symm.trans h)
      exact he'

/-- A computation that comes to something or has a known fault fails with the known fault. -/
theorem eq_error_iff_of_ok_or {x : Except ε α} {Q : ε → Prop} (herror : ∀ e, Q e → x = .error e)
    (hcases : (∃ a, x = .ok a) ∨ ∃ e, Q e) (e : ε) : x = .error e ↔ Q e :=
  (eq_ok_iff_and_eq_error_iff (fun _ h ↦ h) herror hcases).2 e

/-- A chain succeeds when its first step does and the second succeeds on the outcome. -/
theorem bind_eq_ok_iff {x : Except ε α} {f : α → Except ε β} {b : β} :
    x >>= f = .ok b ↔ ∃ a, x = .ok a ∧ f a = .ok b := by
  cases x with
  | error e => simp [bind, Except.bind]
  | ok a => simp [bind, Except.bind]

/-- A chain that starts with a check succeeds when the check does and the rest succeeds. -/
theorem bind_unit_eq_ok_iff {x : Except ε Unit} {f : Unit → Except ε β} {b : β} :
    x >>= f = .ok b ↔ x = .ok () ∧ f () = .ok b :=
  bind_eq_ok_iff.trans ⟨fun ⟨_, hx, hb⟩ ↦ ⟨hx, hb⟩, fun ⟨hx, hb⟩ ↦ ⟨(), hx, hb⟩⟩

/-- A chain fails in its first step or in the second. -/
theorem bind_eq_error_iff {x : Except ε α} {f : α → Except ε β} {e : ε} :
    x >>= f = .error e ↔ x = .error e ∨ ∃ a, x = .ok a ∧ f a = .error e := by
  cases x with
  | error e => simp [bind, Except.bind]
  | ok a => simp [bind, Except.bind]

/-- A chain that starts with a check fails in the check or after it. -/
theorem bind_unit_eq_error_iff {x : Except ε Unit} {f : Unit → Except ε β} {e : ε} :
    x >>= f = .error e ↔ x = .error e ∨ x = .ok () ∧ f () = .error e :=
  bind_eq_error_iff.trans (or_congr_right
    ⟨fun ⟨_, hx, he⟩ ↦ ⟨hx, he⟩, fun ⟨hx, he⟩ ↦ ⟨(), hx, he⟩⟩)

/-- A chain that ends with an operation that cannot fail succeeds when its first step does. -/
theorem bind_pure_eq_ok_iff {x : Except ε α} {f : α → β} {b : β} :
    (x >>= fun a ↦ pure (f a)) = .ok b ↔ ∃ a, x = .ok a ∧ f a = b := by
  simp only [bind_eq_ok_iff, pure, Except.pure, Except.ok.injEq]

/-- And it fails when its first step does. -/
theorem bind_pure_eq_error_iff {x : Except ε α} {f : α → β} {e : ε} :
    (x >>= fun a ↦ pure (f a)) = .error e ↔ x = .error e := by
  simp [bind_eq_error_iff, pure, Except.pure]

theorem map_eq_ok_iff {x : Except ε α} {f : α → β} {b : β} :
    x.map f = .ok b ↔ ∃ a, x = .ok a ∧ f a = b := by
  cases x <;> simp [Except.map]

theorem map_eq_error_iff {x : Except ε α} {f : α → β} {e : ε} :
    x.map f = .error e ↔ x = .error e := by
  cases x <;> simp [Except.map]

/-- **A pass succeeds exactly when every item does**, and its outcome lists theirs. -/
theorem mapM_eq_ok_iff {f : α → Except ε β} {l : List α} {bs : List β} :
    l.mapM f = .ok bs ↔ List.Forall₂ (fun a b ↦ f a = .ok b) l bs := by
  induction l generalizing bs with
  | nil =>
    rw [List.mapM_nil, List.forall₂_nil_left_iff]
    exact ⟨fun h ↦ by cases h; rfl, fun h ↦ by rw [h]; rfl⟩
  | cons a l ih =>
    rw [List.mapM_cons, bind_eq_ok_iff, List.forall₂_cons_left_iff]
    constructor
    · rintro ⟨b, hb, h⟩
      obtain ⟨bs', hbs', h⟩ := bind_eq_ok_iff.1 h
      cases h
      exact ⟨b, bs', hb, ih.1 hbs', rfl⟩
    · rintro ⟨b, bs', hb, hbs', rfl⟩
      exact ⟨b, hb, bind_eq_ok_iff.2 ⟨bs', ih.2 hbs', rfl⟩⟩

/-- **A pass fails with the fault of the leftmost item that has one.** -/
theorem mapM_eq_error_iff {f : α → Except ε β} {l : List α} {e : ε} :
    l.mapM f = .error e ↔ ∃ before a after, l = before ++ a :: after ∧
      (∀ x ∈ before, ∃ b, f x = .ok b) ∧ f a = .error e := by
  induction l with
  | nil => simp [pure, Except.pure]
  | cons a l ih =>
    rw [List.mapM_cons, bind_eq_error_iff]
    constructor
    · rintro (h | ⟨b, hb, h⟩)
      · exact ⟨[], a, l, rfl, by simp, h⟩
      · rcases bind_eq_error_iff.1 h with h | ⟨bs, -, h⟩
        · obtain ⟨before, x, after, rfl, hbefore, hx⟩ := ih.1 h
          refine ⟨a :: before, x, after, rfl, ?_, hx⟩
          intro y hy
          rcases List.mem_cons.1 hy with rfl | hy
          · exact ⟨b, hb⟩
          · exact hbefore y hy
        · cases h
    · rintro ⟨before, x, after, hl, hbefore, hx⟩
      cases before with
      | nil =>
        obtain ⟨rfl, rfl⟩ := List.cons.inj hl
        exact .inl hx
      | cons y before =>
        obtain ⟨rfl, rfl⟩ := List.cons.inj hl
        obtain ⟨b, hb⟩ := hbefore a List.mem_cons_self
        refine .inr ⟨b, hb, bind_eq_error_iff.2 (.inl (ih.2 ⟨before, x, after, rfl, ?_, hx⟩))⟩
        exact fun y hy ↦ hbefore y (List.mem_cons_of_mem _ hy)

/-- Passes over the items of lists, one list after the other, fail as one pass over all items. -/
theorem mapM_mapM_eq_error_iff {f : α → Except ε β} {ls : List (List α)} {e : ε} :
    ls.mapM (fun l ↦ l.mapM f) = .error e ↔ ls.flatten.mapM f = .error e := by
  induction ls with
  | nil => simp [pure, Except.pure]
  | cons l ls ih =>
    rw [List.mapM_cons, List.flatten_cons, List.mapM_append, bind_eq_error_iff, bind_eq_error_iff]
    refine or_congr_right (exists_congr fun bs ↦ and_congr_right fun _ ↦ ?_)
    rw [bind_eq_error_iff, bind_eq_error_iff, ih]
    exact or_congr_right ⟨fun ⟨_, _, h⟩ ↦ (nomatch h), fun ⟨_, _, h⟩ ↦ (nomatch h)⟩

/-- A pass that only checks succeeds exactly when every item passes. -/
theorem forM_eq_ok_iff {f : α → Except ε Unit} {l : List α} :
    l.forM f = .ok () ↔ ∀ a ∈ l, f a = .ok () := by
  rw [List.forM_eq_forM]
  induction l with
  | nil => simp [pure, Except.pure]
  | cons a l ih =>
    rw [List.forM_cons, bind_eq_ok_iff, List.forall_mem_cons, ← ih]
    exact ⟨fun ⟨_, ha, hl⟩ ↦ ⟨ha, hl⟩, fun ⟨ha, hl⟩ ↦ ⟨(), ha, hl⟩⟩

/-- A pass that only checks fails as any other. -/
theorem forM_eq_error_iff {f : α → Except ε Unit} {l : List α} {e : ε} :
    l.forM f = .error e ↔ ∃ before a after, l = before ++ a :: after ∧
      (∀ x ∈ before, f x = .ok ()) ∧ f a = .error e := by
  have hmapM : l.forM f = .error e ↔ l.mapM f = .error e := by
    rw [List.forM_eq_forM]
    induction l with
    | nil => simp [pure, Except.pure]
    | cons a l ih =>
      rw [List.forM_cons, List.mapM_cons, bind_eq_error_iff, bind_eq_error_iff]
      refine or_congr_right (exists_congr fun _ ↦ and_congr_right fun _ ↦ ?_)
      rw [bind_eq_error_iff, ih]
      exact (or_iff_left fun ⟨_, _, h⟩ ↦ nomatch h).symm
  rw [hmapM, mapM_eq_error_iff]
  refine exists₃_congr fun before a after ↦ and_congr_right fun _ ↦ and_congr_left fun _ ↦ ?_
  exact forall₂_congr fun x _ ↦ ⟨fun ⟨_, h⟩ ↦ h, fun h ↦ ⟨(), h⟩⟩

end Except

/-- A pass that may come to nothing comes to something exactly when every item does. -/
theorem mapM_eq_some_iff {α β : Type} {f : α → Option β} {l : List α} {bs : List β} :
    l.mapM f = some bs ↔ List.Forall₂ (fun a b ↦ f a = some b) l bs := by
  induction l generalizing bs with
  | nil => simp [eq_comm]
  | cons a l ih =>
    simp only [List.mapM_cons, Option.bind_eq_bind, Option.bind_eq_some_iff, Option.pure_def,
      Option.some.injEq, List.forall₂_cons_left_iff, ih]
    constructor
    · rintro ⟨b, hb, bs', hbs', rfl⟩
      exact ⟨b, bs', hb, hbs', rfl⟩
    · rintro ⟨b, bs', hb, hbs', rfl⟩
      exact ⟨b, hb, bs', hbs', rfl⟩

/-- A pass comes to something exactly when every item does. -/
theorem isSome_mapM_iff {α β : Type} {f : α → Option β} {l : List α} :
    (l.mapM f).isSome = true ↔ ∀ a ∈ l, (f a).isSome = true := by
  induction l with
  | nil => simp
  | cons a l ih =>
    rw [List.forall_mem_cons, ← ih, List.mapM_cons]
    cases f a with
    | none => simp
    | some b => cases l.mapM f <;> simp

/-- Items that are encoded one by one are decoded one by one. -/
theorem mapM_map_eq_some {α β : Type} {encode : α → β} {decode : β → Option α} {l : List α}
    (h : ∀ a ∈ l, decode (encode a) = some a) : (l.map encode).mapM decode = some l := by
  rw [mapM_eq_some_iff, List.forall₂_map_left_iff]
  exact List.forall₂_same.2 h

end PluralForms
