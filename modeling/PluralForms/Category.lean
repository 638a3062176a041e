/-!
# Plural categories

The six categories of CLDR plural rules in their canonical order, ending in `other`, which catches
every count that no rule claims.
-/

namespace PluralForms

/-- A plural category. The constructors are in canonical order. -/
inductive Category where
  | zero
  | one
  | two
  | few
  | many
  | other
deriving DecidableEq, Repr, Inhabited

namespace Category

/-- The place of a category in the canonical order. -/
def rank : Category → Nat
  | zero => 0
  | one => 1
  | two => 2
  | few => 3
  | many => 4
  | other => 5

/-- Every category, in canonical order. -/
def all : List Category :=
  [zero, one, two, few, many, other]

/-- The tag that names a category in CLDR data. -/
def text : Category → String
  | zero => "zero"
  | one => "one"
  | two => "two"
  | few => "few"
  | many => "many"
  | other => "other"

/-- The category with the given tag, which has to be spelled exactly. -/
def ofText? (tag : String) : Option Category :=
  all.find? (·.text == tag)

/-- Each category is read from its own name. -/
theorem ofText?_text (c : Category) : ofText? c.text = some c := by
  cases c <;> rfl

/-- The category that needs no rule. -/
def isCatchAll (c : Category) : Bool :=
  c == other

instance : Ord Category where
  compare a b := compare a.rank b.rank

theorem compare_eq (a b : Category) : compare a b = compare a.rank b.rank := rfl

/-- The canonical order tells any two categories apart. -/
theorem rank_injective {a b : Category} (h : a.rank = b.rank) : a = b := by
  cases a <;> cases b <;> simp_all [rank]

instance : Std.TransOrd Category where
  eq_swap := by intro a b; simpa only [compare_eq] using Std.OrientedOrd.eq_swap
  isLE_trans := by intro a b c; simpa only [compare_eq] using Std.TransOrd.isLE_trans

instance : Std.LawfulEqOrd Category where
  compare_self := Std.ReflOrd.compare_self
  eq_of_compare {_ _} h := rank_injective (Std.LawfulEqOrd.eq_of_compare h)

/-- The items in the canonical order of their categories; items of one category keep their order. -/
def sortBy {α : Type} (category : α → Category) (items : List α) : List α :=
  all.flatMap fun c ↦ items.filter (category · == c)

/-- The categories in canonical order. -/
def sort (cs : List Category) : List Category :=
  sortBy id cs

/-- Strictly increasing in the canonical order and ending in the catch-all: the form of the list of
categories of a language. -/
def isCanonical (cs : List Category) : Bool :=
  decide (cs.Pairwise (·.rank < ·.rank)) && cs.getLast? == some other

end Category

end PluralForms
