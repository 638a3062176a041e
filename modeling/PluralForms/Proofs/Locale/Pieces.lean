import PluralForms.Locale.Id

/-!
# The pieces of a locale id

An id is matched against a pattern with repetitions and optional parts, so a part of the pattern may
have to give up what it could take. It turns out that none does so in the end: **an id can be read
piece by piece** (`read?_eq_ofPieces?`). Cut the text at every separator. The first piece has to be
a language, the piece after it is the script if it can be, and the piece after these is the
territory if it can be.

What carries the proof is that nothing after a part of the pattern matches unless a piece of the
text ends there (`Stops`). So a part takes a whole piece or fails (`TakesPiece`), however it is made
up: `pt-PTX` and `pt-Latin` have a territory and a script at the start of a piece, and both are
given up. Where a piece does end, the rest of the pattern always matches (`Accepts`), so an optional
part that can be taken is taken for good.
-/

namespace PluralForms.LocaleId

open Pattern

/-! ### Kinds of pieces -/

/-- Two or three small letters. -/
def isLanguage (piece : List Char) : Bool :=
  (piece.length == 2 || piece.length == 3) && piece.all Char.isLower

/-- A capital and three small letters. -/
def isScript : List Char → Bool
  | c :: rest => c.isUpper && rest.length == 3 && rest.all Char.isLower
  | [] => false

/-- Two capitals or three digits. -/
def isTerritory (piece : List Char) : Bool :=
  (piece.length == 2 && piece.all Char.isUpper) || (piece.length == 3 && piece.all Char.isDigit)

/-- What is between the separators of a text. -/
def pieces (text : String) : List (List Char) :=
  text.toList.splitOnP isSeparator

/-- The id that pieces make up: a language, the script if it comes next, and the territory if it
comes next after these. -/
def ofPieces? (pieces : List (List Char)) : Option LocaleId :=
  let script := pieces[1]?.filter isScript
  let territory := pieces[if script.isSome then 2 else 1]?.filter isTerritory
  (pieces.head?.filter isLanguage).map fun language ↦
    { language := String.ofList language
      script := script.map String.ofList
      territory := territory.map String.ofList }

theorem isSeparator_eq_false {c : Char} (h : (c.isLower || c.isUpper || c.isDigit) = true) :
    isSeparator c = false := by
  refine Bool.eq_false_iff.2 fun hc ↦ ?_
  rcases Bool.or_eq_true_iff.1 hc with hc | hc
  · rw [beq_iff_eq.1 hc] at h
    exact absurd h (by decide)
  · rw [beq_iff_eq.1 hc] at h
    exact absurd h (by decide)

/-! ### Where pieces end -/

/-- A piece ends before the text: it is empty or begins with a separator. -/
def atBoundary : List Char → Bool
  | [] => true
  | c :: _ => isSeparator c

/-- The piece that a text begins with. -/
def firstPiece (text : List Char) : List Char :=
  text.takeWhile (!isSeparator ·)

/-- What comes after that piece. -/
def afterPiece (text : List Char) : List Char :=
  text.dropWhile (!isSeparator ·)

/-- The pieces after the end of a piece. -/
def following : List Char → List (List Char)
  | [] => []
  | _ :: text => text.splitOnP isSeparator

theorem firstPiece_append_afterPiece (text : List Char) :
    firstPiece text ++ afterPiece text = text :=
  List.takeWhile_append_dropWhile

/-- What comes after a piece begins where a piece ends. -/
theorem atBoundary_afterPiece (text : List Char) : atBoundary (afterPiece text) = true := by
  rcases h : afterPiece text with _ | ⟨c, rest⟩
  · rfl
  · have hc := List.head?_dropWhile_not (!isSeparator ·) text
    rw [← afterPiece, h] at hc
    simpa [atBoundary] using hc

/-- Where a piece ends, the next is empty. -/
theorem firstPiece_of_atBoundary {text : List Char} (h : atBoundary text = true) :
    firstPiece text = [] ∧ afterPiece text = text := by
  rcases text with _ | ⟨c, text⟩
  · exact ⟨rfl, rfl⟩
  · have hc : isSeparator c = true := h
    simp [firstPiece, afterPiece, hc]

theorem firstPiece_cons {c : Char} (h : isSeparator c = false) (text : List Char) :
    firstPiece (c :: text) = c :: firstPiece text ∧ afterPiece (c :: text) = afterPiece text := by
  simp [firstPiece, afterPiece, h]

/-- The pieces of a text are the first and those after its end. -/
theorem splitOnP_eq_cons (text : List Char) :
    text.splitOnP isSeparator = firstPiece text :: following (afterPiece text) := by
  have hpiece : ∀ c ∈ firstPiece text, isSeparator c = false := fun c hc ↦ by
    simpa using List.all_eq_true.1 List.all_takeWhile c hc
  have hend := atBoundary_afterPiece text
  conv => lhs; rw [← firstPiece_append_afterPiece text]
  rcases hafter : afterPiece text with _ | ⟨c, rest⟩
  · rw [List.append_nil, List.splitOnP_eq_singleton hpiece, following]
  · have hc : isSeparator c = true := by rwa [hafter] at hend
    rw [List.splitOnP_append_cons _ _ hc, List.splitOnP_eq_singleton hpiece, following]
    rfl

/-! ### Parts that take a piece -/

/-- What is to be matched next has no match inside a piece. -/
def Stops {α : Type} (next : Captures Part → List Char → Option α) : Prop :=
  ∀ captures text, atBoundary text = false → next captures text = none

/-- The pattern takes a whole piece of the given kind, if what is to be matched next has no match
inside a piece. -/
structure TakesPiece (p : Pattern Part) (kind : List Char → Bool) : Prop where
  matchThen_eq : ∀ {α : Type} {next : Captures Part → List Char → Option α}, Stops next →
    ∀ captures text, p.matchThen next captures text =
      if kind (firstPiece text) then next captures (afterPiece text) else none

/-- The empty pattern takes the empty piece. -/
theorem takesPiece_empty : TakesPiece .empty List.isEmpty := by
  refine ⟨fun {α next} hnext captures text ↦ ?_⟩
  rw [matchThen]
  by_cases h : atBoundary text = true
  · obtain ⟨hpiece, hafter⟩ := firstPiece_of_atBoundary h
    simp [hpiece, hafter]
  · rcases text with _ | ⟨c, text⟩
    · exact absurd rfl h
    · have hc : isSeparator c = false := by simpa [atBoundary] using h
      simp [hnext captures (c :: text) hc, firstPiece_cons hc]

/-- A character, none of which are separators, and then a piece. -/
theorem TakesPiece.cons {p : Pattern Part} {kind : List Char → Bool} (hp : TakesPiece p kind)
    {first : Char → Bool} (hfirst : ∀ c, first c = true → isSeparator c = false) :
    TakesPiece (.seq (.one first) p) fun
      | [] => false
      | c :: rest => first c && kind rest := by
  refine ⟨fun {α next} hnext captures text ↦ ?_⟩
  rcases text with _ | ⟨c, text⟩
  · rfl
  · rw [matchThen, matchThen, hp.matchThen_eq hnext]
    by_cases hc : isSeparator c = true
    · have hno : first c = false := by
        refine Bool.eq_false_iff.2 fun hyes ↦ ?_
        rw [hfirst c hyes] at hc
        exact Bool.false_ne_true hc
      simp [hno, firstPiece, hc]
    · obtain ⟨hpiece, hafter⟩ := firstPiece_cons (by simpa using hc) text
      rw [hpiece, hafter]
      cases h : first c <;> simp [h]

/-- Alternatives take the pieces of either kind, since a piece is taken as a whole. -/
theorem TakesPiece.orElse {p q : Pattern Part} {kind kind' : List Char → Bool}
    (hp : TakesPiece p kind) (hq : TakesPiece q kind') :
    TakesPiece (.orElse p q) fun piece ↦ kind piece || kind' piece := by
  refine ⟨fun {α next} hnext captures text ↦ ?_⟩
  rw [matchThen, hp.matchThen_eq hnext, hq.matchThen_eq hnext]
  -- if both can take the piece, the second does no better than the first
  by_cases h : kind (firstPiece text) = true
  · by_cases h' : kind' (firstPiece text) = true <;> simp [h, h']
  · simp [h]

theorem TakesPiece.congr {p : Pattern Part} {kind kind' : List Char → Bool}
    (hp : TakesPiece p kind) (h : ∀ piece, kind' piece = kind piece) : TakesPiece p kind' := by
  rwa [funext h]

/-- Optional characters of a kind take a piece of them that is short enough. -/
theorem takesPiece_upTo {kind : Char → Bool} (h : ∀ c, kind c = true → isSeparator c = false)
    (most : Nat) : TakesPiece (.upTo (.one kind) most) fun piece ↦
      decide (piece.length ≤ most) && piece.all kind := by
  induction most with
  | zero =>
    refine takesPiece_empty.congr fun piece ↦ ?_
    rcases piece with _ | ⟨c, piece⟩ <;> simp
  | succ most ih =>
    refine ((ih.cons h).orElse takesPiece_empty).congr fun piece ↦ ?_
    rcases piece with _ | ⟨c, piece⟩
    · simp
    · simp [Bool.and_left_comm]

/-- **A bounded repetition takes whole pieces within its bounds.** -/
theorem takesPiece_repeated {kind : Char → Bool} (h : ∀ c, kind c = true → isSeparator c = false)
    (least more : Nat) : TakesPiece (.repeated (.one kind) least more) fun piece ↦
      decide (least ≤ piece.length) && decide (piece.length ≤ least + more) && piece.all kind := by
  induction least with
  | zero => exact (takesPiece_upTo h more).congr fun piece ↦ by simp
  | succ least ih =>
    refine (ih.cons h).congr fun piece ↦ ?_
    rcases piece with _ | ⟨c, piece⟩
    · simp
    · have hlength : piece.length + 1 ≤ least + 1 + more ↔ piece.length ≤ least + more := by omega
      simp [hlength, Bool.and_left_comm]

/-- A named part keeps the piece. -/
theorem TakesPiece.matchThen_group {p : Pattern Part} {kind : List Char → Bool}
    (hp : TakesPiece p kind) {α : Type} {next : Captures Part → List Char → Option α}
    (hnext : Stops next) (name : Part) (captures : Captures Part) (text : List Char) :
    (Pattern.group name p).matchThen next captures text =
      if kind (firstPiece text) then next ((name, firstPiece text) :: captures) (afterPiece text)
      else none := by
  have htaken : text.take (text.length - (afterPiece text).length) = firstPiece text := by
    have happend := firstPiece_append_afterPiece text
    generalize firstPiece text = piece, afterPiece text = after at happend ⊢
    rw [← happend]
    simp
  rw [matchThen, hp.matchThen_eq fun captures rest hrest ↦ hnext _ rest hrest, htaken]

theorem takesPiece_language : TakesPiece (.repeated (.one Char.isLower) 2 1) isLanguage := by
  refine (takesPiece_repeated (fun c hc ↦ isSeparator_eq_false (by simp [hc])) 2 1).congr
    fun piece ↦ ?_
  rw [isLanguage]
  congr 1
  rw [Bool.eq_iff_iff]
  simp
  omega

theorem takesPiece_script :
    TakesPiece (.seq (.one Char.isUpper) (.repeated (.one Char.isLower) 3 0)) isScript := by
  refine ((takesPiece_repeated (fun c hc ↦ isSeparator_eq_false (by simp [hc])) 3 0).cons
    fun c hc ↦ isSeparator_eq_false (by simp [hc])).congr fun piece ↦ ?_
  rcases piece with _ | ⟨c, piece⟩
  · rfl
  · have hlength : piece.length = 3 ↔ 3 ≤ piece.length ∧ piece.length ≤ 3 := by omega
    rw [isScript, Bool.eq_iff_iff]
    simp [hlength, and_assoc]

theorem takesPiece_territory :
    TakesPiece (.orElse (.repeated (.one Char.isUpper) 2 0) (.repeated (.one Char.isDigit) 3 0))
      isTerritory := by
  refine ((takesPiece_repeated (fun c hc ↦ isSeparator_eq_false (by simp [hc])) 2 0).orElse
    (takesPiece_repeated (fun c hc ↦ isSeparator_eq_false (by simp [hc])) 3 0)).congr fun piece ↦ ?_
  have htwo : piece.length = 2 ↔ 2 ≤ piece.length ∧ piece.length ≤ 2 := by omega
  have hthree : piece.length = 3 ↔ 3 ≤ piece.length ∧ piece.length ≤ 3 := by omega
  rw [isTerritory, Bool.eq_iff_iff]
  simp [htwo, hthree]

/-! ### Optional parts -/

/-- What is to be matched next has a match exactly where a piece ends, and what it captures depends
on the pieces that follow. -/
def Accepts (next : Captures Part → List Char → Option (Captures Part))
    (result : Captures Part → List (List Char) → Captures Part) : Prop :=
  ∀ captures text,
    next captures text = if atBoundary text then some (result captures (following text)) else none

theorem Accepts.stops {next : Captures Part → List Char → Option (Captures Part)}
    {result : Captures Part → List (List Char) → Captures Part} (h : Accepts next result) :
    Stops next := fun captures text htext ↦ by rw [h, htext]; rfl

/-- Take the next piece for the named part if it is of the kind. -/
def takeIf (name : Part) (kind : List Char → Bool)
    (result : Captures Part → List (List Char) → Captures Part) (captures : Captures Part)
    (pieces : List (List Char)) : Captures Part :=
  match pieces.head?.filter kind with
  | some piece => result ((name, piece) :: captures) pieces.tail
  | none => result captures pieces

/-- **An optional part takes the next piece whenever it can.** Skipping it is never better, since
the rest matches after the piece. -/
theorem Accepts.optional {next : Captures Part → List Char → Option (Captures Part)}
    {result : Captures Part → List (List Char) → Captures Part} (hnext : Accepts next result)
    {p : Pattern Part} {kind : List Char → Bool} (hp : TakesPiece p kind) (name : Part) :
    Accepts ((Pattern.optional (.seq (.one isSeparator) (.group name p))).matchThen next)
      (takeIf name kind result) := by
  intro captures text
  rw [Pattern.optional, matchThen, matchThen, matchThen]
  rcases text with _ | ⟨c, text⟩
  · simp [matchThen, hnext captures, atBoundary, following, takeIf]
  · rw [matchThen, hp.matchThen_group hnext.stops, hnext, hnext, atBoundary_afterPiece, atBoundary,
      following, takeIf, splitOnP_eq_cons]
    cases isSeparator c <;> cases h : kind (firstPiece text) <;> simp [Option.filter, h]

/-- **The end of the pattern is where a piece ends**, and it captures nothing. -/
theorem accepts_end : Accepts ((Pattern.orElse .atEnd (.one isSeparator)).matchThen
    fun captures _ ↦ some captures) fun captures _ ↦ captures := by
  intro captures text
  rcases text with _ | ⟨c, text⟩
  · rfl
  · rw [matchThen, matchThen, matchThen, atBoundary]
    rfl

/-- Taking the next piece if it is of the kind, and then doing nothing more. -/
theorem takeIf_fst (name : Part) (kind : List Char → Bool) (captures : Captures Part)
    (pieces : List (List Char)) : takeIf name kind (fun captures _ ↦ captures) captures pieces =
      (pieces[0]?.filter kind).toList.map (name, ·) ++ captures := by
  rw [takeIf, List.head?_eq_getElem?]
  rcases pieces[0]?.filter kind with _ | piece <;> rfl

/-- **An id is read piece by piece.** -/
theorem read?_eq_ofPieces? (text : String) : read? text = ofPieces? (pieces text) := by
  have hrest := (accepts_end.optional takesPiece_territory .territory).optional takesPiece_script
    .script
  have hmatch : pattern.match? text = if isLanguage (firstPiece text.toList) then
      some (takeIf .script isScript (takeIf .territory isTerritory fun captures _ ↦ captures)
        [(.language, firstPiece text.toList)] (following (afterPiece text.toList))) else none := by
    rw [match?, pattern, pattern.small, pattern.capital, pattern.digit, pattern.separator,
      matchThen_seq, matchThen_seq, matchThen_seq, takesPiece_language.matchThen_group hrest.stops,
      hrest, atBoundary_afterPiece]
    rfl
  rw [read?, hmatch, pieces, splitOnP_eq_cons, ofPieces?]
  generalize firstPiece text.toList = first, following (afterPiece text.toList) = rest
  by_cases h : isLanguage first = true
  · rw [if_pos h, takeIf, List.head?_cons, Option.filter_some, if_pos h, List.getElem?_cons_succ,
      List.head?_eq_getElem?]
    rcases rest[0]?.filter isScript with _ | script
    · show _ = some (LocaleId.mk _ none ((rest[0]?.filter isTerritory).map String.ofList))
      simp only [takeIf_fst]
      rcases rest[0]?.filter isTerritory with _ | territory <;> rfl
    · show _ = some (LocaleId.mk _ _ ((rest[1]?.filter isTerritory).map String.ofList))
      simp only [takeIf_fst, List.getElem?_tail]
      rcases rest[1]?.filter isTerritory with _ | territory <;> rfl
  · rw [if_neg h, List.head?_cons, Option.filter_some, if_neg h]
    rfl

end PluralForms.LocaleId
