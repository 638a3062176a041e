import Mathlib.Data.List.Basic
import PluralForms.Document.Html

/-!
# Pages cut at their tags

A page is cut at every `<`, and what follows at the first `>`: this gives a list of tags, each with
the text up to the next. Nothing else is known about pages here. In particular a tag may hold any
characters but these two, and texts are as they stand in the page, with their escapes.

What is put together from tags and texts without a `<` in them is cut into the same tags and texts
(`cut_written`). Escaped texts have no `<`, and no information is lost in them
(`unescape_htmlEscape`).
-/

namespace PluralForms.Html

/-! ### Sections of lists -/

section Sections

variable {α β : Type} {p : α → Bool}

/-- What stands behind each separator, up to the next one. -/
def sections (p : α → Bool) (l : List α) : List (List α) :=
  (l.splitOnP p).tail

theorem sections_eq_nil {l : List α} (h : ∀ a ∈ l, p a = false) : sections p l = [] := by
  rw [sections, List.splitOnP_eq_singleton h, List.tail_cons]

/-- A separator ends the section in front of it, and what follows is cut on its own. -/
theorem sections_append_cons (l l' : List α) {sep : α} (h : p sep = true) :
    sections p (l ++ sep :: l') = sections p l ++ l'.splitOnP p := by
  rw [sections, List.splitOnP_append_cons l l' h, List.tail_append_of_ne_nil
    (List.splitOnP_ne_nil p l), sections]

/-- Texts are cut separately if the second starts with a separator. -/
theorem sections_append (l : List α) {l' : List α} (h : ∀ a ∈ l'.head?, p a = true) :
    sections p (l ++ l') = sections p l ++ sections p l' := by
  cases l' with
  | nil => rw [List.append_nil, sections_eq_nil (List.forall_mem_nil _), List.append_nil]
  | cons a l' =>
    have ha : p a = true := h a rfl
    have hnil := sections_append_cons [] l' ha
    rw [sections_eq_nil (List.forall_mem_nil _), List.nil_append, List.nil_append] at hnil
    rw [sections_append_cons l l' ha, hnil]

/-- **Sections are found where they were put together.** -/
theorem sections_flatMap {xs : List β} {sep : β → α} {f : β → List α}
    (hsep : ∀ x ∈ xs, p (sep x) = true) (hf : ∀ x ∈ xs, ∀ a ∈ f x, p a = false) :
    sections p (xs.flatMap fun x ↦ sep x :: f x) = xs.map f := by
  induction xs with
  | nil => exact sections_eq_nil (List.forall_mem_nil _)
  | cons x xs ih =>
    obtain ⟨hx, hxs⟩ := List.forall_mem_cons.1 hsep
    obtain ⟨hfx, hfxs⟩ := List.forall_mem_cons.1 hf
    have hhead : ∀ a ∈ (xs.flatMap fun x ↦ sep x :: f x).head?, p a = true := by
      cases xs with
      | nil => exact fun a ha ↦ by cases ha
      | cons x' xs =>
        intro a ha
        obtain rfl := Option.some.inj ha
        exact hxs x' List.mem_cons_self
    have hone : sections p (sep x :: f x) = [f x] := by
      have hcons := sections_append_cons [] (f x) hx
      rwa [sections_eq_nil (List.forall_mem_nil _), List.splitOnP_eq_singleton hfx] at hcons
    rw [List.flatMap_cons, sections_append _ hhead, ih hxs hfxs, hone, List.map_cons,
      List.singleton_append]

end Sections

/-! ### Pieces -/

/-- A tag with the text up to the next tag. -/
structure Piece where
  /-- What stands between the brackets. -/
  tag : String
  /-- The text as it stands in the page. -/
  text : String
deriving DecidableEq

/-- No bracket stands where it would be taken for that of a tag. -/
structure Piece.Clean (piece : Piece) : Prop where
  tag : (piece.tag.toList.all fun c ↦ c != '<' && c != '>') = true
  text : '<' ∉ piece.text.toList

/-- A piece, read from behind its opening bracket. -/
def Piece.ofChars (cs : List Char) : Piece where
  tag := String.ofList (cs.takeWhile (· != '>'))
  text := String.ofList (cs.dropWhile (· != '>')).tail

/-- The pieces of a page. -/
def cut (page : List Char) : List Piece :=
  (sections (· == '<') page).map .ofChars

/-- The characters of a piece. -/
def Piece.chars (piece : Piece) : List Char :=
  piece.tag.toList ++ '>' :: piece.text.toList

/-- A clean piece is read back from its characters. -/
theorem Piece.Clean.ofChars_chars {piece : Piece} (h : piece.Clean) :
    ofChars piece.chars = piece := by
  have htag : ∀ c ∈ piece.tag.toList, (c != '>') = true := by
    intro c hc
    have hbrackets := List.all_eq_true.1 h.tag c hc
    rw [Bool.and_eq_true] at hbrackets
    exact hbrackets.2
  obtain ⟨tag, text⟩ := piece
  rw [ofChars, chars, List.takeWhile_append_of_pos htag, List.dropWhile_append_of_pos htag]
  simp

/-- A page is cut separately from what follows, if this starts with a tag. -/
theorem cut_append (page : List Char) {rest : List Char} (h : ∀ c ∈ rest.head?, c = '<') :
    cut (page ++ rest) = cut page ++ cut rest := by
  have hhead : ∀ c ∈ rest.head?, (c == '<') = true := fun c hc ↦ by rw [h c hc]; rfl
  rw [cut, sections_append page hhead, List.map_append, cut, cut]

/-- **What is put together from clean pieces is cut into them.** -/
theorem cut_written {pieces : List Piece} (h : ∀ piece ∈ pieces, piece.Clean) :
    cut (pieces.flatMap fun piece ↦ '<' :: piece.chars) = pieces := by
  have hinside : ∀ piece ∈ pieces, ∀ c ∈ piece.chars, (c == '<') = false := by
    intro piece hpiece c hc
    rw [beq_eq_false_iff_ne]
    rintro rfl
    rcases List.mem_append.1 hc with htag | htext
    · exact absurd (List.all_eq_true.1 (h piece hpiece).tag _ htag) (by decide)
    · exact (h piece hpiece).text ((List.mem_cons.1 htext).resolve_left (by decide))
  rw [cut, sections_flatMap (fun _ _ ↦ rfl) hinside, List.map_map]
  refine (List.map_congr_left fun piece hpiece ↦ ?_).trans (List.map_id _)
  exact (h piece hpiece).ofChars_chars

/-- The pieces between a tag and a later one. -/
def inside (opening closing : String) (pieces : List Piece) : List Piece :=
  ((pieces.dropWhile (·.tag != opening)).tail).takeWhile (·.tag != closing)

/-- What stands between two tags is found, if the first is the first of its name and the second the
next of its own. -/
theorem inside_append (first last : Piece) {before after pieces : List Piece}
    (hbefore : ∀ piece ∈ before, piece.tag ≠ first.tag)
    (hpieces : ∀ piece ∈ pieces, piece.tag ≠ last.tag) :
    inside first.tag last.tag (before ++ first :: (pieces ++ last :: after)) = pieces := by
  have hdrop : ∀ piece ∈ before, (piece.tag != first.tag) = true :=
    fun piece hpiece ↦ bne_iff_ne.2 (hbefore piece hpiece)
  have htake : ∀ piece ∈ pieces, (piece.tag != last.tag) = true :=
    fun piece hpiece ↦ bne_iff_ne.2 (hpieces piece hpiece)
  rw [inside, List.dropWhile_append_of_pos hdrop, List.dropWhile_cons_of_neg (by simp),
    List.tail_cons, List.takeWhile_append_of_pos htake, List.takeWhile_cons_of_neg (by simp),
    List.append_nil]

/-! ### Escapes -/

/-- The text that an escaped text stands for. -/
def unescape : List Char → List Char
  | [] => []
  | '&' :: 'a' :: 'm' :: 'p' :: ';' :: rest => '&' :: unescape rest
  | '&' :: 'l' :: 't' :: ';' :: rest => '<' :: unescape rest
  | '&' :: 'g' :: 't' :: ';' :: rest => '>' :: unescape rest
  | '&' :: 'q' :: 'u' :: 'o' :: 't' :: ';' :: rest => '"' :: unescape rest
  | '&' :: '#' :: 'x' :: '2' :: '7' :: ';' :: rest => '\'' :: unescape rest
  | '&' :: '#' :: 'x' :: '2' :: 'f' :: ';' :: rest => '/' :: unescape rest
  | c :: rest => c :: unescape rest

theorem unescape_cons {c : Char} (h : c ≠ '&') (rest : List Char) :
    unescape (c :: rest) = c :: unescape rest := by
  rw [unescape] <;> exact fun _ hc ↦ absurd hc h

theorem unescape_eq_self {cs : List Char} (h : '&' ∉ cs) : unescape cs = cs := by
  induction cs with
  | nil => rfl
  | cons c cs ih =>
    have hc : c ≠ '&' := Ne.symm (List.ne_of_not_mem_cons h)
    rw [unescape_cons hc, ih (List.not_mem_of_not_mem_cons h)]

open Document (htmlEscape htmlEscapeChar)

/-- An escaped character is read as the character, and has no bracket in it. -/
theorem unescape_htmlEscapeChar (c : Char) (rest : List Char) :
    unescape (htmlEscapeChar c ++ rest) = c :: unescape rest ∧ '<' ∉ htmlEscapeChar c := by
  rw [htmlEscapeChar]
  split_ifs with hamp hlt hgt hquot hapos hslash
  · exact ⟨by rw [hamp]; rfl, by decide⟩
  · exact ⟨by rw [hlt]; rfl, by decide⟩
  · exact ⟨by rw [hgt]; rfl, by decide⟩
  · exact ⟨by rw [hquot]; rfl, by decide⟩
  · exact ⟨by rw [hapos]; rfl, by decide⟩
  · exact ⟨by rw [hslash]; rfl, by decide⟩
  · exact ⟨unescape_cons hamp rest, fun hc ↦ hlt (List.mem_singleton.1 hc).symm⟩

/-- **No information is lost by escaping.** -/
theorem unescape_htmlEscape (s : String) : unescape (htmlEscape s).toList = s.toList := by
  rw [htmlEscape, String.toList_ofList]
  induction s.toList with
  | nil => rfl
  | cons c cs ih => rw [List.flatMap_cons, (unescape_htmlEscapeChar c _).1, ih]

/-- **No escaped text opens a tag.** -/
theorem opening_notMem_htmlEscape (s : String) : '<' ∉ (htmlEscape s).toList := by
  rw [htmlEscape, String.toList_ofList, List.mem_flatMap]
  rintro ⟨c, -, hc⟩
  exact (unescape_htmlEscapeChar c []).2 hc

/-- The text of a piece without its escapes. -/
def Piece.content (piece : Piece) : String :=
  String.ofList (unescape piece.text.toList)

/-- The texts behind a tag, in order. -/
def contents (tag : String) (pieces : List Piece) : List String :=
  (pieces.filter (·.tag == tag)).map Piece.content

end PluralForms.Html
