import PluralForms.Proofs.Formula.Reader
import Mathlib.Data.List.Forall2

/-!
# Reading in parts

A text that is put together from parts is read part by part. `Reads s r` says that, wherever an
operand may stand, the text `s` adds the operands of the row `r`; it holds of a text in terms of its
parts, for each way to put parts together: an operator between two texts, parentheses around a text,
and the conditional operator on three.

In the same way the operators of a row are applied part by part (`Row.tighten_join`): a joint of a
lower rank keeps apart what stands on its two sides. So a row of parts with one operator between
them comes to a sequence of expressions (`Row.IsSequence`) and, in the end, to these expressions
joined from left to right (`Row.IsSequence.foldl_tighten`).
-/

namespace PluralForms.Formula

/-! ### Tokens of parts -/

/-- The text is exactly these tokens, and the last of them cannot go on. -/
def Closed (s : String) (ts : List Token) : Prop :=
  ∀ before, s.toList.foldlM Lexer.step ⟨before, .nothing⟩ = some ⟨before ++ ts, .nothing⟩

/-- The lexer has come to these tokens if no digit follows. -/
def Lexer.Reached (l : Lexer) (ts : List Token) : Prop :=
  l.finish = some ts ∧ ∀ c, l.pending ≠ .sign c

/-- The text is exactly these tokens if no digit follows. -/
def Lexes (s : String) (ts : List Token) : Prop :=
  ∀ before, ∃ l, s.toList.foldlM Lexer.step ⟨before, .nothing⟩ = some l ∧ l.Reached (before ++ ts)

theorem Closed.lexes {s : String} {ts : List Token} (h : Closed s ts) : Lexes s ts :=
  fun before ↦ ⟨_, h before, rfl, nofun⟩

/-- A text that cannot go on keeps its tokens, whatever follows. -/
theorem Closed.append {s t : String} {ts us : List Token} (hs : Closed s ts) (ht : Lexes t us) :
    Lexes (s ++ t) (ts ++ us) := by
  intro before
  obtain ⟨l, hl, hreached⟩ := ht (before ++ ts)
  refine ⟨l, ?_, by rwa [← List.append_assoc]⟩
  rw [String.toList_append, List.foldlM_append, hs before]
  exact hl

/-- A character that is no digit puts an end to a number. -/
theorem Lexer.step_of_reached {l : Lexer} {ts : List Token} (h : l.Reached ts) {c : Char}
    (hc : c.isDigit = false) : l.step c = start ts c := by
  obtain ⟨tokens, pending⟩ := l
  obtain ⟨hfinish, hsign⟩ := h
  cases pending with
  | nothing =>
    cases hfinish
    rfl
  | number v =>
    cases hfinish
    simp [step, hc, finish]
  | sign d => exact absurd rfl (hsign d)

/-- A text that could go on keeps its tokens too, if no digit follows. -/
theorem Lexes.append_closed {s t : String} {ts us : List Token} (hs : Lexes s ts)
    (ht : Closed t us) {c : Char} (hhead : t.toList.head? = some c) (hc : c.isDigit = false) :
    Closed (s ++ t) (ts ++ us) := by
  intro before
  obtain ⟨cs, htext⟩ := List.head?_eq_some_iff.1 hhead
  obtain ⟨l, hl, hreached⟩ := hs before
  have ht := ht (before ++ ts)
  rw [String.toList_append, List.foldlM_append, hl, ← List.append_assoc, ← ht, htext]
  show List.foldlM Lexer.step l (c :: cs) = _
  rw [List.foldlM_cons, List.foldlM_cons, Lexer.step_of_reached hreached hc]
  rfl

/-- The digits of a number are read one after the other; the last of them completes the number. -/
theorem foldlM_step_toDigits (before : List Token) (v : Nat) :
    (Nat.toDigits 10 v).foldlM Lexer.step ⟨before, .nothing⟩ = some ⟨before, .number v⟩ := by
  induction v using Nat.strongRecOn with
  | ind v ih =>
    by_cases hv : v < 10
    · have hdigit : (Nat.digitChar v).isDigit = true := by simpa [Nat.isDigit_digitChar] using hv
      have hvalue := Nat.toNat_digitChar_of_lt_ten hv
      have hblank : Nat.digitChar v ≠ ' ' := fun h ↦ absurd (h ▸ hdigit) (by decide)
      rw [Nat.toDigits_of_lt_base hv, List.foldlM_cons]
      simp [Lexer.step, Lexer.start, hblank, hdigit, hvalue]
    · have hlast : v % 10 < 10 := Nat.mod_lt v (Nat.succ_pos 9)
      have hdigit : (Nat.digitChar (v % 10)).isDigit = true := by
        simpa [Nat.isDigit_digitChar] using hlast
      have hvalue := Nat.toNat_digitChar_of_lt_ten hlast
      have hpos : v / 10 ≠ 0 := by omega
      have hwhole : 10 * (v / 10) + v % 10 = v := Nat.div_add_mod v 10
      rw [Nat.toDigits_of_base_le (by omega) (by omega), List.foldlM_append, ih (v / 10) (by omega)]
      show List.foldlM Lexer.step _ [Nat.digitChar (v % 10)] = _
      rw [List.foldlM_cons]
      simp [Lexer.step, hdigit, hvalue, hpos, hwhole]

/-- A number is one token, as long as no digit follows. -/
theorem lexes_number (v : Nat) : Lexes (toString v) [.number v] := by
  intro before
  refine ⟨⟨before, .number v⟩, ?_, rfl, nofun⟩
  rw [Nat.toString_eq_ofList_toDigits, String.toList_ofList]
  exact foldlM_step_toDigits before v

/-! ### Rows of parts -/

/-- The tokens add the operands of the row wherever an operand may stand. -/
def Runs (ts : List Token) (r : Row) : Prop :=
  ∀ side p q stack, Phrase.extend p r = some q →
    ts.foldlM (State.step side) ⟨p, stack⟩ = some ⟨q, stack⟩

/-- The text adds the operands of the row wherever an operand may stand. -/
def Reads (s : String) (r : Row) : Prop :=
  ∃ ts, Lexes s ts ∧ Runs ts r

/-- The row comes to the expression from either side. -/
def Row.ResolvesTo (r : Row) (e : Expression) : Prop :=
  ∀ side, r.resolve side = e

theorem Row.resolvesTo_single (e : Expression) : (single e).ResolvesTo e := by
  intro side
  cases side <;> rfl

theorem reads_number (v : Nat) : Reads (toString v) (.single (.number v)) := by
  refine ⟨[.number v], lexes_number v, fun side p q stack h ↦ ?_⟩
  rw [List.foldlM_cons, State.step, h]
  rfl

theorem reads_count : Reads "n" (.single .count) := by
  refine ⟨[.count], Closed.lexes fun _ ↦ rfl, fun side p q stack h ↦ ?_⟩
  rw [List.foldlM_cons, State.step, h]
  rfl

/-- Rows are joined in any order. -/
theorem Row.join_assoc (r s t : Row) (j k : Joint) :
    (r.join j s).join k t = r.join j (s.join k t) := by
  simp [Row.join]

/-- A phrase with room for a row can first take the part before a joint and then the part after
it. -/
theorem Phrase.exists_extend_of_join {p q : Phrase} {r s : Row} {j : Joint}
    (h : p.extend (r.join j s) = some q) :
    ∃ row, p.extend r = some (.complete row) ∧ (awaiting row j).extend s = some q := by
  cases p with
  | empty => exact ⟨r, rfl, h⟩
  | complete row => cases h
  | awaiting row k => exact ⟨row.join k r, rfl, by rw [← h, extend, extend, Row.join_assoc]⟩

/-- An operator between two runs of tokens joins their rows. -/
theorem Runs.operator {ts us : List Token} {r s : Row} (hts : Runs ts r) (hus : Runs us s)
    (op : Operator) : Runs (ts ++ .operator op :: us) (r.join (.operator op) s) := by
  intro side p q stack h
  obtain ⟨row, hrow, hq⟩ := Phrase.exists_extend_of_join h
  rw [List.foldlM_append, hts side p _ stack hrow]
  exact hus side _ q stack hq

/-- Parentheses make an operand of what stands between them. -/
theorem Runs.group {ts : List Token} {r : Row} {e : Expression} (hts : Runs ts r)
    (he : r.ResolvesTo e) : Runs (.opening :: (ts ++ [.closing])) (.single e) := by
  intro side p q stack h
  rw [List.foldlM_cons]
  show List.foldlM (State.step side) ⟨.empty, .group p :: stack⟩ (ts ++ [.closing]) = _
  rw [List.foldlM_append, hts side .empty (.complete r) (.group p :: stack) rfl]
  show List.foldlM (State.step side) ⟨.complete r, .group p :: stack⟩ [.closing] = _
  have hstep : State.step side ⟨.complete r, .group p :: stack⟩ .closing = some ⟨q, stack⟩ := by
    show (p.extend (.single (r.resolve side))).map (State.mk · stack) = _
    rw [he side, h]
    rfl
  rw [List.foldlM_cons, hstep]
  rfl

/-- `?` and `:` enclose an expression of their own and join the rows outside. -/
theorem Runs.select {ts us vs : List Token} {r s t : Row} {e : Expression} (hts : Runs ts r)
    (hus : Runs us s) (he : s.ResolvesTo e) (hvs : Runs vs t) :
    Runs (ts ++ .question :: (us ++ .colon :: vs)) (r.join (.select e) t) := by
  intro side p q stack h
  obtain ⟨row, hrow, hq⟩ := Phrase.exists_extend_of_join h
  rw [List.foldlM_append, hts side p _ stack hrow]
  show List.foldlM (State.step side) ⟨.empty, .branch row :: stack⟩ (us ++ .colon :: vs) = _
  rw [List.foldlM_append, hus side .empty (.complete s) (.branch row :: stack) rfl]
  show List.foldlM (State.step side) ⟨.awaiting row (.select (s.resolve side)), stack⟩ vs = _
  rw [he side]
  exact hvs side _ q stack hq

/-- **An operator between two texts.** -/
theorem Reads.operator {s t sign : String} {r r' : Row} {op : Operator} (hs : Reads s r)
    (ht : Reads t r') (hsign : Closed sign [.operator op])
    (hblank : sign.toList.head? = some ' ') :
    Reads (s ++ sign ++ t) (r.join (.operator op) r') := by
  obtain ⟨ts, hts, hr⟩ := hs
  obtain ⟨us, hus, hr'⟩ := ht
  refine ⟨_, (hts.append_closed hsign hblank rfl).append hus, ?_⟩
  rw [List.append_assoc]
  exact hr.operator hr' op

/-- **Parentheses around a text.** -/
theorem Reads.group {s : String} {r : Row} {e : Expression} (hs : Reads s r)
    (he : r.ResolvesTo e) : Reads ("(" ++ s ++ ")") (.single e) := by
  obtain ⟨ts, hts, hr⟩ := hs
  have hopen : Closed "(" [.opening] := fun _ ↦ rfl
  have hclose : Closed ")" [.closing] := fun _ ↦ rfl
  exact ⟨_, ((hopen.append hts).append_closed hclose rfl rfl).lexes, hr.group he⟩

/-- **The conditional operator on three texts.** -/
theorem Reads.select {s t u : String} {r r' r'' : Row} {e : Expression} (hs : Reads s r)
    (ht : Reads t r') (he : r'.ResolvesTo e) (hu : Reads u r'') :
    Reads (s ++ " ? " ++ t ++ " : " ++ u) (r.join (.select e) r'') := by
  obtain ⟨ts, hts, hr⟩ := hs
  obtain ⟨us, hus, hr'⟩ := ht
  obtain ⟨vs, hvs, hr''⟩ := hu
  have hthen : Closed " ? " [.question] := fun _ ↦ rfl
  have helse : Closed " : " [.colon] := fun _ ↦ rfl
  have htest := hts.append_closed hthen rfl rfl
  have hyes := (htest.append hus).append_closed helse rfl rfl
  refine ⟨_, hyes.append hvs, ?_⟩
  simpa using hr.select hr' he hr''

/-- What a whole text adds is what it spells. -/
theorem read_of_reads {s : String} {r : Row} {e : Expression} (hs : Reads s r)
    (he : r.ResolvesTo e) (side : Side) : read side s = some e := by
  obtain ⟨ts, hts, hr⟩ := hs
  obtain ⟨l, hl, hfinish, -⟩ := hts []
  have hlex : lex s = some ts := by
    rw [lex, hl]
    exact hfinish
  rw [read, hlex, Option.bind_some, hr side .empty (.complete r) [] rfl, ← he side]
  rfl

/-! ### Precedence -/

/-- The expressions with an operator between them, applied from left to right. Of no expressions it
is the number zero. -/
def Expression.joined (op : Operator) : List Expression → Expression
  | [] => .number 0
  | e :: es => es.foldl (.binary op) e

namespace Row

variable {r s : Row} {ranks : List Nat} {op : Operator}

/-- **A joint of another rank keeps its two sides apart.** -/
theorem tighten_join {j : Joint} {rank : Nat} (h : j.rank ≠ rank) (r s : Row) :
    (r.join j s).tighten rank = (r.tighten rank).join j (s.tighten rank) := by
  obtain ⟨a, rest⟩ := r
  show tightenFrom rank a (rest ++ (j, s.first) :: s.rest) =
    (tightenFrom rank a rest).join j (tightenFrom rank s.first s.rest)
  induction rest generalizing a with
  | nil => simp [tightenFrom, h, single]
  | cons kb rest ih =>
    obtain ⟨k, b⟩ := kb
    rw [List.cons_append, tightenFrom, tightenFrom]
    split
    · exact ih (k.apply a b)
    · rw [ih b, join_assoc]

/-- A joint that binds less tightly than all of some ranks keeps its two sides apart. -/
theorem foldl_tighten_join {j : Joint} (h : j.rank ∉ ranks) (r s : Row) :
    ranks.foldl tighten (r.join j s) = (ranks.foldl tighten r).join j (ranks.foldl tighten s) := by
  induction ranks generalizing r s with
  | nil => rfl
  | cons rank ranks ih =>
    obtain ⟨hrank, hranks⟩ : j.rank ≠ rank ∧ j.rank ∉ ranks := by simpa using h
    rw [List.foldl_cons, tighten_join hrank, ih hranks]
    rfl

/-- A row with one operator throughout is applied from left to right. -/
theorem tighten_map_operator (op : Operator) (e : Expression) (es : List Expression) :
    (Row.mk e (es.map (.operator op, ·))).tighten op.rank = single (es.foldl (.binary op) e) := by
  induction es generalizing e with
  | nil => rfl
  | cons f es ih =>
    have hrank : (Joint.operator op).rank = op.rank := rfl
    rw [List.foldl_cons, ← ih, tighten, List.map_cons, tightenFrom, if_pos hrank]
    rfl

/-- After the joints of the given ranks, the row is the listed expressions with an operator between
them. -/
def IsSequence (ranks : List Nat) (op : Operator) (r : Row) (es : List Expression) : Prop :=
  ∃ e rest, es = e :: rest ∧ ranks.foldl tighten r = ⟨e, rest.map (.operator op, ·)⟩

theorem isSequence_singleton {e : Expression} (h : ranks.foldl tighten r = single e) :
    r.IsSequence ranks op [e] :=
  ⟨e, [], rfl, h⟩

/-- Two sequences with the operator between them are one sequence. -/
theorem IsSequence.join {es fs : List Expression} (hr : r.IsSequence ranks op es)
    (h : op.rank ∉ ranks) (hs : s.IsSequence ranks op fs) :
    (r.join (.operator op) s).IsSequence ranks op (es ++ fs) := by
  obtain ⟨e, es, rfl, hr⟩ := hr
  obtain ⟨f, fs, rfl, hs⟩ := hs
  refine ⟨e, es ++ f :: fs, rfl, ?_⟩
  rw [foldl_tighten_join h, hr, hs]
  simp [Row.join]

/-- Texts with a sign between them are a sequence of what the texts are. -/
theorem IsSequence.exists_reads_intercalate {sign : String} (hsign : Closed sign [.operator op])
    (hblank : sign.toList.head? = some ' ') (hop : op.rank ∉ ranks) {texts : List String}
    {ess : List (List Expression)} (hne : texts ≠ [])
    (h : List.Forall₂ (fun s es ↦ ∃ r, Reads s r ∧ r.IsSequence ranks op es) texts ess) :
    ∃ r, Reads (sign.intercalate texts) r ∧ r.IsSequence ranks op ess.flatten := by
  induction h with
  | nil => exact absurd rfl hne
  | @cons s es texts ess hs hrest ih =>
    obtain ⟨r, hr, hes⟩ := hs
    cases hrest with
    | nil => exact ⟨r, by simpa using hr, by simpa using hes⟩
    | cons _ _ =>
      obtain ⟨r', hr', hes'⟩ := ih (List.cons_ne_nil _ _)
      rw [String.intercalate_cons_of_ne_nil (List.cons_ne_nil _ _)]
      exact ⟨_, hr.operator hr' hsign hblank, hes.join hop hes'⟩

/-- A sequence comes to its expressions joined. -/
theorem IsSequence.foldl_tighten {es : List Expression} (h : r.IsSequence ranks op es) :
    (ranks ++ [op.rank]).foldl tighten r = single (.joined op es) := by
  obtain ⟨e, es, rfl, hr⟩ := h
  rw [List.foldl_append, hr]
  exact tighten_map_operator op e es

/-- When the operators leave a single expression, there is nothing to take from a side. -/
theorem resolvesTo_of_foldl_tighten {e : Expression}
    (h : [5, 4, 3, 2, 1].foldl tighten r = single e) : r.ResolvesTo e := by
  intro side
  cases side <;> simp only [resolve, h] <;> rfl

end Row

end PluralForms.Formula
