import PluralForms.Command.Run
import PluralForms.Proofs.Locale.Outcomes

/-!
# Stopping at the first failure

A conversion can stop at the first locale that fails or go on and list the failures. Both look at
the same outcomes, so what one comes to can be told from the other (`failFast_agrees`): without a
failure they agree, with one the error is that of the first failure, and a locale that is asked for
and unknown is an error for both, though a failure may come first.

Going on loses nothing either. The locales that did convert are those that would have, had the
tables not had the others: `Tables.withoutFailed` erases the rules of the locales that fail, and
what is left converts without a failure and to the same documents.
-/

namespace PluralForms

/-- The keys of the locales that fail. -/
def Tables.failedKeys (tables : Tables) : List String :=
  (tables.cardinals.entries.filter fun e ↦
    !(Conversion.convertLocale tables e.1 e.2).isOk).map (·.1)

/-- The tables without the rules of the locales that fail. -/
def Tables.withoutFailed (tables : Tables) : Tables :=
  { tables with cardinals := tables.failedKeys.foldl Table.erase tables.cardinals }

namespace Conversion

variable {tables : Tables}

/-- The document is written whether or not a locale failed. -/
theorem output_report (c : Conversion) (format : Format) :
    (c.report format).output = Document.render format c.languages := by
  rw [report]
  split <;> rfl

/-! ### Without the locales that fail -/

/-- A key is that of a locale that fails if its locale does: there are no two rules for a key. -/
theorem mem_failedKeys_iff {e : String × Table String String}
    (he : e ∈ tables.cardinals.entries) :
    e.1 ∈ tables.failedKeys ↔ (convertLocale tables e.1 e.2).isOk = false := by
  simp only [Tables.failedKeys, List.mem_map, List.mem_filter, Bool.not_eq_true']
  constructor
  · rintro ⟨e', ⟨he', hfails⟩, hkey⟩
    obtain rfl := List.inj_on_of_nodup_map tables.cardinals.nodup_keys he' he hkey
    exact hfails
  · exact fun hfails ↦ ⟨e, ⟨he, hfails⟩, rfl⟩

/-- What is left without the failed locales is the entries that can be converted. -/
theorem entries_withoutFailed (tables : Tables) : tables.withoutFailed.cardinals.entries =
    tables.cardinals.entries.filter fun e ↦ (convertLocale tables e.1 e.2).isOk := by
  rw [Tables.withoutFailed, Table.entries_foldl_erase]
  refine List.filter_congr fun e he ↦ ?_
  rw [Bool.eq_iff_iff, decide_eq_true_iff, mem_failedKeys_iff he, Bool.not_eq_false]

/-- **Leaving out what failed changes no other outcome.** -/
theorem outcomes_withoutFailed (tables : Tables) (failFast : Bool) :
    outcomes tables.withoutFailed ⟨failFast, []⟩ =
      (outcomes tables ⟨failFast, []⟩).filter (·.2.isOk) := by
  have hconvert : convertLocale tables.withoutFailed = convertLocale tables :=
    convertLocale_congr rfl rfl
  rw [outcomes_all, outcomes_all, entries_withoutFailed, hconvert, List.filter_map]
  rfl

/-- Outcomes that are failures add to the failures alone. -/
theorem gather_filter_isOk (results : List (String × Except LocaleError Outcome)) :
    gather (results.filter (·.2.isOk)) = { gather results with failures := [] } := by
  have hconverted : ∀ r, (if r.2.isOk then converted? r else none) = converted? r := by
    rintro ⟨id, error | outcome⟩ <;> rfl
  have hsuperseded : ∀ r, (if r.2.isOk then superseded? r else none) = superseded? r := by
    rintro ⟨id, error | outcome⟩ <;> rfl
  have hfailed : ∀ r, (if r.2.isOk then failed? r else none) = none := by
    rintro ⟨id, error | outcome⟩ <;> rfl
  simp only [gather_eq, List.filterMap_filter, hconverted, hsuperseded, hfailed,
    List.filterMap_none]

/-- The failures are those of the locales that fail, in their order. -/
theorem map_failures_eq (tables : Tables) (failFast : Bool) :
    (gather (outcomes tables ⟨failFast, []⟩)).failures.map (·.1) =
      tables.failedKeys.map LocaleId.normalize := by
  rw [gather_eq, outcomes_all, Tables.failedKeys]
  -- What a locale comes to rests on the names alone, so the rules can be any list.
  generalize tables.cardinals.entries = entries
  induction entries with
  | nil => rfl
  | cons e entries ih =>
    rw [List.map_cons]
    cases hresult : convertLocale tables e.1 e.2 with
    | error error =>
      rw [List.filter_cons_of_pos (by rw [hresult]; rfl), List.map_cons, List.map_cons, ← ih]
      rfl
    | ok outcome =>
      rw [List.filter_cons_of_neg (by rw [hresult]; simp [Except.isOk, Except.toBool]), ← ih]
      rfl

/-- What is left without the locales that fail converts without a failure. -/
theorem run_withoutFailed (tables : Tables) : run tables.withoutFailed ⟨true, []⟩ =
    .ok { gather (outcomes tables ⟨false, []⟩) with failures := [] } := by
  have hgather : gather (outcomes tables.withoutFailed ⟨true, []⟩) =
      { gather (outcomes tables ⟨false, []⟩) with failures := [] } := by
    rw [outcomes_withoutFailed, gather_filter_isOk]
    rfl
  refine run_eq_ok_iff.2 ⟨fun _ ↦ ?_, List.forall_mem_nil _, hgather.symm⟩
  rw [hgather]

/-! ### The two policies -/

/-- A conversion without failures is the same if it is to stop at one. -/
theorem run_failFast_eq_ok {only : List String} {c : Conversion}
    (h : run tables ⟨false, only⟩ = .ok c) (hc : c.failures = []) :
    run tables ⟨true, only⟩ = .ok c := by
  obtain ⟨-, hlists, rfl⟩ := run_eq_ok_iff.1 h
  -- The outcomes do not depend on the policy.
  exact run_eq_ok_iff.2 ⟨fun _ ↦ hc, hlists, rfl⟩

/-- A conversion that is to stop at a failure returns the first of them. -/
theorem run_failFast_eq_error {only : List String} {id : String} {error : LocaleError}
    {rest : List (String × LocaleError)}
    (h : (gather (outcomes tables ⟨false, only⟩)).failures = (id, error) :: rest) :
    run tables ⟨true, only⟩ = .error error :=
  run_eq_error_iff.2 (.inl ⟨rfl, id, rest, h⟩)

/-- Only a locale that is not listed keeps a conversion that goes on from coming to something; one
that stops fails for the same locale unless a failure comes before. -/
theorem run_failFast_of_error {only : List String} {error : LocaleError}
    (h : run tables ⟨false, only⟩ = .error error) :
    (∃ wanted ∈ only, error = .unknownLocale wanted) ∧
      (run tables ⟨true, only⟩ = .error error ∨
        ∃ id error' rest, (gather (outcomes tables ⟨false, only⟩)).failures = (id, error') :: rest ∧
          run tables ⟨true, only⟩ = .error error') := by
  obtain ⟨hff, -⟩ | ⟨-, wanted, hwanted, rfl⟩ := run_eq_error_iff.1 h
  · cases hff
  refine ⟨⟨wanted, hwanted.mem, rfl⟩, ?_⟩
  rcases hfailures : (gather (outcomes tables ⟨false, only⟩)).failures with _ | ⟨⟨id, error'⟩, rest⟩
  · exact .inl (run_eq_error_iff.2 (.inr ⟨fun _ ↦ hfailures, wanted, hwanted, rfl⟩))
  · exact .inr ⟨id, error', rest, rfl, run_failFast_eq_error hfailures⟩

/-- **Stopping and going on agree.** Where going on comes to something, stopping comes to the same
or to the first failure; where it does not, stopping fails too. And what was converted is converted
in the same way once the locales that fail are erased. -/
theorem failFast_agrees (tables : Tables) (only : List String) :
    (∀ c, run tables ⟨false, only⟩ = .ok c → c.failures = [] → run tables ⟨true, only⟩ = .ok c) ∧
    (∀ c id error rest, run tables ⟨false, only⟩ = .ok c → c.failures = (id, error) :: rest →
      run tables ⟨true, only⟩ = .error error) ∧
    (∀ error, run tables ⟨false, only⟩ = .error error →
      (∃ wanted ∈ only, error = .unknownLocale wanted) ∧
      (run tables ⟨true, only⟩ = .error error ∨
        ∃ id error' rest, (gather (outcomes tables ⟨false, only⟩)).failures = (id, error') :: rest ∧
          run tables ⟨true, only⟩ = .error error')) ∧
    ∀ c, run tables ⟨false, []⟩ = .ok c →
      c.failures.map (·.1) = tables.failedKeys.map LocaleId.normalize ∧
      ∃ c', run tables.withoutFailed ⟨true, []⟩ = .ok c' ∧
        c'.languages = c.languages ∧ c'.superseded = c.superseded ∧ c'.failures = [] ∧
        ∀ format, Document.render format c'.languages = Document.render format c.languages ∧
          c'.report format = .success (c.report format).output := by
  refine ⟨fun c h hc ↦ run_failFast_eq_ok h hc, fun c id error rest h hc ↦ ?_,
    fun error h ↦ run_failFast_of_error h, fun c h ↦ ?_⟩
  · obtain ⟨-, -, rfl⟩ := run_eq_ok_iff.1 h
    exact run_failFast_eq_error hc
  · obtain ⟨-, -, rfl⟩ := run_eq_ok_iff.1 h
    refine ⟨map_failures_eq tables false, _, run_withoutFailed tables, rfl, rfl, rfl,
      fun format ↦ ⟨rfl, ?_⟩⟩
    rw [output_report]
    rfl

/-- Tables with two locales that fail, one for its rules and one for its name, between others. -/
def mixed : Tables where
  languages := .ofList [("en", "English"), ("he", "Hebrew"), ("pt", "Portuguese")]
  territories := .ofList [("PT", "Portugal")]
  cardinals := .ofList [("en", .ofList [("one", "i = 1 and v = 0 @integer 1"), ("other", "")]),
    ("he", .ofList [("one", "n % 10 = 1 and n % 100 != 11 or n = 5"), ("other", "")]),
    ("iw", .ofList [("other", "")]),
    ("pt-PT", .ofList [("one", "n = 1"), ("other", "")]),
    ("xx", .ofList [("other", "")])]

/-- The failures of the tables. -/
def mixedFailures : List (String × LocaleError) :=
  [("he", .plural ⟨"he", .noNegation .one "n % 10 == 1 && n % 100 != 11 || n == 5"⟩),
   ("xx", .unknownLanguage "xx")]

/-- With all locales the first failure is the error, and the rest is left when the failed ones are
erased; a selection without a failure is converted; and one with an unknown locale is an error. -/
theorem failFast_agrees_mixed :
    (∃ c, run mixed ⟨false, []⟩ = .ok c ∧ c.failures = mixedFailures ∧
      run mixed ⟨true, []⟩ =
        .error (.plural ⟨"he", .noNegation .one "n % 10 == 1 && n % 100 != 11 || n == 5"⟩) ∧
      ∃ c', run mixed.withoutFailed ⟨true, []⟩ = .ok c' ∧ c'.failures = [] ∧
        c'.languages.keys = ["en", "pt_PT"] ∧ c'.superseded.entries = [("iw", "he")]) ∧
    (∃ c, run mixed ⟨false, ["pt_PT", "iw"]⟩ = .ok c ∧ c.failures = [] ∧
      run mixed ⟨true, ["pt_PT", "iw"]⟩ = .ok c) ∧
    run mixed ⟨false, ["tlh", "xx"]⟩ = .error (.unknownLocale "tlh") ∧
      ∃ error, run mixed ⟨true, ["tlh", "xx"]⟩ = .error error := by
  refine ⟨?_, ?_, ?_⟩
  · have hrun : (run mixed ⟨false, []⟩).map (fun c ↦
        (c.failures, c.languages.keys, c.superseded.entries)) =
        .ok (mixedFailures, ["en", "pt_PT"], [("iw", "he")]) := by decide +kernel
    obtain ⟨c, hc, hparts⟩ := map_eq_ok_iff.1 hrun
    obtain ⟨hfailures, hkeys, hentries⟩ : _ ∧ _ ∧ _ := by simpa using hparts
    obtain ⟨-, hfirst, -, herased⟩ := failFast_agrees mixed []
    obtain ⟨-, c', hc', hlanguages, hsuperseded, hnone, -⟩ := herased c hc
    refine ⟨c, hc, hfailures, hfirst c _ _ _ hc hfailures, c', hc', hnone, ?_, ?_⟩
    · rw [hlanguages, hkeys]
    · rw [hsuperseded, hentries]
  · have hrun : (run mixed ⟨false, ["pt_PT", "iw"]⟩).map (·.failures) = .ok [] := by decide +kernel
    obtain ⟨c, hc, hnone⟩ := map_eq_ok_iff.1 hrun
    exact ⟨c, hc, hnone, (failFast_agrees mixed ["pt_PT", "iw"]).1 c hc hnone⟩
  · have hrun : (run mixed ⟨false, ["tlh", "xx"]⟩).map (·.failures) =
        .error (.unknownLocale "tlh") := by decide +kernel
    have hunknown := map_eq_error_iff.1 hrun
    obtain ⟨-, -, herror, -⟩ := failFast_agrees mixed ["tlh", "xx"]
    refine ⟨hunknown, ?_⟩
    obtain ⟨-, hsame | ⟨_, error, _, -, hfailed⟩⟩ := herror _ hunknown
    · exact ⟨_, hsame⟩
    · exact ⟨error, hfailed⟩

end Conversion

end PluralForms
