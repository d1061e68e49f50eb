import PointsTo.Proofs.Json.Records
import PointsTo.Proofs.Yaml.Document
import PointsTo.Settings.Text

/-!
# Settings that are read back

The text of settings is a mapping of simple words, so its document holds the words as they were
written. Each name finds its own value, and each value is read as what it was: the words of one kind
are told apart, digits are not the word for nothing, and a number of at most 64 bits is within
bounds. What is read are therefore the settings that were written, and whether they keep their rule
is a matter of the settings alone.

## Main definitions

* `Settings.written`: the names and values of settings, as they are written

## Main results

* `Yaml.Content.choice?_plainScalar`, `Yaml.Content.bool?_boolText`,
  `Yaml.Content.optional?_roundsText`: words are read back
* `Settings.ofText?_toText`: the document of the text of settings
* `Settings.ofEntries?_written`: settings are read back from their names and values
* `Settings.ofText_toText`: settings that keep their rule are read back from their text, and others
  are refused for the same cause
-/

namespace PointsTo

open Yaml

/-! ## Words as data -/

namespace Yaml.Content

/-- **A choice is read back** when no other one has its name. -/
theorem choice?_plainScalar {α : Type} {name : α → String} {all : List α} {a : α} (ha : a ∈ all)
    (hname : ∀ b ∈ all, name b = name a → b = a) :
    choice? name all (.scalar (plainScalar (name a).toList)) = some a := by
  have hvariant : variant? (.scalar (plainScalar (name a).toList)) = some (name a) :=
    congrArg some String.ofList_toList
  rw [choice?, hvariant, Option.bind_some, Json.find?_name_eq ha hname]

/-- **A truth value is read back.** -/
theorem bool?_boolText (b : Bool) :
    bool? (.scalar (plainScalar (Settings.boolText b))) = some b := by
  cases b with
  | false => decide
  | true => decide

end Yaml.Content

namespace Yaml

/-- Digits in front of which no zero stands tell their number. Only zero begins with a zero, and it
has one digit. -/
theorem unsigned?_toDigits (n : Nat) : unsigned? (Nat.toDigits 10 n) = some n := by
  have hdigits := Json.digits_toDigits n
  obtain ⟨c, cs, hcs⟩ := List.exists_cons_of_ne_nil hdigits.ne_nil
  by_cases hzero : c = '0'
  · obtain rfl := Json.eq_zero_of_head?_toDigits (n := n) (by rw [hcs, hzero]; rfl)
    rfl
  · have hall : (Nat.toDigits 10 n).all Char.isDigit = true := List.all_eq_true.mpr hdigits.isDigit
    have hvalue := Nat.ofDigitChars_ten_toDigits (n := n)
    rw [hcs] at hall hvalue ⊢
    rw [unsigned?]
    · rw [hall, hvalue]
      rfl
    all_goals simp [hzero]

theorem countOfWord?_toDigits {n : Nat} (h : n < Count.bound) :
    countOfWord? (Nat.toDigits 10 n) = some n := by
  have hdigits := Json.digits_toDigits n
  have hunsigned := unsigned?_toDigits n
  obtain ⟨c, cs, hcs⟩ := List.exists_cons_of_ne_nil hdigits.ne_nil
  have hplus : c ≠ '+' := by
    rintro rfl
    exact absurd (hdigits.isDigit '+' (hcs ▸ List.mem_cons_self)) (by decide)
  rw [hcs] at hunsigned ⊢
  simp [countOfWord?, hplus, hunsigned, h]

/-- No number is the word for nothing. -/
theorem isNullWord_toDigits (n : Nat) : isNullWord (Nat.toDigits 10 n) = false := by
  have hwords : ∀ word ∈ ["null", "Null", "NULL", "~"], word.toList.all Char.isDigit = false := by
    decide
  refine List.any_eq_false.mpr fun word hword heq => ?_
  have hall : word.toList.all Char.isDigit = true := by
    rw [beq_iff_eq.mp heq]
    exact List.all_eq_true.mpr (Json.digits_toDigits n).isDigit
  rw [hwords word hword] at hall
  cases hall

/-- **A number that may be missing is read back.** -/
theorem Content.optional?_roundsText {rounds : Option Nat} (h : ∀ n ∈ rounds, n < Count.bound) :
    optional? count? (.scalar (plainScalar (Settings.roundsText rounds))) = some rounds := by
  cases rounds with
  | none => decide
  | some n =>
    have hnull : (plainScalar (Nat.toDigits 10 n)).isNull = false := by
      rw [Scalar.isNull, plainScalar, isNullWord_toDigits,
        List.isEmpty_eq_false_iff.mpr (Json.digits_toDigits n).ne_nil]
      rfl
    have hcount : count? (.scalar (plainScalar (Nat.toDigits 10 n))) = some n :=
      countOfWord?_toDigits (h n rfl)
    change (if (plainScalar (Nat.toDigits 10 n)).isNull then some none
      else (count? (.scalar (plainScalar (Nat.toDigits 10 n)))).map some) = _
    rw [hnull, hcount]
    rfl

end Yaml

namespace Settings

variable {s : Settings}

/-! ## Writing -/

/-- The names and values of settings, as they are written. -/
def written (s : Settings) : List (List Char × List Char) :=
  (fieldNames.map String.toList).zip s.valueTexts

theorem flatten_zipWith_line (names values : List (List Char)) :
    (List.zipWith line names values).flatten = layout (names.zip values) := by
  induction names generalizing values with
  | nil => rfl
  | cons name names ih =>
    cases values with
    | nil => rfl
    | cons value values =>
      rw [List.zipWith_cons_cons, List.flatten_cons, ih, List.zip_cons_cons, layout, line]
      simp

theorem simpleWord_roundsText (rounds : Option Nat) : SimpleWord (roundsText rounds) := by
  cases rounds with
  | none => decide
  | some n =>
    have hdigits := Json.digits_toDigits n
    exact ⟨hdigits.ne_nil, fun c hc => by simp [isSimple, Char.isAlphanum, hdigits.isDigit c hc]⟩

theorem simpleWord_boolText (b : Bool) : SimpleWord (boolText b) := by
  cases b with
  | false => decide
  | true => decide

theorem simpleEntry_of_mem_written (s : Settings) : ∀ e ∈ s.written, SimpleEntry e := by
  have hnames : ∀ name ∈ fieldNames.map String.toList, SimpleWord name ∧ name.length ≤ 1024 := by
    decide
  have hvalues : ∀ value ∈ s.valueTexts, SimpleWord value := by
    have hpolicy : SimpleWord s.representativePolicy.name.toList := by
      cases s.representativePolicy <;> decide
    have horder : SimpleWord s.worklistOrder.name.toList := by
      cases s.worklistOrder <;> decide
    simp [valueTexts, hpolicy, horder, simpleWord_roundsText, simpleWord_boolText]
  intro e he
  obtain ⟨hname, hvalue⟩ := List.of_mem_zip he
  exact ⟨(hnames e.1 hname).1, (hnames e.1 hname).2, hvalues e.2 hvalue⟩

/-- The document of the text of settings. -/
theorem ofText?_toText (s : Settings) :
    Document.ofText? s.toText = some (.mapping (s.written.map plainEntry)) := by
  rw [toText, flatten_zipWith_line]
  exact Document.ofText?_layout (by simp [fieldNames, valueTexts]) s.simpleEntry_of_mem_written

/-! ## Reading -/

theorem namedEntries?_map (entries : List (List Char × List Char)) :
    namedEntries? (entries.map plainEntry) =
      some (entries.map fun e => (String.ofList e.1, .scalar (plainScalar e.2))) :=
  Json.mapM_map_eq_some fun _ _ => rfl

/-- Each name finds its own setting. -/
theorem mapM_setting? {names : List String} {entries : List (String × Content)}
    (hnames : names.Nodup) (hfst : entries.map Prod.fst = names) :
    names.mapM (setting? entries) = some (entries.map fun e => some e.2) := by
  subst hfst
  refine Json.mapM_map_eq_some fun e he => ?_
  rw [setting?, Json.filter_fst_eq hnames he]

/-- No setting is missing, so none takes its usual value. -/
theorem ofEntries?_written (h : s.Narrow) : ofEntries? (s.written.map plainEntry) = some s := by
  have hfst : (s.written.map fun e =>
      (String.ofList e.1, Content.scalar (plainScalar e.2))).map Prod.fst = fieldNames := by
    simp [written, fieldNames, valueTexts]
  have hpolicy : Content.choice? SurvivorPolicy.name SurvivorPolicy.all
      (.scalar (plainScalar s.representativePolicy.name.toList)) = some s.representativePolicy :=
    Content.choice?_plainScalar (by cases s.representativePolicy <;> decide)
      (by cases s.representativePolicy <;> decide)
  have horder : Content.choice? WorklistOrder.name WorklistOrder.all
      (.scalar (plainScalar s.worklistOrder.name.toList)) = some s.worklistOrder :=
    Content.choice?_plainScalar (by cases s.worklistOrder <;> decide)
      (by cases s.worklistOrder <;> decide)
  rw [ofEntries?, namedEntries?_map, Option.bind_some, mapM_setting? (by decide) hfst]
  simp only [written, fieldNames, valueTexts, List.map_cons, List.zip_cons_cons, List.map_nil,
    List.zip_nil_right, defaulted, hpolicy, horder, Content.optional?_roundsText h,
    Content.bool?_boolText]
  rfl

/-- Settings break their rule only by a number out of its range. -/
theorem eq_outOfRange_of_validate {e : SettingsError} (h : s.validate = .error e) :
    ∃ field value min max hint, e = .outOfRange field value min max hint := by
  rw [validate] at h
  split at h
  · cases h
  · split at h
    · cases h
      exact ⟨_, _, _, _, _, rfl⟩
    · cases h

/-- **Settings are read back from their text** when they keep their rule. Otherwise they are refused
for the cause for which they break it, a number out of its range, and never for the form of the
text. -/
theorem ofText_toText (h : s.Narrow) :
    (s.validate = .ok () → ofText s.toText = .ok s) ∧
      ∀ e, s.validate = .error e → ofText s.toText = .error e ∧
        ∃ field value min max hint, e = .outOfRange field value min max hint := by
  have hread : ofText s.toText = s.validate.map fun _ => s := by
    rw [ofText, ofText?_toText, Option.bind_some, ofDocument?, ofEntries?_written h]
  rw [hread]
  constructor
  · intro hvalid
    rw [hvalid]
    rfl
  · intro e he
    rw [he]
    exact ⟨rfl, eq_outOfRange_of_validate he⟩

/-- The greatest limit is read back, and the greatest number of 64 bits is out of range. -/
theorem ofText_toText_samples :
    ofText (toText { worklistOrder := .lifo, maxCallGraphRounds := some 10000 }) =
        .ok { worklistOrder := .lifo, maxCallGraphRounds := some 10000 } ∧
      ofText (toText { maxCallGraphRounds := some 18446744073709551615 }) =
        .error (.outOfRange "max_call_graph_rounds" "18446744073709551615" "1" "10000"
          "Use None to iterate until the call graph is stable") := by
  have hlimit : Narrow { worklistOrder := .lifo, maxCallGraphRounds := some 10000 } := by
    simp [Narrow, Count.bound]
  have hgreatest : Narrow { maxCallGraphRounds := some 18446744073709551615 } := by
    simp [Narrow, Count.bound]
  exact ⟨(ofText_toText hlimit).1 rfl, ((ofText_toText hgreatest).2 _ (by rfl)).1⟩

end Settings

end PointsTo
