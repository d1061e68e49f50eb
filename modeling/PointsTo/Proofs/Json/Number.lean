import PointsTo.Json.Decode
import PointsTo.Proofs.Decimal.Magnitude
import PointsTo.Proofs.Decimal.Shortest
import PointsTo.Proofs.Json.Grammar

/-!
# Numbers that are read back

Natural numbers are written by their digits, floating-point numbers by their shortest decimal. Both
can stand in a text. A natural number below the bound of its reader is read as itself. A
floating-point number is read as some number: what could go wrong is a product beyond the greatest
number, which a number of moderate size does not reach.

## Main results

* `formed_ofNat`, `Numeral.formed_ofFloat`: a text can hold the numerals of numbers
* `natBelow?_ofNat`: a natural number is read back
* `Numeral.isSome_float?_ofFloat`: a floating-point number of moderate size can be read
* `exponent_ofFloat_div_le`: a quotient of counts is of moderate size
-/

namespace PointsTo.Json

/-! ## Natural numbers -/

theorem digits_toDigits (n : Nat) : Digits (Nat.toDigits 10 n) :=
  ⟨Nat.toDigits_ne_nil, fun _ hc => Nat.isDigit_of_mem_toDigits (by decide) (by decide) hc⟩

theorem digits_zero : Digits ['0'] := digits_toDigits 0

/-- Only zero begins with a zero. -/
theorem eq_zero_of_head?_toDigits {n : Nat} (h : (Nat.toDigits 10 n).head? = some '0') : n = 0 := by
  have hdigit : ∀ m < 10, m.digitChar = '0' → m = 0 := by decide
  induction n using Nat.strongRecOn with
  | ind n ih =>
    by_cases hn : n < 10
    · rw [Nat.toDigits_of_lt_base hn] at h
      exact hdigit n hn (Option.some.inj h)
    · obtain ⟨c, ds, hds⟩ := List.exists_cons_of_ne_nil (digits_toDigits (n / 10)).ne_nil
      rw [Nat.toDigits_of_base_le (by decide) (by omega), hds] at h
      have := ih (n / 10) (by omega) (by rw [hds]; exact h)
      omega

theorem length_toDigits_of_head? {n : Nat} (h : (Nat.toDigits 10 n).head? = some '0') :
    (Nat.toDigits 10 n).length = 1 := by
  rw [eq_zero_of_head?_toDigits h]
  rfl

theorem formed_ofNat (n : Nat) : (Json.ofNat n).Formed := by
  refine .number ⟨digits_toDigits n, length_toDigits_of_head?, ?_, ?_⟩
  · rintro _ ⟨⟩
  · rintro _ ⟨⟩

theorem natBelow?_ofNat {bound n : Nat} (h : n < bound) :
    (Json.ofNat n).natBelow? bound = some n := by
  simp only [ofNat, natBelow?, Numeral.natBelow?, Nat.ofDigitChars_ten_toDigits, h, if_true]

/-! ## Reading floating-point numbers -/

section Reading

variable {n : Numeral} {significand : Nat} {power : Int}

theorem absorbDigits_lt (h : significand < Count.bound) (cs : List Char) :
    (absorbDigits significand cs).1 < Count.bound := by
  induction cs generalizing significand with
  | nil => exact h
  | cons c cs ih =>
    rw [absorbDigits]
    split
    · rename_i hgrown
      exact ih hgrown
    · exact h

theorem length_absorbDigits_le (significand : Nat) (cs : List Char) :
    (absorbDigits significand cs).2.length ≤ cs.length := by
  induction cs generalizing significand with
  | nil => exact Nat.le_refl _
  | cons c cs ih =>
    rw [absorbDigits]
    split
    · exact Nat.le_succ_of_le (ih _)
    · exact Nat.le_refl _

theorem lowerPower_of_nonneg (fuel : Nat) (x : Float) (h : 0 ≤ power) :
    lowerPower fuel x power = (x, power) := by
  cases fuel with
  | zero => rfl
  | succ fuel => rw [lowerPower, if_neg fun hlow => by omega]

/-- A negative power stays negative. -/
theorem lowerPower_neg (fuel : Nat) (x : Float) (h : power < 0) :
    (lowerPower fuel x power).2 < 0 := by
  induction fuel generalizing x power with
  | zero => exact h
  | succ fuel ih =>
    rw [lowerPower]
    split
    · exact ih _ (by omega)
    · exact h

/-- **A product of moderate size can be held**; a quotient always can. The significand has 64 bits
at most and the power of ten less than 134, so that their product stays far below the greatest
number. -/
theorem isSome_scale? (hs : significand < Count.bound) (hp : power ≤ 40) :
    (scale? significand power).isSome := by
  rw [scale?]
  rcases Int.lt_or_le power 0 with hneg | hpos
  · have hlowered := lowerPower_neg 3 (Float.ofNat significand) hneg
    generalize lowerPower 3 (Float.ofNat significand) power = lowered at hlowered
    dsimp only
    split
    · rfl
    · rfl
  · rw [lowerPower_of_nonneg 3 _ hpos]
    dsimp only
    split
    · rfl
    · rename_i hzero
      have hne : significand ≠ 0 := by
        rintro rfl
        exact hzero (by decide)
      have hfactor : Nat.pow 10 power.natAbs < 2 ^ 134 :=
        Nat.lt_of_le_of_lt (Nat.pow_le_pow_right (by decide) (by omega : power.natAbs ≤ 40))
          (by decide)
      have hpositive : Nat.pow 10 power.natAbs ≠ 0 :=
        Nat.pos_iff_ne_zero.mp (Nat.pow_pos (by decide))
      have hlog : significand.log2 < 64 := (Nat.log2_lt hne).mpr hs
      have hlog' : (Nat.pow 10 power.natAbs).log2 < 134 := (Nat.log2_lt hpositive).mpr hfactor
      have hleads := Decimal.leads_float_mul (Decimal.leads_float_ofNat hne (by omega))
        (Decimal.leads_float_ofNat hpositive (by omega)) (by omega) (by omega)
      rw [if_neg (by omega), if_neg (by omega), Decimal.isInf_eq_false_of_leads hleads]
      rfl

theorem isSome_scaleBy? {exponent : Option (Bool × List Char)} (hs : significand < Count.bound)
    (hp : power ≤ 20)
    (he : ∀ e ∈ exponent, e.1 = false → Nat.ofDigitChars 10 e.2 0 ≤ 20) :
    (scaleBy? significand power exponent).isSome := by
  match exponent with
  | none => exact isSome_scale? hs (by omega)
  | some (true, digits) =>
    rw [scaleBy?]
    split
    · simp
    · exact isSome_scale? hs (by omega)
  | some (false, digits) =>
    have hsize := he _ rfl rfl
    rw [scaleBy?, if_neg (by rw [exponentLimit]; dsimp only at hsize; omega)]
    exact isSome_scale? hs (by dsimp only at hsize; omega)

/-- **A number of few digits before the point and no great exponent can be read.** -/
theorem Numeral.isSome_float? (hwhole : n.whole.length ≤ 20)
    (he : ∀ e ∈ n.exponent, e.1 = false → Nat.ofDigitChars 10 e.2 0 ≤ 20) : n.float?.isSome := by
  have hlt := absorbDigits_lt (by decide : 0 < Count.bound) n.whole
  have hdropped := length_absorbDigits_le 0 n.whole
  rw [Numeral.float?, Option.isSome_map, Numeral.magnitude?]
  generalize absorbDigits 0 n.whole = absorbed at hlt hdropped
  dsimp only
  split
  · exact isSome_scaleBy? hlt (by omega) he
  · rename_i digits hdigits
    exact isSome_scaleBy? (absorbDigits_lt hlt digits) (by omega) he

end Reading

/-! ## Writing floating-point numbers -/

section Writing

open Decimal

theorem Digits.append {cs ds : List Char} (hcs : Digits cs) (hds : ∀ c ∈ ds, c.isDigit = true) :
    Digits (cs ++ ds) := by
  refine ⟨fun h => hcs.ne_nil (List.append_eq_nil_iff.mp h).1, fun c hc => ?_⟩
  rcases List.mem_append.mp hc with hc | hc
  · exact hcs.isDigit c hc
  · exact hds c hc

theorem Digits.take {cs : List Char} (h : Digits cs) {k : Nat} (hk : 0 < k) : Digits (cs.take k) :=
  ⟨fun htake => (List.take_eq_nil_iff.mp htake).elim (by omega) h.ne_nil,
    fun c hc => h.isDigit c (List.mem_of_mem_take hc)⟩

theorem Digits.drop {cs : List Char} (h : Digits cs) {k : Nat} (hk : k < cs.length) :
    Digits (cs.drop k) :=
  ⟨fun hdrop => absurd (List.drop_eq_nil_iff.mp hdrop) (by omega),
    fun c hc => h.isDigit c (List.mem_of_mem_drop hc)⟩

theorem isDigit_of_mem_replicate {k : Nat} {c : Char} (h : c ∈ List.replicate k '0') :
    c.isDigit = true := by
  rw [List.eq_of_mem_replicate h]
  decide

theorem head?_take_of_pos {cs : List Char} {k : Nat} (hk : 0 < k) :
    (cs.take k).head? = cs.head? := by
  rw [List.head?_take, if_neg (by omega)]

/-- The point stands behind all digits, among them, before zeros in front of them, or behind the
first one. -/
theorem Numeral.formed_ofScientific {d : Scientific} (hd : d.digits ≠ 0) :
    (Numeral.ofScientific d).Formed := by
  have hdigits := digits_toDigits d.digits
  have hhead : (Nat.toDigits 10 d.digits).head? ≠ some '0' := fun h =>
    hd (eq_zero_of_head?_toDigits h)
  obtain ⟨c, cs, hcs⟩ := List.exists_cons_of_ne_nil hdigits.ne_nil
  rw [Numeral.ofScientific]
  generalize Nat.toDigits 10 d.digits = ds at hdigits hhead hcs
  split
  · refine ⟨hdigits.append fun c hc => isDigit_of_mem_replicate hc, fun h => ?_, ?_, ?_⟩
    · rw [hcs] at h hhead
      exact absurd h hhead
    · rintro _ ⟨⟩
      exact digits_zero
    · rintro _ ⟨⟩
  · split
    · refine ⟨hdigits.take (by omega), fun h => ?_, ?_, ?_⟩
      · rw [head?_take_of_pos (by omega)] at h
        exact absurd h hhead
      · rintro _ ⟨⟩
        exact hdigits.drop (by omega)
      · rintro _ ⟨⟩
    · split
      · refine ⟨digits_zero, fun _ => rfl, ?_, ?_⟩
        · rintro _ ⟨⟩
          refine ⟨fun h => hdigits.ne_nil (List.append_eq_nil_iff.mp h).2, fun c hc => ?_⟩
          rcases List.mem_append.mp hc with hc | hc
          · exact isDigit_of_mem_replicate hc
          · exact hdigits.isDigit c hc
        · rintro _ ⟨⟩
      · refine ⟨hdigits.take (by decide), fun _ => by rw [hcs]; rfl,
          fun fraction hfraction => ?_, ?_⟩
        · split at hfraction
          · cases hfraction
          · cases hfraction
            have hpos : ds.length ≠ 0 := by rw [hcs]; exact Nat.succ_ne_zero _
            exact hdigits.drop (by omega)
        · rintro _ ⟨⟩
          exact digits_toDigits _

theorem Numeral.isSome_float?_ofScientific {d : Scientific}
    (h : d.exponent + (Nat.toDigits 10 d.digits).length ≤ 21) :
    (Numeral.ofScientific d).float?.isSome := by
  rw [Numeral.ofScientific]
  generalize Nat.toDigits 10 d.digits = ds at h
  split
  · refine isSome_float? ?_ ?_
    · rw [List.length_append, List.length_replicate]
      omega
    · rintro _ ⟨⟩
  · split
    · refine isSome_float? ?_ ?_
      · rw [List.length_take]
        omega
      · rintro _ ⟨⟩
    · split
      · refine isSome_float? (by simp) ?_
        rintro _ ⟨⟩
      · refine isSome_float? ?_ ?_
        · rw [List.length_take]
          omega
        · rintro _ ⟨⟩ hpoint
          rw [Nat.ofDigitChars_ten_toDigits]
          have := of_decide_eq_false hpoint
          omega

variable {x : Float}

theorem sized_ofFloat (h : (Dyadic.ofFloat x).mantissa ≠ 0) : (Dyadic.ofFloat x).Sized := by
  refine ⟨Nat.pos_of_ne_zero h, ?_, ?_⟩
  · rw [Dyadic.ofFloat]
    dsimp only
    have hfraction : x.toBits.toNat % Nat.pow 2 52 < 2 ^ 52 := Nat.mod_lt _ (by decide)
    have hhidden : Nat.pow 2 52 = 2 ^ 52 := rfl
    split <;> omega
  · rw [Dyadic.ofFloat]
    dsimp only
    split <;> omega

/-- The sign tells nothing about the form. -/
theorem Numeral.Formed.signed {n : Numeral} (h : n.Formed) (negative : Bool) :
    ({ n with negative } : Numeral).Formed :=
  ⟨h.whole, h.leading, h.fraction, h.exponent⟩

theorem Numeral.isSome_float?_signed {n : Numeral} (h : n.float?.isSome) (negative : Bool) :
    ({ n with negative } : Numeral).float?.isSome := by
  rw [Numeral.float?, Option.isSome_map] at h ⊢
  exact h

/-- **A text can hold the numeral of every floating-point number.** -/
theorem Numeral.formed_ofFloat (x : Float) : (Numeral.ofFloat x).Formed := by
  refine Formed.signed ?_ _
  split
  · refine ⟨digits_zero, fun _ => rfl, ?_, ?_⟩
    · rintro _ ⟨⟩
      exact digits_zero
    · rintro _ ⟨⟩
  · rename_i hne
    exact formed_ofScientific (Dyadic.digits_shortest_ne_zero (sized_ofFloat hne))

/-- **The numeral of a floating-point number of moderate size can be read.** -/
theorem Numeral.isSome_float?_ofFloat (h : (Dyadic.ofFloat x).exponent ≤ 15) :
    (Numeral.ofFloat x).float?.isSome := by
  refine isSome_float?_signed ?_ _
  split
  · refine isSome_float? (by decide) ?_
    rintro _ ⟨⟩
  · rename_i hne
    exact isSome_float?_ofScientific (Dyadic.place_shortest_le (sized_ofFloat hne) h)

/-- A quotient of counts is of moderate size. -/
theorem exponent_ofFloat_div_le {a b : Nat} (ha : a < Count.bound) (hb : b < Count.bound)
    (hne : b ≠ 0) : (Dyadic.ofFloat (Float.ofNat a / Float.ofNat b)).exponent ≤ 15 := by
  have hlogb : b.log2 < 64 := (Nat.log2_lt hne).mpr hb
  have hleads := leads_float_ofNat hne (by omega)
  by_cases hzero : a = 0
  · rw [hzero, exponent_ofFloat_zero_div hleads]
    decide
  · have hloga : a.log2 < 64 := (Nat.log2_lt hzero).mpr ha
    have hquotient := leads_float_div (leads_float_ofNat hzero (by omega)) hleads (by omega)
      (by omega)
    have := exponent_ofFloat_le hquotient
    omega

end Writing

end PointsTo.Json
