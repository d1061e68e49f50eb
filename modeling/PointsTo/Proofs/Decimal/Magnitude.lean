import Mathlib
import PointsTo.Decimal.Fixed

/-!
# The magnitude of floating-point numbers

Rounding moves the leading bit of a number by one place at most. So the leading bit of a product, of
a quotient or of a converted integer is known up to a few places, and a number whose leading bit
lies within the range of exponents is neither lost nor infinite.

## Main definitions

* `Leads`: a normal number whose leading bit has one of the given places

## Main results

* `leads_roundWithAccuracy`: rounding moves the leading bit by one place at most
* `leads_unpack_pack`: a normal number within the range of exponents is packed without loss
* `leads_float_ofNat`, `leads_float_mul`, `leads_float_div`: the leading bit of a conversion, a
  product, a quotient
* `exponent_ofFloat_le`: the power of two of a normal number
-/

namespace PointsTo.Decimal

open Float.Model Float.Model.UnpackedFloat

/-- **A normal number**, with 53 bits of mantissa, whose leading bit has a place from `low` to
`high`; the place of one is 1. -/
def Leads (low high : Int) : UnpackedFloat → Prop
  | .finite _ m e _ => m.log2 = 52 ∧ low ≤ totalExponent m e ∧ totalExponent m e ≤ high
  | _ => False

theorem Leads.mono {low high low' high' : Int} {u : UnpackedFloat} (h : Leads low high u)
    (hlow : low' ≤ low) (hhigh : high ≤ high') : Leads low' high' u := by
  cases u with
  | finite s m e hm => exact ⟨h.1, Int.le_trans hlow h.2.1, Int.le_trans h.2.2 hhigh⟩
  | _ => exact h

/-! ## Rounding -/

/-- Dropping bits lowers the binary logarithm. -/
theorem log2_div_two_pow {m k : Nat} (hk : k ≤ m.log2) (hm : m ≠ 0) :
    (m / 2 ^ k).log2 = m.log2 - k := by
  have hpos : 0 < 2 ^ k := Nat.two_pow_pos k
  have hlow : 2 ^ (m.log2 - k) ≤ m / 2 ^ k := by
    rw [Nat.le_div_iff_mul_le hpos, ← Nat.pow_add, Nat.sub_add_cancel hk]
    exact Nat.log2_self_le hm
  have hne : m / 2 ^ k ≠ 0 := Nat.ne_of_gt (Nat.lt_of_lt_of_le (Nat.two_pow_pos _) hlow)
  rw [Nat.log2_eq_iff hne]
  refine ⟨hlow, ?_⟩
  rw [Nat.div_lt_iff_lt_mul hpos, ← Nat.pow_add,
    show m.log2 - k + 1 + k = m.log2 + 1 by omega]
  exact Nat.lt_log2_self

theorem mantissa_shiftRight (em : ExtendedMantissa) (k : Nat) :
    (em >>> k).mantissa = em.mantissa / 2 ^ k := by
  change (Nat.repeat ExtendedMantissa.shiftRightOne k em).mantissa = _
  induction k with
  | zero => simp [Nat.repeat]
  | succ k ih =>
    change (Nat.repeat ExtendedMantissa.shiftRightOne k em).mantissa / 2 = _
    rw [ih, Nat.div_div_eq_div_mul, Nat.pow_succ]

theorem mantissa_ofMantissaAndAccuracy (m : Nat) (acc : Accuracy) :
    (ExtendedMantissa.ofMantissaAndAccuracy m acc).mantissa = m := by
  rcases acc with _ | (_ | _ | _) <;> rfl

/-- Rounding adds one at most. -/
theorem roundedMantissa_bounds (em : ExtendedMantissa) :
    em.mantissa ≤ em.roundedMantissa ∧ em.roundedMantissa ≤ em.mantissa + 1 := by
  rcases em with ⟨m, r, s⟩
  cases r <;> cases s <;>
    simp [ExtendedMantissa.roundedMantissa, ExtendedMantissa.accuracy, Accuracy.roundToNearestEven]
  omega

/-- A mantissa with more than 53 bits is cut to 53, unless the exponent is too low. -/
theorem shiftToTargetExponent_of_le {m : Nat} {e : Int} (acc : Accuracy) (hm : 52 ≤ m.log2)
    (he : -1021 ≤ totalExponent m e) :
    shiftToTargetExponent .binary64 m e acc =
      (ExtendedMantissa.ofMantissaAndAccuracy m acc >>> (m.log2 - 52),
        e + (m.log2 - 52 : Nat)) := by
  have htarget : Format.binary64.targetExponent (totalExponent m e) = totalExponent m e - 53 := by
    simp only [Format.targetExponent, Format.mantissaBits, Format.minExponent]
    omega
  have hshift : (totalExponent m e - 53 - e).toNat = m.log2 - 52 := by
    simp only [totalExponent]
    omega
  rw [shiftToTargetExponent, htarget, shiftToExponent, hshift]

/-- **Rounding moves the leading bit by one place at most.** The mantissa cut to 53 bits and rounded
has 53 bits again, or is a power of two with one more. -/
theorem leads_roundWithAccuracy {m : Nat} {e : Int} (s : Sign) (acc : Accuracy) (hm : 52 ≤ m.log2)
    (he : -1021 ≤ totalExponent m e) :
    Leads (totalExponent m e) (totalExponent m e + 1) (roundWithAccuracy .binary64 s m e acc) := by
  have hne : m ≠ 0 := by
    rintro rfl
    simp at hm
  have hcut : (m / 2 ^ (m.log2 - 52)).log2 = 52 := by
    rw [log2_div_two_pow (Nat.sub_le _ _) hne]
    omega
  have hcutne : m / 2 ^ (m.log2 - 52) ≠ 0 := fun h => by simp [h] at hcut
  obtain ⟨em, hem⟩ : ∃ em, em = ExtendedMantissa.ofMantissaAndAccuracy m acc >>> (m.log2 - 52) :=
    ⟨_, rfl⟩
  have hmantissa : em.mantissa = m / 2 ^ (m.log2 - 52) := by
    rw [hem, mantissa_shiftRight, mantissa_ofMantissaAndAccuracy]
  have hround := roundedMantissa_bounds em
  obtain ⟨hfrom, hto⟩ := (Nat.log2_eq_iff hcutne).mp hcut
  have hrne : em.roundedMantissa ≠ 0 := by omega
  have hrlow : 52 ≤ em.roundedMantissa.log2 := (Nat.le_log2 hrne).mpr (by omega)
  have hrhigh : em.roundedMantissa.log2 < 54 := (Nat.log2_lt hrne).mpr (by omega)
  have hplace : totalExponent em.roundedMantissa (e + (m.log2 - 52 : Nat)) =
      totalExponent m e + (em.roundedMantissa.log2 - 52 : Nat) := by
    simp only [totalExponent]
    omega
  have hlast : (em.roundedMantissa / 2 ^ (em.roundedMantissa.log2 - 52)).log2 = 52 := by
    rw [log2_div_two_pow (Nat.sub_le _ _) hrne]
    omega
  have hlastne : em.roundedMantissa / 2 ^ (em.roundedMantissa.log2 - 52) ≠ 0 := fun h => by
    simp [h] at hlast
  rw [roundWithAccuracy, shiftToTargetExponent_of_le acc hm he, ← hem]
  dsimp only
  rw [shiftToTargetExponent_of_le .exact hrlow (by omega)]
  dsimp only
  rw [mantissa_shiftRight, mantissa_ofMantissaAndAccuracy, dif_neg hlastne]
  refine ⟨hlast, ?_⟩
  simp only [totalExponent] at hplace ⊢
  omega

/-! ## Packing -/

theorem toNat_append_one (m : BitVec 52) : (1#1 ++ m).toNat = 2 ^ 52 + m.toNat := by
  rw [BitVec.toNat_append, ← Nat.shiftLeft_add_eq_or_of_lt m.isLt]
  simp [Nat.shiftLeft_eq]

/-- **A normal number within the range of exponents is packed without loss**, its sign aside. -/
theorem leads_unpack_pack {low high : Int} {u : UnpackedFloat} (h : Leads low high u)
    (hlow : -1021 ≤ low) (hhigh : high ≤ 1024) : Leads low high (Float.Model.pack u).unpack := by
  cases u with
  | finite s m e hm =>
    obtain ⟨hlog, hfrom, hto⟩ := h
    simp only [totalExponent, hlog] at hfrom hto
    obtain ⟨biased, hbiased⟩ : ∃ biased : Nat, (biased : Int) = e + 1075 :=
      ⟨(e + 1075).toNat, Int.toNat_of_nonneg (by omega)⟩
    have hpack : UnpackedFloat.pack .binary64 (.finite s m e hm) =
        packComponents .binary64 s (BitVec.ofNat 11 biased) (BitVec.ofNat 52 m) := by
      have hfield : (e + Format.binary64.exponentBias +
          Format.binary64.mantissaBitsWithoutImplicit).toNat = biased := by
        simp only [Format.exponentBias]
        omega
      rw [UnpackedFloat.pack, hfield, hlog, if_neg (by simp only; omega)]
      rfl
    have hexponent : (BitVec.ofNat 11 biased).toNat = biased := by
      rw [BitVec.toNat_ofNat, Nat.mod_eq_of_lt (by omega)]
    have hmantissa : (1#1 ++ BitVec.ofNat 52 m).toNat = m := by
      obtain ⟨hge, hlt⟩ := (Nat.log2_eq_iff (Nat.ne_of_gt hm)).mp hlog
      rw [toNat_append_one, BitVec.toNat_ofNat]
      omega
    have hordinary : BitVec.ofNat 11 biased ≠ -1#11 ∧ BitVec.ofNat 11 biased ≠ 0#11 := by
      refine ⟨fun heq => ?_, fun heq => ?_⟩
      · have := congrArg BitVec.toNat heq
        rw [hexponent, show (-1#11).toNat = 2047 from rfl] at this
        omega
      · have := congrArg BitVec.toNat heq
        rw [hexponent, show (0#11).toNat = 0 from rfl] at this
        omega
    change Leads low high (UnpackedFloat.unpack .binary64 (UnpackedFloat.pack .binary64 _))
    rw [hpack, UnpackedFloat.unpack]
    simp only [unpackExponent_packComponents, unpackMantissa_packComponents]
    rw [if_neg hordinary.1, if_neg hordinary.2]
    have hbias : Format.binary64.exponentBias = 1023 := rfl
    simp only [Leads, hmantissa, hexponent, totalExponent, hlog, hbias, true_and]
    omega
  | _ => exact h.elim

/-! ## Conversion -/

theorem log2_shiftLeft {m : Nat} (hm : m ≠ 0) (k : Nat) : (m <<< k).log2 = m.log2 + k := by
  have hpos : 0 < 2 ^ k := Nat.two_pow_pos k
  obtain ⟨hlow, hhigh⟩ := (Nat.log2_eq_iff hm).mp rfl
  rw [Nat.shiftLeft_eq, Nat.log2_eq_iff (Nat.mul_ne_zero hm (Nat.ne_of_gt hpos))]
  refine ⟨?_, ?_⟩
  · rw [Nat.pow_add]
    exact Nat.mul_le_mul_right _ hlow
  · rw [show m.log2 + k + 1 = m.log2 + 1 + k by omega, Nat.pow_add]
    exact Nat.mul_lt_mul_of_pos_right hhigh hpos

theorem leads_round {m : Nat} {e : Int} (s : Sign) (hm : m ≠ 0) (he : -1021 ≤ totalExponent m e) :
    Leads (totalExponent m e) (totalExponent m e + 1) (round .binary64 s m e) := by
  have htarget : Format.binary64.targetExponent (totalExponent m e) = totalExponent m e - 53 := by
    simp only [Format.targetExponent, Format.mantissaBits, Format.minExponent]
    omega
  have hshift : (e - (totalExponent m e - 53)).toNat = 52 - m.log2 := by
    simp only [totalExponent]
    omega
  have hlog := log2_shiftLeft hm (52 - m.log2)
  have hplace : totalExponent (m <<< (52 - m.log2)) (e - (52 - m.log2 : Nat)) =
      totalExponent m e := by
    simp only [totalExponent, hlog]
    omega
  rw [UnpackedFloat.round, htarget, decreaseExponent, hshift]
  have hrounded := leads_roundWithAccuracy s .exact (show 52 ≤ (m <<< (52 - m.log2)).log2 by omega)
    (hplace ▸ he)
  rwa [hplace] at hrounded

/-! ## Products and quotients -/

theorem leads_mul {a b c d : Int} {u v : UnpackedFloat} (hu : Leads a b u) (hv : Leads c d v)
    (hlow : -1020 ≤ a + c) : Leads (a + c - 1) (b + d + 1) (mul .binary64 u v) := by
  cases u with
  | finite s m e hm =>
    cases v with
    | finite s' m' e' hm' =>
      obtain ⟨hlog, hfrom, hto⟩ := hu
      obtain ⟨hlog', hfrom', hto'⟩ := hv
      obtain ⟨hge, hlt⟩ := (Nat.log2_eq_iff (Nat.ne_of_gt hm)).mp hlog
      obtain ⟨hge', hlt'⟩ := (Nat.log2_eq_iff (Nat.ne_of_gt hm')).mp hlog'
      have hne : m * m' ≠ 0 := Nat.mul_ne_zero (Nat.ne_of_gt hm) (Nat.ne_of_gt hm')
      have hproduct : 2 ^ 52 * 2 ^ 52 ≤ m * m' ∧ m * m' < 2 ^ 53 * 2 ^ 53 :=
        ⟨Nat.mul_le_mul hge hge', Nat.mul_lt_mul'' hlt hlt'⟩
      rw [← Nat.pow_add, ← Nat.pow_add] at hproduct
      have hmin : 104 ≤ (m * m').log2 := (Nat.le_log2 hne).mpr hproduct.1
      have hmax : (m * m').log2 < 106 := (Nat.log2_lt hne).mpr hproduct.2
      have hplace : totalExponent m e + totalExponent m' e' - 1 ≤ totalExponent (m * m') (e + e') ∧
          totalExponent (m * m') (e + e') ≤ totalExponent m e + totalExponent m' e' := by
        simp only [totalExponent, hlog, hlog']
        omega
      exact (leads_roundWithAccuracy _ .exact (by omega) (by omega)).mono (by omega) (by omega)
    | _ => exact hv.elim
  | _ => exact hu.elim

/-- The dividend is lengthened by 53 bits, so the quotient has 53 or 54. -/
theorem leads_div {a b c d : Int} {u v : UnpackedFloat} (hu : Leads a b u) (hv : Leads c d v)
    (hlow : -1021 ≤ a - d) : Leads (a - d) (b - c + 2) (div .binary64 u v) := by
  cases u with
  | finite s m e hm =>
    cases v with
    | finite s' m' e' hm' =>
      obtain ⟨hlog, hfrom, hto⟩ := hu
      obtain ⟨hlog', hfrom', hto'⟩ := hv
      obtain ⟨hge, hlt⟩ := (Nat.log2_eq_iff (Nat.ne_of_gt hm)).mp hlog
      obtain ⟨hge', hlt'⟩ := (Nat.log2_eq_iff (Nat.ne_of_gt hm')).mp hlog'
      have hcore : divCore .binary64 m e m' e' =
          ((m <<< 53) / m', e - e' - 53, accuracyOfFraction ((m <<< 53) % m') m') := by
        have htarget : min (e - e')
            (Format.binary64.targetExponent (totalExponent m e - totalExponent m' e')) =
              e - e' - 53 := by
          simp only [Format.targetExponent, Format.mantissaBits, Format.minExponent, totalExponent,
            hlog, hlog'] at *
          omega
        rw [divCore, htarget, show (e - e' - (e - e' - 53)).toNat = 53 by omega]
      have hquotient : 2 ^ 52 ≤ (m <<< 53) / m' ∧ (m <<< 53) / m' < 2 ^ 54 := by
        rw [Nat.le_div_iff_mul_le hm', Nat.div_lt_iff_lt_mul hm', Nat.shiftLeft_eq]
        omega
      have hne : (m <<< 53) / m' ≠ 0 := by omega
      have hmin : 52 ≤ ((m <<< 53) / m').log2 := (Nat.le_log2 hne).mpr hquotient.1
      have hmax : ((m <<< 53) / m').log2 < 54 := (Nat.log2_lt hne).mpr hquotient.2
      have hplace : totalExponent m e - totalExponent m' e' ≤
            totalExponent ((m <<< 53) / m') (e - e' - 53) ∧
          totalExponent ((m <<< 53) / m') (e - e' - 53) ≤
            totalExponent m e - totalExponent m' e' + 1 := by
        simp only [totalExponent, hlog, hlog']
        omega
      rw [UnpackedFloat.div, hcore]
      exact (leads_roundWithAccuracy _ _ hmin (by omega)).mono (by omega) (by omega)
    | _ => exact hv.elim
  | _ => exact hu.elim

/-! ## Floating-point numbers -/

section

variable {x y : Float} {a b c d : Int}

theorem leads_float_mul (hx : Leads a b x.toModel.unpack) (hy : Leads c d y.toModel.unpack)
    (hlow : -1020 ≤ a + c) (hhigh : b + d ≤ 1023) :
    Leads (a + c - 1) (b + d + 1) (x * y).toModel.unpack :=
  leads_unpack_pack (leads_mul hx hy hlow) (by omega) (by omega)

theorem leads_float_div (hx : Leads a b x.toModel.unpack) (hy : Leads c d y.toModel.unpack)
    (hlow : -1021 ≤ a - d) (hhigh : b - c ≤ 1022) :
    Leads (a - d) (b - c + 2) (x / y).toModel.unpack :=
  leads_unpack_pack (leads_div hx hy hlow) (by omega) (by omega)

end

/-- **The leading bit of a converted integer.** A small integer is converted as a word and
multiplied by one, a great one is lengthened by 53 bits and rounded. -/
theorem leads_float_ofNat {n : Nat} (hn : n ≠ 0) (hlog : n.log2 ≤ 1000) :
    Leads (n.log2 + 1) (n.log2 + 4) (Float.ofNat n).toModel.unpack := by
  have hplace : totalExponent n 0 = n.log2 + 1 := Int.add_zero _
  change Leads _ _ (Float.ofScientific n false 0).toModel.unpack
  rw [Float.ofScientific]
  split
  · rename_i hsmall
    have hword : n.toUInt64.toNat = n := Nat.mod_eq_of_lt (Nat.lt_trans hsmall.1 (by decide))
    have hconverted : Leads (n.log2 + 1) (n.log2 + 2) n.toUInt64.toFloat.toModel.unpack := by
      refine leads_unpack_pack (u := ofNat .binary64 n.toUInt64.toNat) ?_ (by omega) (by omega)
      rw [hword, UnpackedFloat.ofNat, UnpackedFloat.ofInt, UnpackedFloat.normalize,
        Int.compare_eq_gt.mpr (by omega)]
      have hround := leads_round .positive hn (show -1021 ≤ totalExponent n 0 by omega)
      exact hround.mono (by omega) (by omega)
    have hone : Leads 1 1 (Float.ofBits 0x3FF0000000000000).toModel.unpack := by
      refine ⟨by decide, by decide, by decide⟩
    exact (leads_float_mul hconverted hone (by omega) (by omega)).mono (by omega) (by omega)
  · obtain ⟨m, hm⟩ : ∃ m, m = n <<< 53 * 10 ^ (0 : Int).toNat := ⟨_, rfl⟩
    have hwide : m.log2 = n.log2 + 53 := by
      rw [hm, Int.toNat_zero, Nat.pow_zero, Nat.mul_one, log2_shiftLeft hn]
    have hlong : totalExponent m (-53 + 0) = n.log2 + 1 := by
      rw [totalExponent, hwide]
      omega
    have hgreat : ¬ (0 : Int) < -((2 ^ 11 : Int) + n.log2) := by omega
    have hscientific : ofScientific .binary64 n 0 =
        roundWithAccuracy .binary64 .positive m (-53 + 0) .exact := by
      rw [UnpackedFloat.ofScientific, dif_neg hn, if_neg (by decide), if_neg hgreat,
        if_pos (by decide), hm]
      rfl
    refine leads_unpack_pack (u := ofScientific .binary64 n 0) ?_ (by omega) (by omega)
    rw [hscientific]
    exact (leads_roundWithAccuracy .positive .exact (by omega) (by omega)).mono
      (by omega) (by omega)

/-! ## What the magnitude tells -/

theorem isInf_eq_false_of_leads {x : Float} {a b : Int} (h : Leads a b x.toModel.unpack) :
    x.isInf = false := by
  change x.toModel.unpack.isInf = false
  cases hu : x.toModel.unpack with
  | infinity s =>
    rw [hu] at h
    exact h.elim
  | _ => rfl

theorem toNat_unpackExponent (bits : UInt64) :
    (@unpackExponent .binary64 bits.toBitVec).toNat = bits.toNat / 2 ^ 52 % 2 ^ 11 := by
  simp [unpackExponent, BitVec.extractLsb, BitVec.extractLsb'_toNat, Nat.shiftRight_eq_div_pow]

/-- **The power of two of a normal number** follows from its leading bit. -/
theorem exponent_ofFloat_le {x : Float} {a b : Int} (h : Leads a b x.toModel.unpack) :
    (Dyadic.ofFloat x).exponent ≤ b - 53 := by
  obtain ⟨field, hfield⟩ : ∃ field, field = @unpackExponent .binary64 x.toBits.toBitVec := ⟨_, rfl⟩
  obtain ⟨m, hm⟩ : ∃ m, m = @unpackMantissa .binary64 x.toBits.toBitVec := ⟨_, rfl⟩
  have hexponent : (Dyadic.ofFloat x).exponent =
      (if field.toNat = 0 then 1 else field.toNat : Nat) - 1075 := by
    rw [hfield, toNat_unpackExponent]
    rfl
  change Leads a b (UnpackedFloat.unpack .binary64 x.toBits.toBitVec) at h
  simp only [UnpackedFloat.unpack, ← hfield, ← hm] at h
  split at h
  · split at h
    · exact h.elim
    · exact h.elim
  · split at h
    · split at h
      · exact h.elim
      · rename_i hne
        have hpos : m.toNat ≠ 0 := fun heq => hne (BitVec.eq_of_toNat_eq heq)
        obtain ⟨hge, -⟩ := (Nat.log2_eq_iff hpos).mp h.1
        exact absurd m.isLt (Nat.not_lt_of_le hge)
    · rename_i hordinary hne
      have hpos : field.toNat ≠ 0 := fun heq => hne (BitVec.eq_of_toNat_eq heq)
      have hbias : Format.binary64.exponentBias = 1023 := rfl
      have hto := h.2.2
      rw [totalExponent, h.1, hbias] at hto
      rw [hexponent, if_neg hpos]
      omega

/-- Zero divided by a normal number is a zero. -/
theorem exponent_ofFloat_zero_div {y : Float} {c d : Int} (hy : Leads c d y.toModel.unpack) :
    (Dyadic.ofFloat (Float.ofNat 0 / y)).exponent = -1074 := by
  have hdiv : Float.ofNat 0 / y =
    Float.ofModel (Float.Model.pack (div .binary64 (.zero .positive) y.toModel.unpack)) := rfl
  rw [hdiv]
  cases hu : y.toModel.unpack with
  | finite s m e hm =>
    cases s with
    | positive =>
      change (Dyadic.ofFloat (Float.ofModel (Float.Model.pack (.zero .positive)))).exponent = -1074
      decide
    | negative =>
      change (Dyadic.ofFloat (Float.ofModel (Float.Model.pack (.zero .negative)))).exponent = -1074
      decide
  | _ =>
    rw [hu] at hy
    exact hy.elim

end PointsTo.Decimal
