import Mathlib.Algebra.Group.Nat.Defs
import PointsTo.Decimal.Shortest

/-!
# The shortest decimal lies in its interval

The search for a decimal looks at seventeen grids at most. On the last one the distance of two
points is less than the interval is wide, so the nearest point lies in the interval, and the decimal
that is found reads back as the number.

## Main definitions

* `Interval.Reaches`: the number is no less than a power of ten
* `Dyadic.Sized`: integer and power of two are those of a floating-point number

## Main results

* `Interval.reaches_leading`: the power of ten of the leading digit is found
* `Dyadic.isSome_onGrid_seventeen`: seventeen digits suffice
* `Dyadic.holds_shortest`: the shortest decimal lies in the interval of its number
* `Dyadic.place_shortest_le`: a number of moderate size has few digits before the point
-/

namespace PointsTo.Decimal

/-- Powers of ten that differ by `k` places, each as a quotient. -/
theorem ten_pow_mul {a b : Int} {k : Nat} (h : a = b + k) :
    10 ^ a.toNat * 10 ^ (-b).toNat = 10 ^ k * 10 ^ b.toNat * 10 ^ (-a).toNat := by
  rw [← Nat.pow_add, ← Nat.pow_add, ← Nat.pow_add]
  congr 1
  omega

theorem two_pow_le_ten_pow (k : Nat) : 2 ^ (33 * k) ≤ 10 ^ (10 * k) := by
  rw [Nat.pow_mul, Nat.pow_mul]
  exact Nat.pow_le_pow_left (by decide) k

/-- The nearest integer is at most a half away. -/
theorem roundDiv_bounds (num : Nat) {den : Nat} (hden : 0 < den) :
    2 * num ≤ 2 * (roundDiv num den * den) + den ∧
      2 * (roundDiv num den * den) ≤ 2 * num + den := by
  have hdiv := Nat.div_add_mod num den
  have hmod := Nat.mod_lt num hden
  obtain ⟨q, hq⟩ : ∃ q, q = num / den := ⟨_, rfl⟩
  obtain ⟨r, hr⟩ : ∃ r, r = num % den := ⟨_, rfl⟩
  rw [← hq, ← hr] at hdiv
  rw [← hr] at hmod
  have hnext : (q + 1) * den = den * q + den := by rw [Nat.add_mul, Nat.one_mul, Nat.mul_comm]
  have hstay : q * den = den * q := Nat.mul_comm _ _
  simp only [roundDiv, ← hq, ← hr]
  split
  · omega
  · split
    · omega
    · rcases Nat.mod_two_eq_zero_or_one q with heven | hodd
      · rw [heven, Nat.add_zero]
        omega
      · rw [hodd]
        omega

namespace Interval

variable {i : Interval} {n : Nat} {e : Int}

/-! ## The leading digit -/

/-- The number is no less than the power of ten. -/
def Reaches (i : Interval) (e : Int) : Prop := i.den * 10 ^ e.toNat ≤ i.mid * 10 ^ (-e).toNat

/-- **The search for the leading digit ends at a power that the number reaches**, if it reaches the
last one. -/
theorem reaches_leading {fuel : Nat} {estimate : Int} (h : i.Reaches (estimate - fuel)) :
    i.Reaches (i.leading fuel estimate) := by
  induction fuel generalizing estimate with
  | zero => simpa [leading] using h
  | succ fuel ih =>
    rw [leading]
    split
    · rename_i hreaches
      exact hreaches
    · refine ih ?_
      rwa [show estimate - 1 - fuel = estimate - (fuel + 1 : Nat) by omega]

/-! ## Points of a grid -/

theorem holds_of_onGrid (h : i.onGrid e = some n) : i.holds n e = true := by
  have hchosen : ∀ near other : Nat, (if i.holds near e then some near
      else if i.holds other e then some other else none) = some n → i.holds n e = true := by
    intro near other h
    split at h
    · rename_i hnear
      exact Option.some.inj h ▸ hnear
    · split at h
      · rename_i hother
        exact Option.some.inj h ▸ hother
      · cases h
  exact hchosen _ _ h

/-- Moving a zero into the power of ten does not move the point. -/
theorem holds_div_ten (h : n % 10 = 0) : i.holds (n / 10) (e + 1) = i.holds n e := by
  obtain ⟨k, rfl⟩ : ∃ k, n = 10 * k := ⟨n / 10, by omega⟩
  rw [Nat.mul_div_cancel_left k (by decide)]
  rcases Int.lt_or_le e 0 with hneg | hpos
  · obtain ⟨u, hu⟩ : ∃ u, (-e).toNat = u + 1 := ⟨(-e).toNat - 1, by omega⟩
    have hle : ∀ a b : Nat, a * (10 ^ u * 10) ≤ 10 * b ↔ a * 10 ^ u ≤ b := fun a b => by
      rw [Nat.mul_comm 10 b, ← Nat.mul_assoc]
      exact Nat.mul_le_mul_right_iff (by decide)
    have hge : ∀ a b : Nat, 10 * b ≤ a * (10 ^ u * 10) ↔ b ≤ a * 10 ^ u := fun a b => by
      rw [Nat.mul_comm 10 b, ← Nat.mul_assoc]
      exact Nat.mul_le_mul_right_iff (by decide)
    simp only [holds, Nat.pow_eq, hu, show (-(e + 1)).toNat = u by omega,
      show e.toNat = 0 by omega, show (e + 1).toNat = 0 by omega, Nat.pow_zero, Nat.mul_one,
      Nat.pow_succ, Nat.mul_assoc 10 k, hle, hge, ← Nat.not_le]
  · simp only [holds, Nat.pow_eq, show (-(e + 1)).toNat = 0 by omega,
      show (-e).toNat = 0 by omega, show (e + 1).toNat = e.toNat + 1 by omega, Nat.pow_succ,
      Nat.mul_comm 10 k, Nat.mul_assoc, Nat.mul_comm (10 ^ e.toNat) 10]

/-- A point of the interval is positive. -/
theorem ne_zero_of_holds (hlow : 0 < i.low) (h : i.holds n e = true) : n ≠ 0 := by
  rintro rfl
  have hunit : 0 < i.low * 10 ^ (-e).toNat := Nat.mul_pos hlow (Nat.pow_pos (by decide))
  simp only [holds, Nat.pow_eq, Nat.zero_mul] at h
  split at h
  · simp only [Bool.and_eq_true, decide_eq_true_eq] at h
    omega
  · simp at h

/-- A point of the interval is no greater than its upper end. -/
theorem le_high_of_holds (h : i.holds n e = true) :
    n * 10 ^ e.toNat * i.den ≤ i.high * 10 ^ (-e).toNat := by
  simp only [holds, Nat.pow_eq] at h
  split at h
  · simp only [Bool.and_eq_true, decide_eq_true_eq] at h
    exact h.2
  · simp only [Bool.and_eq_true, decide_eq_true_eq] at h
    exact Nat.le_of_lt h.2

/-- On a grid that is finer than the interval on both sides of the number, the nearest point lies in
the interval. -/
theorem isSome_onGrid (hden : 0 < i.den) {below above : Nat} (hlow : i.low + below = i.mid)
    (hhigh : i.mid + above = i.high)
    (hbelow : i.den * 10 ^ e.toNat < 2 * (below * 10 ^ (-e).toNat))
    (habove : i.den * 10 ^ e.toNat < 2 * (above * 10 ^ (-e).toNat)) : (i.onGrid e).isSome := by
  obtain ⟨near, hnear⟩ : ∃ near,
      near = roundDiv (i.mid * 10 ^ (-e).toNat) (i.den * 10 ^ e.toNat) := ⟨_, rfl⟩
  have hunit : 0 < 10 ^ e.toNat := Nat.pow_pos (by decide)
  have hbounds := roundDiv_bounds (i.mid * 10 ^ (-e).toNat) (Nat.mul_pos hden hunit)
  rw [← hnear] at hbounds
  have hpoint : near * 10 ^ e.toNat * i.den = near * (i.den * 10 ^ e.toNat) := by
    rw [Nat.mul_assoc, Nat.mul_comm (10 ^ e.toNat)]
  have hfrom : i.low * 10 ^ (-e).toNat < near * 10 ^ e.toNat * i.den := by
    rw [← hlow, Nat.add_mul] at hbounds
    omega
  have hto : near * 10 ^ e.toNat * i.den < i.high * 10 ^ (-e).toNat := by
    rw [← hhigh, Nat.add_mul]
    omega
  have hholds : i.holds near e = true := by
    simp only [holds, Nat.pow_eq]
    split
    · simp [Nat.le_of_lt hfrom, Nat.le_of_lt hto]
    · simp [hfrom, hto]
  simp only [onGrid, Nat.pow_eq, ← hnear, hholds, if_true, Option.isSome_some]

/-- **The search finds a point of the interval** on the seventeenth grid at the latest. -/
theorem holds_search {lead : Int} (hlast : (i.onGrid (lead + 1 - 17)).isSome) {fuel count : Nat}
    (hcount : fuel + count = 17) :
    i.holds (i.search lead fuel count).digits (i.search lead fuel count).exponent = true := by
  induction fuel generalizing count with
  | zero =>
    obtain ⟨n, hn⟩ := Option.isSome_iff_exists.mp hlast
    obtain rfl : count = 17 := by omega
    rw [search]
    change i.holds ((i.onGrid (lead + 1 - 17)).getD 0) (lead + 1 - 17) = true
    rw [hn]
    exact holds_of_onGrid hn
  | succ fuel ih =>
    rw [search]
    split
    · rename_i n hn
      exact holds_of_onGrid hn
    · exact ih (by omega)

theorem holds_trim (fuel : Nat) {d : Scientific} (h : i.holds d.digits d.exponent = true) :
    i.holds (d.trim fuel).digits (d.trim fuel).exponent = true := by
  induction fuel generalizing d with
  | zero => exact h
  | succ fuel ih =>
    rw [Scientific.trim]
    split
    · rename_i hzero
      refine ih ?_
      rw [holds_div_ten hzero.2]
      exact h
    · exact h

end Interval

/-! ## Numbers with a mantissa of 53 bits -/

namespace Dyadic

variable {d : Dyadic}

/-- **A positive number of floating-point arithmetic**: its mantissa has at most 53 bits, and its
exponent is not too low. -/
structure Sized (d : Dyadic) : Prop where
  pos : 0 < d.mantissa
  lt : d.mantissa < 2 ^ 53
  exponent : -1074 ≤ d.exponent

/-- The ends of the interval, half a unit of the mantissa away; below a power of two a quarter. -/
theorem exists_ends (hd : d.Sized) :
    ∃ below, 0 < (Interval.ofDyadic d).low ∧
      (Interval.ofDyadic d).low + below * 2 ^ (d.exponent - 2).toNat = (Interval.ofDyadic d).mid ∧
      below ≤ 2 ∧ 2 * d.mantissa < below * 10 ^ 16 := by
  have hscale : 0 < 2 ^ (d.exponent - 2).toNat := Nat.two_pow_pos _
  obtain ⟨below, hbelow⟩ : ∃ below,
      below = if d.mantissa = 2 ^ 52 ∧ d.exponent ≠ -1074 then 1 else 2 := ⟨_, rfl⟩
  have hlow : (Interval.ofDyadic d).low =
      (4 * d.mantissa - below) * 2 ^ (d.exponent - 2).toNat := by
    rw [hbelow]
    rfl
  have hpos := hd.pos
  have hlt := hd.lt
  have hbounds : 1 ≤ below ∧ below ≤ 2 ∧ 2 * d.mantissa < below * 10 ^ 16 := by
    rw [hbelow]
    split
    · rename_i hpower
      omega
    · omega
  refine ⟨below, ?_, ?_, hbounds.2⟩
  · rw [hlow]
    exact Nat.mul_pos (by omega) hscale
  · rw [hlow, ← Nat.add_mul, Nat.sub_add_cancel (by omega)]
    rfl

theorem reaches_leading (hd : d.Sized) :
    (Interval.ofDyadic d).Reaches ((Interval.ofDyadic d).leading 640 309) := by
  refine Interval.reaches_leading ?_
  have hmid : 1 ≤ (Interval.ofDyadic d).mid :=
    Nat.mul_pos (Nat.mul_pos (by decide) hd.pos) (Nat.two_pow_pos _)
  have hden : (Interval.ofDyadic d).den = 2 ^ (-(d.exponent - 2)).toNat := rfl
  have hexponent := hd.exponent
  obtain ⟨k, hk⟩ : ∃ k, k = 33 := ⟨_, rfl⟩
  have hup : ((309 : Int) - (640 : Nat)).toNat = 0 := by decide
  have hdown : (-((309 : Int) - (640 : Nat))).toNat = 10 * k + 1 := by omega
  rw [Interval.Reaches, hup, hdown, hden, Nat.pow_zero, Nat.mul_one]
  calc
    _ ≤ 2 ^ (33 * k) := Nat.pow_le_pow_right (by decide) (by omega)
    _ ≤ 10 ^ (10 * k) := two_pow_le_ten_pow k
    _ ≤ 10 ^ (10 * k + 1) := Nat.pow_le_pow_right (by decide) (Nat.le_succ _)
    _ ≤ _ := Nat.le_mul_of_pos_left _ hmid

/-- **Seventeen digits suffice**: the grid of that many digits is finer than the interval. The
number has at least sixteen digits more than the grid, and at most 53 bits. -/
theorem isSome_onGrid_seventeen (hd : d.Sized) :
    ((Interval.ofDyadic d).onGrid
      ((Interval.ofDyadic d).leading 640 309 + 1 - 17)).isSome := by
  obtain ⟨below, -, hends, hle, hmantissa⟩ := exists_ends hd
  obtain ⟨lead, hlead⟩ : ∃ lead, lead = (Interval.ofDyadic d).leading 640 309 := ⟨_, rfl⟩
  have hreaches := reaches_leading hd
  rw [← hlead] at hreaches ⊢
  obtain ⟨e, he⟩ : ∃ e, e = lead + 1 - 17 := ⟨_, rfl⟩
  rw [← he]
  have hplaces := ten_pow_mul (show lead = e + (16 : Nat) by omega)
  obtain ⟨scale, hscale⟩ : ∃ scale, scale = 2 ^ (d.exponent - 2).toNat := ⟨_, rfl⟩
  have hmid : (Interval.ofDyadic d).mid = 4 * d.mantissa * scale := by
    rw [hscale]
    rfl
  have hpos : 0 < scale := hscale ▸ Nat.two_pow_pos _
  have hfine : (Interval.ofDyadic d).den * 10 ^ e.toNat <
      2 * (below * scale * 10 ^ (-e).toNat) := by
    have hunit : 0 < 10 ^ 16 * 10 ^ (-lead).toNat :=
      Nat.mul_pos (by decide) (Nat.pow_pos (by decide))
    refine Nat.lt_of_mul_lt_mul_right (a := 10 ^ 16 * 10 ^ (-lead).toNat) ?_
    calc
      _ = (Interval.ofDyadic d).den * 10 ^ lead.toNat * 10 ^ (-e).toNat := by
        rw [Nat.mul_assoc, Nat.mul_assoc, hplaces]
        ac_rfl
      _ ≤ 4 * d.mantissa * scale * 10 ^ (-lead).toNat * 10 ^ (-e).toNat :=
        Nat.mul_le_mul_right _ (hmid ▸ hreaches)
      _ = 2 * d.mantissa * (2 * (scale * 10 ^ (-e).toNat * 10 ^ (-lead).toNat)) := by
        rw [show 4 = 2 * 2 from rfl]
        ac_rfl
      _ < below * 10 ^ 16 * (2 * (scale * 10 ^ (-e).toNat * 10 ^ (-lead).toNat)) := by
        refine Nat.mul_lt_mul_of_pos_right hmantissa (Nat.mul_pos (by decide) ?_)
        exact Nat.mul_pos (Nat.mul_pos hpos (Nat.pow_pos (by decide))) (Nat.pow_pos (by decide))
      _ = _ := by ac_rfl
  have hhigh : (Interval.ofDyadic d).mid + 2 * scale = (Interval.ofDyadic d).high := by
    rw [hmid, ← Nat.add_mul, hscale]
    rfl
  refine Interval.isSome_onGrid (Nat.two_pow_pos _) (hscale ▸ hends) hhigh hfine ?_
  refine Nat.lt_of_lt_of_le hfine (Nat.mul_le_mul_left 2 ?_)
  exact Nat.mul_le_mul_right _ (Nat.mul_le_mul_right scale hle)

/-- **The shortest decimal lies in the interval of its number**, so it reads back. -/
theorem holds_shortest (hd : d.Sized) :
    (Interval.ofDyadic d).holds (shortest d).digits (shortest d).exponent = true :=
  Interval.holds_trim 32 (Interval.holds_search (isSome_onGrid_seventeen hd) rfl)

theorem digits_shortest_ne_zero (hd : d.Sized) : (shortest d).digits ≠ 0 := by
  obtain ⟨-, hlow, -⟩ := exists_ends hd
  exact Interval.ne_zero_of_holds hlow (holds_shortest hd)

/-- A number below `2 ^ 68` has at most 21 digits before the point. -/
theorem place_shortest_le (hd : d.Sized) (he : d.exponent ≤ 15) :
    (shortest d).exponent + (Nat.toDigits 10 (shortest d).digits).length ≤ 21 := by
  obtain ⟨n, hn⟩ : ∃ n, n = (shortest d).digits := ⟨_, rfl⟩
  obtain ⟨e, heq⟩ : ∃ e, e = (shortest d).exponent := ⟨_, rfl⟩
  have hne := digits_shortest_ne_zero hd
  have hholds := Interval.le_high_of_holds (holds_shortest hd)
  rw [← hn] at hne
  rw [← hn, ← heq] at hholds ⊢
  have hlt := hd.lt
  have hhigh : (Interval.ofDyadic d).high < 10 ^ 21 * (Interval.ofDyadic d).den := by
    calc
      _ < 2 ^ 55 * 2 ^ (d.exponent - 2).toNat :=
        Nat.mul_lt_mul_of_pos_right (show 4 * d.mantissa + 2 < 2 ^ 55 by omega)
          (Nat.two_pow_pos _)
      _ ≤ 2 ^ 68 * 2 ^ (-(d.exponent - 2)).toNat := by
        rw [← Nat.pow_add, ← Nat.pow_add]
        exact Nat.pow_le_pow_right (by decide) (by omega)
      _ ≤ _ := Nat.mul_le_mul_right _ (by decide)
  have hbound : n * 10 ^ e.toNat < 10 ^ 21 * 10 ^ (-e).toNat := by
    refine Nat.lt_of_mul_lt_mul_right (a := (Interval.ofDyadic d).den) ?_
    calc
      _ ≤ (Interval.ofDyadic d).high * 10 ^ (-e).toNat := hholds
      _ < 10 ^ 21 * (Interval.ofDyadic d).den * 10 ^ (-e).toNat :=
        Nat.mul_lt_mul_of_pos_right hhigh (Nat.pow_pos (by decide))
      _ = _ := by ac_rfl
  have hsmall : e < 21 := by
    refine Int.not_le.mp fun hge => Nat.not_lt_of_le ?_ hbound
    rw [show (-e).toNat = 0 by omega, Nat.pow_zero, Nat.mul_one]
    calc
      10 ^ 21 ≤ 10 ^ e.toNat := Nat.pow_le_pow_right (by decide) (by omega)
      _ ≤ _ := Nat.le_mul_of_pos_left _ (Nat.pos_of_ne_zero hne)
  obtain ⟨k, hk⟩ : ∃ k : Nat, (21 : Int) = e + k := ⟨(21 - e).toNat, by omega⟩
  have hplaces := ten_pow_mul hk
  have hdigits : n < 10 ^ k := by
    refine Nat.lt_of_mul_lt_mul_right (a := 10 ^ e.toNat) (Nat.lt_of_lt_of_eq hbound ?_)
    rw [show (21 : Int).toNat = 21 from rfl, show (-21 : Int).toNat = 0 from rfl] at hplaces
    rw [hplaces, Nat.pow_zero, Nat.mul_one]
  have hlength := (Nat.length_toDigits_le_iff (by decide) (by omega)).mpr hdigits
  omega

end Dyadic

end PointsTo.Decimal
