import PointsTo.Json.Reader
import PointsTo.Json.Writer

/-!
# The texts of a value

The texts of one JSON value differ in their blanks only, which may stand in front of every part.
Reading is complete: every text of a value is read as that value. Both writers write a text of the
value, with blanks and without, so what they write is read back.

## Main definitions

* `Numeral.Formed`, `Quotable`: numbers and strings that a text can hold
* `Formed`: a value made of these
* `Piece`: what a part of a text writes
* `Writes`: the texts of a piece

## Main results

* `Writes.reads`: every text of a value is read as the value
* `Formed.writes_pretty`, `Formed.writes_compact`: the text over several lines and the one without
  blanks are texts of the value
* `parse?_pretty`, `parse?_compact`: they are read back
-/

namespace PointsTo.Json

/-! ## Numbers and strings -/

/-- Digits, at least one. -/
structure Digits (cs : List Char) : Prop where
  ne_nil : cs ≠ []
  isDigit : ∀ c ∈ cs, c.isDigit = true

/-- **A number that a text can hold**: a zero in front of the point stands alone. -/
structure Numeral.Formed (n : Numeral) : Prop where
  whole : Digits n.whole
  leading : n.whole.head? = some '0' → n.whole.length = 1
  fraction : ∀ digits ∈ n.fraction, Digits digits
  exponent : ∀ e ∈ n.exponent, Digits e.2

/-- **What may stand between quotes**: characters that need no escape, and escapes. -/
inductive Quotable : List Char → Prop
  | nil : Quotable []
  | plain {c : Char} {raw : List Char} : 32 ≤ c.toNat → c ≠ '"' → c ≠ '\\' → Quotable raw →
      Quotable (c :: raw)
  | named {c : Char} {raw : List Char} : (namedEscape? c).isSome → Quotable raw →
      Quotable ('\\' :: c :: raw)
  | code {a b c d : Char} {raw : List Char} : (hexNumber? a b c d).isSome → Quotable raw →
      Quotable ('\\' :: 'u' :: a :: b :: c :: d :: raw)

/-- Whether a number could go on with the character. -/
def continuesNumeral (c : Char) : Bool := c.isDigit || c = '.' || c = 'e' || c = 'E'

/-- What follows does not continue a number. -/
def Ends (rest : List Char) : Prop := ∀ c ∈ rest.head?, continuesNumeral c = false

section Leaves

variable {n : Numeral} {ds cs rest raw : List Char} {c : Char}

theorem readDigits_append (h : Digits ds) (hrest : ∀ c ∈ rest.head?, c.isDigit = false) :
    readDigits (ds ++ rest) = some (ds, rest) := by
  have htake : (ds ++ rest).takeWhile Char.isDigit = ds := by
    rw [List.takeWhile_append_of_pos h.isDigit]
    cases rest with
    | nil => simp
    | cons c rest => simp [hrest c rfl]
  have hdrop : (ds ++ rest).dropWhile Char.isDigit = rest := by
    rw [List.dropWhile_append_of_pos h.isDigit]
    cases rest with
    | nil => rfl
    | cons c rest => simp [hrest c rfl]
  rw [readDigits, htake, hdrop]
  cases ds with
  | nil => exact absurd rfl h.ne_nil
  | cons c ds => rfl

theorem readWhole_append (h : n.Formed) (hrest : ∀ c ∈ rest.head?, c.isDigit = false) :
    readWhole (n.whole ++ rest) = some (n.whole, rest) := by
  rw [readWhole, readDigits_append h.whole hrest]
  split
  · rename_i heq
    obtain ⟨hwhole, -⟩ := Prod.mk.inj (Option.some.inj heq)
    have hleading := h.leading (by rw [hwhole]; rfl)
    rw [hwhole] at hleading
    simp at hleading
  · rfl

/-- The text of a fraction, the point included. -/
def fractionText : Option (List Char) → List Char
  | none => []
  | some digits => '.' :: digits

/-- The text of an exponent, with its sign. -/
def exponentText : Option (Bool × List Char) → List Char
  | none => []
  | some (negative, digits) => 'e' :: (if negative then '-' else '+') :: digits

theorem Numeral.text_eq (n : Numeral) :
    n.text = (if n.negative then ['-'] else []) ++
      (n.whole ++ (fractionText n.fraction ++ exponentText n.exponent)) := by
  rcases n with ⟨negative, whole, _ | fraction, _ | ⟨sign, exponent⟩⟩ <;>
    simp [Numeral.text, fractionText, exponentText]

theorem Ends.not_continues (h : Ends rest) (hc : c ∈ rest.head?) :
    c.isDigit = false ∧ c ≠ '.' ∧ c ≠ 'e' ∧ c ≠ 'E' := by
  have hends := h c hc
  simp only [continuesNumeral, Bool.or_eq_false_iff, decide_eq_false_iff_not] at hends
  exact ⟨hends.1.1.1, hends.1.1.2, hends.1.2, hends.2⟩

theorem readExponent_append (h : n.Formed) (hrest : Ends rest) :
    readExponent (exponentText n.exponent ++ rest) = some (n.exponent, rest) := by
  cases he : n.exponent with
  | none =>
    change readExponent rest = some (none, rest)
    rw [readExponent]
    · rintro rest rfl
      exact (hrest.not_continues rfl).2.2.1 rfl
    · rintro rest rfl
      exact (hrest.not_continues rfl).2.2.2 rfl
  | some e =>
    obtain ⟨negative, digits⟩ := e
    have hdigits := readDigits_append (h.exponent _ he) fun c hc => (hrest.not_continues hc).1
    cases negative <;> simp [exponentText, readExponent, readSign, hdigits]

theorem readFraction_append (h : n.Formed)
    (hrest : ∀ c ∈ rest.head?, c.isDigit = false ∧ c ≠ '.') :
    readFraction (fractionText n.fraction ++ rest) = some (n.fraction, rest) := by
  cases hf : n.fraction with
  | none =>
    change readFraction rest = some (none, rest)
    rw [readFraction]
    rintro rest rfl
    exact (hrest _ rfl).2 rfl
  | some digits =>
    have hdigits := readDigits_append (h.fraction _ hf) fun c hc => (hrest c hc).1
    simp [fractionText, readFraction, hdigits]

/-- **A number is read up to where it ends.** Neither a point nor the mark of an exponent is a
digit. -/
theorem readNumeral_append (h : n.Formed) (hrest : Ends rest) :
    readNumeral n.negative
      (n.whole ++ (fractionText n.fraction ++ exponentText n.exponent) ++ rest) =
        some (n, rest) := by
  have hexponent : ∀ c ∈ (exponentText n.exponent ++ rest).head?, c.isDigit = false ∧ c ≠ '.' := by
    cases n.exponent with
    | none => exact fun c hc => ⟨(hrest.not_continues hc).1, (hrest.not_continues hc).2.1⟩
    | some e =>
      rintro c ⟨⟩
      decide
  have hfraction : ∀ c ∈ (fractionText n.fraction ++ (exponentText n.exponent ++ rest)).head?,
      c.isDigit = false := by
    cases n.fraction with
    | none => exact fun c hc => (hexponent c hc).1
    | some digits =>
      rintro c ⟨⟩
      decide
  rw [List.append_assoc, List.append_assoc, readNumeral, readWhole_append h hfraction]
  simp only [readFraction_append h hexponent, readExponent_append h hrest, Option.map_some]

/-- **A string is read up to its closing quote.** -/
theorem Quotable.readString_append (h : Quotable raw) (rest : List Char) :
    readString (raw ++ '"' :: rest) = some (raw, rest) := by
  induction h with
  | nil => rfl
  | @plain c raw hc hquote hslash _ ih =>
    have hplain : ¬ (c.toNat < 32 || c = '\\') = true := by
      simp [hslash]
      omega
    rw [List.cons_append, readString, if_neg hplain, ih]
    · rfl
    · exact hquote
    · exact fun _ _ _ _ _ heq => absurd heq hslash
    · exact fun _ _ heq => absurd heq hslash
  | @named c raw hc _ ih =>
    obtain ⟨named, hnamed⟩ := Option.isSome_iff_exists.mp hc
    rw [List.cons_append, List.cons_append, readString, hnamed]
    · simp only [ih, Option.map_some]
    · rintro _ _ _ _ _ rfl
      cases hnamed
  | @code a b c d raw hcode _ ih =>
    obtain ⟨number, hnumber⟩ := Option.isSome_iff_exists.mp hcode
    simp only [List.cons_append]
    rw [readString, hnumber]
    simp only [ih, Option.map_some]

/-- What is escaped may stand between quotes. -/
theorem Quotable.append (h : Quotable raw) (hrest : Quotable rest) : Quotable (raw ++ rest) := by
  induction h with
  | nil => exact hrest
  | plain hc hquote hslash _ ih => exact .plain hc hquote hslash ih
  | named hc _ ih => exact .named hc ih
  | code hcode _ ih => exact .code hcode ih

theorem quotable_escapeChar (c : Char) : Quotable (escapeChar c) := by
  unfold escapeChar
  iterate 7
    split
    · exact .named (by decide) .nil
  split
  · rename_i hcontrol
    exact .code (by rw [hexNumber?_control c.toNat hcontrol]; rfl) .nil
  · rename_i hquote hslash _ _ _ _ _ hcontrol
    exact .plain (Nat.le_of_not_lt hcontrol) hquote hslash .nil

theorem quotable_escape (s : String) : Quotable (escape s) := by
  rw [escape]
  induction s.toList with
  | nil => exact .nil
  | cons c cs ih =>
    rw [List.flatMap_cons]
    exact (quotable_escapeChar c).append ih

end Leaves

/-! ## Values -/

/-- **A value that a text can hold.** -/
inductive Formed : Json → Prop
  | null : Formed .null
  | bool (b : Bool) : Formed (.bool b)
  | number {n : Numeral} : n.Formed → Formed (.number n)
  | string {raw : List Char} : Quotable raw → Formed (.string raw)
  | array {items : List Json} : (∀ item ∈ items, Formed item) → Formed (.array items)
  | object {members : List (List Char × Json)} : (∀ m ∈ members, Quotable m.1) →
      (∀ m ∈ members, Formed m.2) → Formed (.object members)

/-- What a part of a text writes. -/
inductive Piece where
  /-- A value. -/
  | value (j : Json)
  /-- Items of an array, and its bracket. -/
  | items (items : List Json)
  /-- What follows an item: a comma and more items, or the bracket. -/
  | moreItems (items : List Json)
  /-- Members of an object, and its brace. -/
  | members (members : List (List Char × Json))
  /-- What follows a key: a colon, the value, and what follows the member. -/
  | afterKey (j : Json) (members : List (List Char × Json))
  /-- What follows a member: a comma and more members, or the brace. -/
  | moreMembers (members : List (List Char × Json))

/-- **The texts of a piece.** Blanks may stand in front of every piece. -/
inductive Writes : Piece → List Char → Prop
  | blank {p : Piece} {c : Char} {cs : List Char} : isBlank c = true → Writes p cs →
      Writes p (c :: cs)
  | null : Writes (.value .null) "null".toList
  | bool (b : Bool) : Writes (.value (.bool b)) (if b then "true" else "false").toList
  | number {n : Numeral} : n.Formed → Writes (.value (.number n)) n.text
  | string {raw : List Char} : Quotable raw → Writes (.value (.string raw)) (quoted raw)
  | emptyArray {bs : List Char} : (∀ c ∈ bs, isBlank c = true) →
      Writes (.value (.array [])) ('[' :: (bs ++ [']']))
  | array {item : Json} {items : List Json} {cs : List Char} : Writes (.items (item :: items)) cs →
      Writes (.value (.array (item :: items))) ('[' :: cs)
  | items {item : Json} {items : List Json} {cs ds : List Char} : Writes (.value item) cs →
      Writes (.moreItems items) ds → Writes (.items (item :: items)) (cs ++ ds)
  | bracket : Writes (.moreItems []) [']']
  | nextItem {item : Json} {items : List Json} {cs : List Char} :
      Writes (.items (item :: items)) cs → Writes (.moreItems (item :: items)) (',' :: cs)
  | emptyObject {bs : List Char} : (∀ c ∈ bs, isBlank c = true) →
      Writes (.value (.object [])) ('\x7b' :: (bs ++ ['\x7d']))
  | object {m : List Char × Json} {ms : List (List Char × Json)} {cs : List Char} :
      Writes (.members (m :: ms)) cs → Writes (.value (.object (m :: ms))) ('\x7b' :: cs)
  | members {key : List Char} {j : Json} {ms : List (List Char × Json)} {cs : List Char} :
      Quotable key → Writes (.afterKey j ms) cs →
      Writes (.members ((key, j) :: ms)) (quoted key ++ cs)
  | colon {j : Json} {ms : List (List Char × Json)} {cs ds : List Char} : Writes (.value j) cs →
      Writes (.moreMembers ms) ds → Writes (.afterKey j ms) (':' :: (cs ++ ds))
  | brace : Writes (.moreMembers []) ['\x7d']
  | nextMember {m : List Char × Json} {ms : List (List Char × Json)} {cs : List Char} :
      Writes (.members (m :: ms)) cs → Writes (.moreMembers (m :: ms)) (',' :: cs)

theorem Writes.blanks {p : Piece} {bs cs : List Char} (hbs : ∀ c ∈ bs, isBlank c = true)
    (h : Writes p cs) : Writes p (bs ++ cs) := by
  induction bs with
  | nil => exact h
  | cons c bs ih =>
    exact .blank (hbs c List.mem_cons_self) (ih fun d hd => hbs d (List.mem_cons_of_mem c hd))

/-! ## How a piece begins -/

/-- Whether a piece may begin with the character, blanks aside. -/
def Piece.begins : Piece → Char → Bool
  | value _ | items _ => (· != ']')
  | members _ => (· != '\x7d')
  | afterKey _ _ => (· == ':')
  | moreItems _ | moreMembers _ => (!continuesNumeral ·)

theorem skipBlanks_cons_of_blank {c : Char} (hc : isBlank c = true) (cs : List Char) :
    skipBlanks (c :: cs) = skipBlanks cs := by
  simp [skipBlanks, hc]

theorem skipBlanks_cons {c : Char} (hc : isBlank c = false) (cs : List Char) :
    skipBlanks (c :: cs) = c :: cs := by
  simp [skipBlanks, hc]

/-- No blank continues a number. -/
theorem continuesNumeral_of_isBlank {c : Char} (hc : isBlank c = true) :
    continuesNumeral c = false := by
  simp only [isBlank, Bool.or_eq_true, decide_eq_true_eq] at hc
  rcases hc with ((rfl | rfl) | rfl) | rfl <;> decide

theorem Numeral.Formed.exists_text {n : Numeral} (h : n.Formed) :
    ∃ c tail, n.text = c :: tail ∧ (c = '-' ∨ c.isDigit = true) := by
  rw [Numeral.text_eq]
  cases n.negative with
  | true => exact ⟨'-', _, rfl, .inl rfl⟩
  | false =>
    obtain ⟨c, ds, hwhole⟩ := List.exists_cons_of_ne_nil h.whole.ne_nil
    rw [hwhole]
    exact ⟨c, _, rfl, .inr (h.whole.isDigit c (hwhole ▸ List.mem_cons_self))⟩

/-- Behind the blanks a piece begins as it may. -/
theorem Writes.exists_skipBlanks {p : Piece} {cs : List Char} (h : Writes p cs) :
    ∃ c tail, p.begins c = true ∧ ∀ rest, skipBlanks (cs ++ rest) = c :: (tail ++ rest) := by
  induction h with
  | blank hc _ ih =>
    obtain ⟨c, tail, hbegins, hskip⟩ := ih
    exact ⟨c, tail, hbegins, fun rest => (skipBlanks_cons_of_blank hc _).trans (hskip rest)⟩
  | number hn =>
    obtain ⟨c, tail, htext, hc⟩ := hn.exists_text
    have hnot : isBlank c = false ∧ c ≠ ']' := by
      rcases hc with rfl | hc
      · decide
      · refine ⟨Bool.eq_false_iff.mpr fun hblank => ?_, fun heq => ?_⟩
        · have hends := continuesNumeral_of_isBlank hblank
          simp [continuesNumeral, hc] at hends
        · rw [heq] at hc
          exact absurd hc (by decide)
    refine ⟨c, tail, by simp [Piece.begins, hnot.2], fun rest => ?_⟩
    rw [htext]
    exact skipBlanks_cons hnot.1 _
  | @items _ _ cs ds _ _ ih _ =>
    obtain ⟨c, tail, hbegins, hskip⟩ := ih
    refine ⟨c, tail ++ ds, hbegins, fun rest => ?_⟩
    rw [List.append_assoc, List.append_assoc]
    exact hskip _
  | null => exact ⟨'n', "ull".toList, rfl, fun rest => rfl⟩
  | bool b =>
    cases b with
    | true => exact ⟨'t', "rue".toList, rfl, fun rest => rfl⟩
    | false => exact ⟨'f', "alse".toList, rfl, fun rest => rfl⟩
  | string _ => exact ⟨'"', _, rfl, fun rest => rfl⟩
  | emptyArray _ | array _ _ => exact ⟨'[', _, rfl, fun rest => rfl⟩
  | emptyObject _ | object _ _ => exact ⟨'\x7b', _, rfl, fun rest => rfl⟩
  | members _ _ _ => exact ⟨'"', _, rfl, fun rest => rfl⟩
  | colon _ _ _ _ => exact ⟨':', _, rfl, fun rest => rfl⟩
  | nextItem _ _ | nextMember _ _ => exact ⟨',', _, rfl, fun rest => rfl⟩
  | bracket => exact ⟨']', [], rfl, fun rest => rfl⟩
  | brace => exact ⟨'\x7d', [], rfl, fun rest => rfl⟩

/-- A number ends where what follows an item or a member begins, be it with a blank. -/
theorem Writes.ends {p : Piece} {cs : List Char} (h : Writes p cs)
    (hp : p.begins = (!continuesNumeral ·)) (rest : List Char) : Ends (cs ++ rest) := by
  obtain ⟨c, tail, hbegins, hskip⟩ := h.exists_skipBlanks
  have hc : continuesNumeral c = false := by simpa [hp] using hbegins
  intro d hd
  cases hcs : cs ++ rest with
  | nil =>
    rw [hcs] at hd
    cases hd
  | cons e tail' =>
    rw [hcs] at hd
    obtain rfl : e = d := Option.some.inj hd
    cases hblank : isBlank e with
    | true => exact continuesNumeral_of_isBlank hblank
    | false =>
      have heq := hskip rest
      rw [hcs, skipBlanks_cons hblank] at heq
      rw [(List.cons.inj heq).1]
      exact hc

theorem Writes.length_pos {p : Piece} {cs : List Char} (h : Writes p cs) : 0 < cs.length := by
  obtain ⟨c, tail, -, hskip⟩ := h.exists_skipBlanks
  cases cs with
  | nil => cases hskip []
  | cons c cs => exact Nat.succ_pos _

theorem skipBlanks_append {bs : List Char} (hbs : ∀ c ∈ bs, isBlank c = true) (cs : List Char) :
    skipBlanks (bs ++ cs) = skipBlanks cs :=
  List.dropWhile_append_of_pos hbs

/-! ## Reading a piece -/

/-- What follows the opening bracket of an array. -/
def readArray (fuel : Nat) (cs : List Char) : Option (Json × List Char) :=
  match skipBlanks cs with
  | ']' :: rest => some (.array [], rest)
  | _ => (readItems fuel cs).map fun (items, rest) => (.array items, rest)

/-- What follows the opening brace of an object. -/
def readObject (fuel : Nat) (cs : List Char) : Option (Json × List Char) :=
  match skipBlanks cs with
  | '\x7d' :: rest => some (.object [], rest)
  | _ => (readMembers fuel cs).map fun (members, rest) => (.object members, rest)

/-- What follows an item. -/
def readMoreItems (fuel : Nat) (item : Json) (cs : List Char) : Option (List Json × List Char) :=
  match skipBlanks cs with
  | ']' :: rest => some ([item], rest)
  | ',' :: rest => (readItems fuel rest).map fun (items, rest) => (item :: items, rest)
  | _ => none

/-- What follows a member. -/
def readMoreMembers (fuel : Nat) (m : List Char × Json) (cs : List Char) :
    Option (List (List Char × Json) × List Char) :=
  match skipBlanks cs with
  | '\x7d' :: rest => some ([m], rest)
  | ',' :: rest => (readMembers fuel rest).map fun (ms, rest) => (m :: ms, rest)
  | _ => none

/-- What follows a key. -/
def readAfterKey (fuel : Nat) (key cs : List Char) : Option (List (List Char × Json) × List Char) :=
  ((expect ':' cs).bind (readValue fuel)).bind fun r => readMoreMembers fuel (key, r.1) r.2

theorem readItems_succ (fuel : Nat) (cs : List Char) :
    readItems (fuel + 1) cs =
      (readValue fuel cs).bind fun r => readMoreItems fuel r.1 r.2 := by
  rw [readItems]
  cases readValue fuel cs <;> rfl

theorem readMembers_succ (fuel : Nat) (cs : List Char) :
    readMembers (fuel + 1) cs =
      ((expect '"' cs).bind readString).bind fun r => readAfterKey fuel r.1 r.2 := by
  rw [readMembers]
  cases (expect '"' cs).bind readString with
  | none => rfl
  | some r =>
    change _ = ((expect ':' r.2).bind (readValue fuel)).bind _
    obtain ⟨key, rest⟩ := r
    dsimp only
    cases (expect ':' rest).bind (readValue fuel) <;> rfl

/-- **How a piece is read**: its text gives the piece, and what follows is left. Every second call
takes a character, and what follows a number must not continue it. -/
def Piece.Reads : Piece → List Char → Prop
  | value j, cs => ∀ fuel rest, 2 * cs.length ≤ fuel → Ends rest →
      readValue fuel (cs ++ rest) = some (j, rest)
  | items js, cs => ∀ fuel rest, 2 * cs.length ≤ fuel →
      readItems fuel (cs ++ rest) = some (js, rest)
  | moreItems js, cs => ∀ fuel rest item, 2 * cs.length ≤ fuel + 1 →
      readMoreItems fuel item (cs ++ rest) = some (item :: js, rest)
  | members ms, cs => ∀ fuel rest, 2 * cs.length ≤ fuel →
      readMembers fuel (cs ++ rest) = some (ms, rest)
  | afterKey j ms, cs => ∀ fuel rest key, 2 * cs.length ≤ fuel →
      readAfterKey fuel key (cs ++ rest) = some ((key, j) :: ms, rest)
  | moreMembers ms, cs => ∀ fuel rest m, 2 * cs.length ≤ fuel + 1 →
      readMoreMembers fuel m (cs ++ rest) = some (m :: ms, rest)

section Reading

variable {c : Char} {cs rest : List Char} {fuel : Nat}

theorem expect_cons_of_blank (hc : isBlank c = true) (d : Char) :
    expect d (c :: cs) = expect d cs := by
  rw [expect, expect, skipBlanks_cons_of_blank hc]

theorem readValue_cons_of_blank (hc : isBlank c = true) :
    readValue fuel (c :: cs) = readValue fuel cs := by
  cases fuel with
  | zero => rfl
  | succ fuel => rw [readValue, readValue, skipBlanks_cons_of_blank hc]

/-- Blanks in front of a piece are skipped. -/
theorem Piece.Reads.blank {p : Piece} (hc : isBlank c = true) (h : p.Reads cs) :
    p.Reads (c :: cs) := by
  have hlength : (c :: cs).length = cs.length + 1 := rfl
  cases p with
  | value j =>
    intro fuel rest hfuel hrest
    rw [List.cons_append, readValue_cons_of_blank hc]
    exact h fuel rest (by omega) hrest
  | items items =>
    intro fuel rest hfuel
    obtain ⟨fuel, rfl⟩ := Nat.exists_eq_succ_of_ne_zero (show fuel ≠ 0 by omega)
    rw [List.cons_append, readItems_succ, readValue_cons_of_blank hc, ← readItems_succ]
    exact h (fuel + 1) rest (by omega)
  | moreItems items =>
    intro fuel rest item hfuel
    rw [List.cons_append, readMoreItems, skipBlanks_cons_of_blank hc]
    exact h fuel rest item (by omega)
  | members members =>
    intro fuel rest hfuel
    obtain ⟨fuel, rfl⟩ := Nat.exists_eq_succ_of_ne_zero (show fuel ≠ 0 by omega)
    rw [List.cons_append, readMembers_succ, expect_cons_of_blank hc, ← readMembers_succ]
    exact h (fuel + 1) rest (by omega)
  | afterKey j members =>
    intro fuel rest key hfuel
    rw [List.cons_append, readAfterKey, expect_cons_of_blank hc]
    exact h fuel rest key (by omega)
  | moreMembers members =>
    intro fuel rest m hfuel
    rw [List.cons_append, readMoreMembers, skipBlanks_cons_of_blank hc]
    exact h fuel rest m (by omega)

theorem readValue_minus : readValue (fuel + 1) ('-' :: cs) =
    (readNumeral true cs).map fun r => (.number r.1, r.2) := rfl

theorem readValue_digit (hc : c.isDigit = true) : readValue (fuel + 1) (c :: cs) =
    (readNumeral false (c :: cs)).map fun r => (.number r.1, r.2) := by
  have hblank : isBlank c = false := Bool.eq_false_iff.mpr fun hblank => by
    have hends := continuesNumeral_of_isBlank hblank
    simp [continuesNumeral, hc] at hends
  have hother : ∀ d, d.isDigit = false → c ≠ d := by
    rintro d hd rfl
    simp [hc] at hd
  rw [readValue, skipBlanks_cons hblank]
  split
  · rename_i heq
    cases heq
  · rename_i heq
    exact absurd (List.cons.inj heq).1 (hother _ (by decide))
  · rename_i heq
    exact absurd (List.cons.inj heq).1 (hother _ (by decide))
  · rename_i heq
    exact absurd (List.cons.inj heq).1 (hother _ (by decide))
  · rename_i heq
    exact absurd (List.cons.inj heq).1 (hother _ (by decide))
  · rename_i heq
    exact absurd (List.cons.inj heq).1 (hother _ (by decide))
  · rename_i heq
    exact absurd (List.cons.inj heq).1 (hother _ (by decide))
  · rename_i heq
    exact absurd (List.cons.inj heq).1 (hother _ (by decide))
  · rfl

theorem readValue_quoted {raw : List Char} (h : Quotable raw) :
    readValue (fuel + 1) (quoted raw ++ rest) = some (.string raw, rest) := by
  have hquoted : quoted raw ++ rest = '"' :: (raw ++ '"' :: rest) := by simp [quoted]
  rw [hquoted]
  change (readString (raw ++ '"' :: rest)).map _ = _
  rw [h.readString_append]
  rfl

theorem readValue_number {n : Numeral} (h : n.Formed) (hrest : Ends rest) :
    readValue (fuel + 1) (n.text ++ rest) = some (.number n, rest) := by
  have hread := readNumeral_append h hrest
  rw [Numeral.text_eq, List.append_assoc]
  cases hsign : n.negative with
  | true =>
    rw [hsign] at hread
    change readValue (fuel + 1) ('-' :: (n.whole ++ _ ++ rest)) = _
    rw [readValue_minus, hread]
    rfl
  | false =>
    obtain ⟨c, ds, hwhole⟩ := List.exists_cons_of_ne_nil h.whole.ne_nil
    have hdigit : c.isDigit = true := h.whole.isDigit c (hwhole ▸ List.mem_cons_self)
    rw [hsign, hwhole] at hread
    change readValue (fuel + 1) (n.whole ++ _ ++ rest) = _
    rw [hwhole]
    change readValue (fuel + 1) (c :: (ds ++ _ ++ rest)) = _
    rw [readValue_digit hdigit]
    exact congrArg (Option.map _) hread

theorem readValue_bracket : readValue (fuel + 1) ('[' :: cs) = readArray fuel cs := rfl

theorem readValue_brace : readValue (fuel + 1) ('\x7b' :: cs) = readObject fuel cs := rfl

theorem readArray_of_begins {tail : List Char} (h : skipBlanks cs = c :: tail) (hc : c ≠ ']') :
    readArray fuel cs = (readItems fuel cs).map fun r => (.array r.1, r.2) := by
  rw [readArray, h]
  split
  · rename_i heq
    exact absurd (List.cons.inj heq).1 hc
  · rfl

theorem readObject_of_begins {tail : List Char} (h : skipBlanks cs = c :: tail) (hc : c ≠ '\x7d') :
    readObject fuel cs = (readMembers fuel cs).map fun r => (.object r.1, r.2) := by
  rw [readObject, h]
  split
  · rename_i heq
    exact absurd (List.cons.inj heq).1 hc
  · rfl

/-- **Every text of a piece is read as the piece.** -/
theorem Writes.reads {p : Piece} (h : Writes p cs) : p.Reads cs := by
  induction h with
  | blank hc _ ih => exact ih.blank hc
  | null =>
    intro fuel rest hfuel _
    obtain ⟨fuel, rfl⟩ := Nat.exists_eq_succ_of_ne_zero (show fuel ≠ 0 by simp at hfuel; omega)
    rfl
  | bool b =>
    intro fuel rest hfuel _
    obtain ⟨fuel, rfl⟩ := Nat.exists_eq_succ_of_ne_zero
      (show fuel ≠ 0 by cases b <;> simp at hfuel <;> omega)
    cases b <;> rfl
  | number hn =>
    intro fuel rest hfuel hrest
    have hpos := (Writes.number hn).length_pos
    obtain ⟨fuel, rfl⟩ := Nat.exists_eq_succ_of_ne_zero (show fuel ≠ 0 by omega)
    exact readValue_number hn hrest
  | string hraw =>
    intro fuel rest hfuel _
    have hpos := (Writes.string hraw).length_pos
    obtain ⟨fuel, rfl⟩ := Nat.exists_eq_succ_of_ne_zero (show fuel ≠ 0 by omega)
    exact readValue_quoted hraw
  | @emptyArray bs hbs =>
    intro fuel rest hfuel _
    obtain ⟨fuel, rfl⟩ := Nat.exists_eq_succ_of_ne_zero (show fuel ≠ 0 by simp at hfuel; omega)
    have hskip : skipBlanks (bs ++ [']'] ++ rest) = ']' :: rest := by
      rw [List.append_assoc, skipBlanks_append hbs]
      rfl
    rw [List.cons_append, readValue_bracket, readArray, hskip]
    rfl
  | array h ih =>
    intro fuel rest hfuel _
    rw [List.length_cons] at hfuel
    obtain ⟨fuel, rfl⟩ := Nat.exists_eq_succ_of_ne_zero (show fuel ≠ 0 by omega)
    obtain ⟨c, tail, hbegins, hskip⟩ := h.exists_skipBlanks
    rw [List.cons_append, readValue_bracket,
      readArray_of_begins (hskip rest) (bne_iff_ne.mp hbegins), ih fuel rest (by omega)]
    rfl
  | items _ hmore ih ihmore =>
    intro fuel rest hfuel
    rw [List.length_append] at hfuel
    have hpos := hmore.length_pos
    obtain ⟨fuel, rfl⟩ := Nat.exists_eq_succ_of_ne_zero (show fuel ≠ 0 by omega)
    rw [List.append_assoc, readItems_succ, ih fuel _ (by omega) (hmore.ends rfl rest)]
    exact ihmore fuel rest _ (by omega)
  | bracket => exact fun fuel rest item _ => rfl
  | nextItem _ ih =>
    intro fuel rest item hfuel
    rw [List.length_cons] at hfuel
    exact congrArg (Option.map fun r => (item :: r.1, r.2)) (ih fuel rest (by omega))
  | @emptyObject bs hbs =>
    intro fuel rest hfuel _
    obtain ⟨fuel, rfl⟩ := Nat.exists_eq_succ_of_ne_zero (show fuel ≠ 0 by simp at hfuel; omega)
    have hskip : skipBlanks (bs ++ ['\x7d'] ++ rest) = '\x7d' :: rest := by
      rw [List.append_assoc, skipBlanks_append hbs]
      rfl
    rw [List.cons_append, readValue_brace, readObject, hskip]
    rfl
  | object h ih =>
    intro fuel rest hfuel _
    rw [List.length_cons] at hfuel
    obtain ⟨fuel, rfl⟩ := Nat.exists_eq_succ_of_ne_zero (show fuel ≠ 0 by omega)
    obtain ⟨c, tail, hbegins, hskip⟩ := h.exists_skipBlanks
    rw [List.cons_append, readValue_brace,
      readObject_of_begins (hskip rest) (bne_iff_ne.mp hbegins), ih fuel rest (by omega)]
    rfl
  | @members key j ms cs hkey _ ih =>
    intro fuel rest hfuel
    rw [List.length_append] at hfuel
    have hpos := (Writes.string hkey).length_pos
    obtain ⟨fuel, rfl⟩ := Nat.exists_eq_succ_of_ne_zero (show fuel ≠ 0 by omega)
    have hexpect : expect '"' (quoted key ++ cs ++ rest) = some (key ++ '"' :: (cs ++ rest)) := by
      simp [quoted, expect, skipBlanks, isBlank]
    rw [readMembers_succ, hexpect, Option.bind_some, hkey.readString_append]
    exact ih fuel rest key (by omega)
  | @colon j ms cs ds _ hmore ih ihmore =>
    intro fuel rest key hfuel
    rw [List.length_cons, List.length_append] at hfuel
    have hexpect : expect ':' (':' :: (cs ++ ds) ++ rest) = some (cs ++ (ds ++ rest)) := by
      simp [expect, skipBlanks, isBlank]
    rw [readAfterKey, hexpect, Option.bind_some, ih fuel _ (by omega) (hmore.ends rfl rest)]
    exact ihmore fuel rest _ (by omega)
  | brace => exact fun fuel rest m _ => rfl
  | nextMember _ ih =>
    intro fuel rest m hfuel
    rw [List.length_cons] at hfuel
    exact congrArg (Option.map fun r => (m :: r.1, r.2)) (ih fuel rest (by omega))

end Reading

/-! ## The text over several lines -/

theorem isBlank_lineBreak (level : Nat) : ∀ c ∈ lineBreak level, isBlank c = true := by
  intro c hc
  rcases List.mem_cons.mp hc with rfl | hc
  · rfl
  · rw [(List.mem_replicate.mp hc).2]
    rfl

/-- Items, the first one on a line of its own. -/
theorem writes_indentedItems {item : Json} {items : List Json} {level : Nat}
    (hitem : Writes (.value item) (prettyChars (level + 1) item))
    (hmore : Writes (.moreItems items) (prettyItems level items)) :
    Writes (.items (item :: items))
      (lineBreak (level + 1) ++ (prettyChars (level + 1) item ++ prettyItems level items)) :=
  .blanks (isBlank_lineBreak (level + 1)) (.items hitem hmore)

/-- Members, the first one on a line of its own. -/
theorem writes_indentedMembers {key : List Char} {j : Json} {members : List (List Char × Json)}
    {level : Nat} (hkey : Quotable key) (hvalue : Writes (.value j) (prettyChars (level + 1) j))
    (hmore : Writes (.moreMembers members) (prettyMembers level members)) :
    Writes (.members ((key, j) :: members)) (lineBreak (level + 1) ++
      (quoted key ++ ':' :: (' ' :: prettyChars (level + 1) j ++ prettyMembers level members))) :=
  .blanks (isBlank_lineBreak (level + 1)) (.members hkey (.colon (.blank rfl hvalue) hmore))

/-- The items behind the first one. -/
theorem writes_prettyItems {items : List Json}
    (h : ∀ item ∈ items, ∀ level, Writes (.value item) (prettyChars level item)) (level : Nat) :
    Writes (.moreItems items) (prettyItems level items) := by
  induction items with
  | nil => exact .blanks (isBlank_lineBreak level) .bracket
  | cons item items ih =>
    have hmore := ih fun item hitem => h item (List.mem_cons_of_mem _ hitem)
    rw [prettyItems]
    simpa using (writes_indentedItems (h item List.mem_cons_self (level + 1)) hmore).nextItem

/-- The members behind the first one. -/
theorem writes_prettyMembers {members : List (List Char × Json)}
    (hkeys : ∀ m ∈ members, Quotable m.1)
    (h : ∀ m ∈ members, ∀ level, Writes (.value m.2) (prettyChars level m.2)) (level : Nat) :
    Writes (.moreMembers members) (prettyMembers level members) := by
  induction members with
  | nil => exact .blanks (isBlank_lineBreak level) .brace
  | cons m members ih =>
    have hmore := ih (fun m hm => hkeys m (List.mem_cons_of_mem _ hm))
      fun m hm => h m (List.mem_cons_of_mem _ hm)
    rw [prettyMembers]
    simpa using (writes_indentedMembers (hkeys m List.mem_cons_self)
      (h m List.mem_cons_self (level + 1)) hmore).nextMember

/-- **The text over several lines is a text of the value.** -/
theorem Formed.writes_pretty {j : Json} (h : j.Formed) :
    ∀ level, Writes (.value j) (prettyChars level j) := by
  have hnone : ∀ c ∈ ([] : List Char), isBlank c = true := fun c hc => by cases hc
  induction h with
  | null => exact fun _ => .null
  | bool b => exact fun _ => .bool b
  | number hn => exact fun _ => .number hn
  | string hraw => exact fun _ => .string hraw
  | @array items _ ih =>
    intro level
    cases items with
    | nil => exact .emptyArray hnone
    | cons item items =>
      have hmore := writes_prettyItems (fun item hitem => ih item (List.mem_cons_of_mem _ hitem))
        level
      rw [prettyChars]
      simpa using (writes_indentedItems (ih item List.mem_cons_self (level + 1)) hmore).array
  | @object members hkeys _ ih =>
    intro level
    cases members with
    | nil => exact .emptyObject hnone
    | cons m members =>
      have hmore := writes_prettyMembers (fun m hm => hkeys m (List.mem_cons_of_mem _ hm))
        (fun m hm => ih m (List.mem_cons_of_mem _ hm)) level
      rw [prettyChars]
      simpa using (writes_indentedMembers (hkeys m List.mem_cons_self)
        (ih m List.mem_cons_self (level + 1)) hmore).object

/-- A whole text of a value is read as the value. -/
theorem Writes.parse? {j : Json} {cs : List Char} (h : Writes (.value j) cs) :
    parse? (String.ofList cs) = some j := by
  have hreads := h.reads (depthBound cs) [] (Nat.le_add_right _ 2) (fun c hc => by cases hc)
  rw [List.append_nil] at hreads
  rw [Json.parse?, String.toList_ofList]
  simp only [hreads]
  rfl

/-- **What was written over several lines is read back.** -/
theorem parse?_pretty {j : Json} (h : j.Formed) : parse? j.pretty = some j :=
  (h.writes_pretty 0).parse?

/-! ## The text without blanks -/

/-- The items behind the first one. -/
theorem writes_compactItems {items : List Json}
    (h : ∀ item ∈ items, Writes (.value item) (compactChars item)) :
    Writes (.moreItems items) (compactItems items) := by
  induction items with
  | nil => exact .bracket
  | cons item items ih =>
    have hmore := ih fun item hitem => h item (List.mem_cons_of_mem _ hitem)
    rw [compactItems]
    simpa using (Writes.items (h item List.mem_cons_self) hmore).nextItem

/-- The members behind the first one. -/
theorem writes_compactMembers {members : List (List Char × Json)}
    (hkeys : ∀ m ∈ members, Quotable m.1)
    (h : ∀ m ∈ members, Writes (.value m.2) (compactChars m.2)) :
    Writes (.moreMembers members) (compactMembers members) := by
  induction members with
  | nil => exact .brace
  | cons m members ih =>
    have hmore := ih (fun m hm => hkeys m (List.mem_cons_of_mem _ hm))
      fun m hm => h m (List.mem_cons_of_mem _ hm)
    rw [compactMembers]
    simpa using (Writes.members (hkeys m List.mem_cons_self)
      (.colon (h m List.mem_cons_self) hmore)).nextMember

/-- **The text without blanks is a text of the value.** -/
theorem Formed.writes_compact {j : Json} (h : j.Formed) : Writes (.value j) (compactChars j) := by
  have hnone : ∀ c ∈ ([] : List Char), isBlank c = true := fun c hc => by cases hc
  induction h with
  | null => exact .null
  | bool b => exact .bool b
  | number hn => exact .number hn
  | string hraw => exact .string hraw
  | @array items _ ih =>
    cases items with
    | nil => exact .emptyArray hnone
    | cons item items =>
      have hmore := writes_compactItems fun item hitem => ih item (List.mem_cons_of_mem _ hitem)
      rw [compactChars]
      simpa using (Writes.items (ih item List.mem_cons_self) hmore).array
  | @object members hkeys _ ih =>
    cases members with
    | nil => exact .emptyObject hnone
    | cons m members =>
      have hmore := writes_compactMembers (fun m hm => hkeys m (List.mem_cons_of_mem _ hm))
        fun m hm => ih m (List.mem_cons_of_mem _ hm)
      rw [compactChars]
      simpa using (Writes.members (hkeys m List.mem_cons_self)
        (.colon (ih m List.mem_cons_self) hmore)).object

/-- **What was written without blanks is read back.** -/
theorem parse?_compact {j : Json} (h : j.Formed) : parse? j.compact = some j :=
  h.writes_compact.parse?

end PointsTo.Json
