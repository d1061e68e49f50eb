import Mathlib.Data.List.Basic
import PointsTo.Yaml.Token.Lexer

/-!
# Mappings laid out in lines

A mapping may be written with one entry a line: a key, a colon, a blank and a value, both of them
words of letters, digits and underscores. Such a word means nothing but itself: it begins no other
token, holds no space, and each of its characters takes one column and one byte.

The lexer takes three steps on a line. The word at the beginning is noted as a possible key; the
colon behind it makes it one, and the first colon opens the mapping; the word behind the colon is
the value, which ends with its line because the next line is not indented. The mapping ends with the
text.

## Main definitions

* `Yaml.SimpleWord`, `Yaml.SimpleEntry`: the words and entries that a line may hold
* `Yaml.atLine`, `Yaml.afterKey`, `Yaml.afterColon`: the lexer on its way through a line
* `Yaml.layout`: the text of a mapping, one entry a line
* `Yaml.entryTokens`: the tokens of an entry

## Main results

* `plain?_colon`, `plain?_lineBreak`: where a word ends as a scalar
* `Lexer.step?_eq_dispatch`: a token that neither closes a collection nor marks a document
* `Lexer.value_of_open`, `Lexer.value_of_closed`: what a colon does to the word in front of it
* `run?_line`: one line gives the tokens of its entry
* `run?_layout`: the lines of an open mapping give the tokens of its entries
* `Token.scan?_layout`: the tokens of a mapping laid out in lines
-/

namespace PointsTo.Yaml

variable {c d : Char} {cs : List Char}

/-! ## Simple words -/

/-- Whether the character is a letter, a digit or an underscore, which mean nothing but themselves
wherever they stand. -/
def isSimple (c : Char) : Bool := c.isAlphanum || c == '_'

/-- **A simple word**: at least one character, all of them simple. -/
structure SimpleWord (cs : List Char) : Prop where
  ne_nil : cs ≠ []
  simple : ∀ c ∈ cs, isSimple c = true

instance : Decidable (SimpleWord cs) :=
  decidable_of_iff (cs.isEmpty = false ∧ cs.all isSimple = true)
    ⟨fun h => ⟨List.isEmpty_eq_false_iff.mp h.1, List.all_eq_true.mp h.2⟩,
      fun h => ⟨List.isEmpty_eq_false_iff.mpr h.ne_nil, List.all_eq_true.mpr h.simple⟩⟩

theorem ne_of_isSimple (hc : isSimple c = true) (hd : isSimple d = false) : c ≠ d := by
  rintro rfl
  rw [hc] at hd
  cases hd

theorem beq_of_isSimple (hc : isSimple c = true) (hd : isSimple d = false) : (c == d) = false :=
  beq_eq_false_iff_ne.mpr (ne_of_isSimple hc hd)

theorem bounds_of_isSimple (h : isSimple c = true) : 48 ≤ c.toNat ∧ c.toNat ≤ 122 := by
  have hclasses : (((decide (65 ≤ c.val ∧ c.val ≤ 90)
      || (decide (97 ≤ c.val) && decide (c.val ≤ 122)))
      || (decide (48 ≤ c.val) && decide (c.val ≤ 57))) || c == '_') = true := h
  simp only [Bool.or_eq_true, Bool.and_eq_true, decide_eq_true_eq, beq_iff_eq,
    UInt32.le_iff_toNat_le] at hclasses
  change (((65 ≤ c.toNat ∧ c.toNat ≤ 90) ∨ 97 ≤ c.toNat ∧ c.toNat ≤ 122) ∨
    48 ≤ c.toNat ∧ c.toNat ≤ 57) ∨ c = '_' at hclasses
  rcases hclasses with hclasses | rfl
  · omega
  · decide

theorem isBreak_of_isSimple (h : isSimple c = true) : isBreak c = false := by
  rw [isBreak, beq_of_isSimple h rfl, beq_of_isSimple h rfl, beq_of_isSimple h rfl]
  rfl

theorem isSpace_of_isSimple (h : isSimple c = true) : isSpace c = false := by
  rw [isSpace, isBlank, isBreak_of_isSimple h, beq_of_isSimple h rfl, beq_of_isSimple h rfl]
  rfl

theorem utf8Size_of_isSimple (h : isSimple c = true) : c.utf8Size = 1 := by
  have hle : c.val ≤ 0x7f := by
    have := (bounds_of_isSimple h).2
    exact UInt32.le_iff_toNat_le.mpr (show c.toNat ≤ 127 by omega)
  exact if_pos hle

theorem isAllowed_of_isSimple (h : isSimple c = true) : isAllowed c = true := by
  obtain ⟨hlow, hhigh⟩ := bounds_of_isSimple h
  have hspace : ' ' ≤ c := UInt32.le_iff_toNat_le.mpr (show 32 ≤ c.toNat by omega)
  have htilde : c ≤ '~' := UInt32.le_iff_toNat_le.mpr (show c.toNat ≤ 126 by omega)
  simp [isAllowed, hspace, htilde]

/-! ## Places -/

theorem place_cons (hbreak : isBreak c = false) (hsize : c.utf8Size = 1) (line column offset : Nat)
    (rest : List Char) :
    place line column offset (c :: rest) =
      ⟨c, line, column, offset⟩ :: place line (column + 1) (offset + 1) rest := by
  rw [place, hbreak, hsize]
  rfl

/-- A simple word takes as many columns, and as many bytes, as it has characters. -/
theorem place_append (h : ∀ c ∈ cs, isSimple c = true) (line column offset : Nat)
    (rest : List Char) :
    place line column offset (cs ++ rest) =
      place line column offset cs ++ place line (column + cs.length) (offset + cs.length) rest := by
  induction cs generalizing column offset with
  | nil => rfl
  | cons c cs ih =>
    have hc := h c List.mem_cons_self
    have hplace := place_cons (isBreak_of_isSimple hc) (utf8Size_of_isSimple hc)
    rw [List.cons_append, hplace, hplace, ih fun d hd => h d (List.mem_cons_of_mem c hd),
      List.cons_append, List.length_cons, Nat.add_assoc, Nat.add_assoc, Nat.add_comm 1]

/-- A simple word begins with a simple character at its place. -/
theorem SimpleWord.exists_place_eq (h : SimpleWord cs) (line column offset : Nat)
    (rest : List Char) :
    ∃ c spots, isSimple c = true ∧
      place line column offset (cs ++ rest) = ⟨c, line, column, offset⟩ :: spots := by
  obtain ⟨c, cs, rfl⟩ := List.exists_cons_of_ne_nil h.ne_nil
  exact ⟨c, _, h.simple c List.mem_cons_self, rfl⟩

/-- Only the breaks of other systems are rewritten. -/
theorem unifyBreaks_eq_self (h : ∀ c ∈ cs, c ≠ '\r' ∧ c ≠ '\u0085') : unifyBreaks cs = cs := by
  induction cs with
  | nil => rfl
  | cons c cs ih =>
    obtain ⟨hreturn, hnext⟩ := h c List.mem_cons_self
    rw [unifyBreaks, ih fun d hd => h d (List.mem_cons_of_mem c hd)]
    · exact fun _ heq => absurd heq hreturn
    · exact hreturn
    · exact hnext

/-! ## Plain scalars -/

/-- A simple word goes into a plain scalar as it is. -/
theorem plain?_append (h : ∀ c ∈ cs, isSimple c = true) (indent : Nat) (text : List Char)
    (line column offset : Nat) (rest : List Spot) :
    plain? false indent text .none (place line column offset cs ++ rest) =
      plain? false indent (cs.reverse ++ text) .none rest := by
  induction cs generalizing text column offset with
  | nil => rfl
  | cons c cs ih =>
    have hc := h c List.mem_cons_self
    have hcolon : (c == ':') = false := beq_of_isSimple hc rfl
    rw [place, List.cons_append, plain?]
    simp only [isSpace_of_isSimple hc, isBreak_of_isSimple hc, Gap.isNone, isStrayColon, endsPlain,
      hcolon, Gap.text, Bool.false_eq_true, Bool.not_true, Bool.false_and, Bool.or_self, if_false,
      List.reverse_nil, List.nil_append]
    rw [ih (fun d hd => h d (List.mem_cons_of_mem c hd)), List.reverse_cons, List.append_assoc,
      List.singleton_append]

section Ends

variable {word : List Char}

/-- A word in front of a colon and a blank is a scalar. -/
theorem plain?_colon (h : ∀ c ∈ word, isSimple c = true) (indent line column offset : Nat)
    (rest : List Char) :
    plain? false indent [] .none (place line column offset (word ++ ':' :: ' ' :: rest)) =
      some (word, false,
        place line (column + word.length) (offset + word.length) (':' :: ' ' :: rest)) := by
  rw [place_append h, plain?_append h, List.append_nil, place, plain?]
  simp [isSpace, isBlank, isBreak, Gap.isNone, Gap.hasBreak, isStrayColon, endsPlain, place,
    endsWord]

/-- A word at the end of its line is a scalar when the next line is not indented. Only on an
indented line would the scalar go on behind the break. -/
theorem plain?_lineBreak {rest : List Char} (h : ∀ c ∈ word, isSimple c = true)
    (hrest : ∀ c ∈ rest.head?, isSimple c = true) (indent line column offset : Nat) :
    plain? false (indent + 1) [] .none (place line column offset (word ++ '\n' :: rest)) =
      some (word, true, place (line + 1) 0 0 rest) := by
  rw [place_append h, plain?_append h, List.append_nil, place, plain?]
  cases rest with
  | nil => simp [isSpace, isBlank, isBreak, place, plain?, Gap.add, Gap.hasBreak]
  | cons c rest =>
    have hc := isSpace_of_isSimple (hrest c rfl)
    simp only [isSpace, isBlank, isBreak, place, Gap.add, Gap.hasBreak, Char.isValue,
      Char.reduceBEq, BEq.rfl, Bool.or_self, Bool.or_false, Bool.or_true, Bool.and_self,
      Bool.false_and, Bool.false_eq_true, Bool.or_eq_true, beq_iff_eq, Nat.zero_add, if_true,
      if_false]
    rw [plain?]
    simp [hc, Gap.isNone, stopsAfterGap, Gap.hasBreak]

end Ends

/-! ## Tokens -/

namespace Lexer

variable {l : Lexer} {s : Spot} {rest : List Spot}

/-- No sign that begins another token is a simple character. -/
theorem dispatch_of_isSimple (h : isSimple s.char = true) : l.dispatch s rest = l.plain s rest := by
  have hne : ∀ d, isSimple d = false → s.char ≠ d := fun d => ne_of_isSimple h
  unfold dispatch
  split
  all_goals first | rfl | (rename_i heq; exact absurd heq (hne _ rfl))

theorem forgetStale_of_none (hpending : l.pending = none) (houter : l.outer = []) :
    l.forgetStale s = some l := by
  obtain ⟨⟩ := l
  subst hpending houter
  rfl

/-- A node on the same line is within reach for 1024 bytes. -/
theorem forgetStale_of_near {k : PendingKey} (hpending : l.pending = some k) (houter : l.outer = [])
    (hline : s.line ≤ k.line) (hoffset : s.offset ≤ k.offset + 1024) :
    l.forgetStale s = some l := by
  have hreach : reach s (some k) = some (some k) := by
    rw [reach, PendingKey.isStale, decide_eq_false (Nat.not_lt.mpr hline),
      decide_eq_false (Nat.not_lt.mpr hoffset)]
    rfl
  obtain ⟨spots, tokens, indents, pending, outer, keyAllowed⟩ := l
  subst hpending houter
  rw [forgetStale, hreach]
  rfl

theorem dedent_of_le {column : Nat} (houter : l.outer = []) (h : ∀ i ∈ l.indents, i ≤ column) :
    l.dedent column = l := by
  obtain ⟨spots, tokens, indents, pending, outer, keyAllowed⟩ := l
  subst houter
  cases indents with
  | nil => rfl
  | cons i indents =>
    have hi : decide (column < i) = false :=
      decide_eq_false (Nat.not_lt.mpr (h i List.mem_cons_self))
    simp [dedent, dedentWhile, inFlow, hi]

theorem startsLineWith_of_ne {c : Char} (h : (s.char == c) = false) :
    startsLineWith c (s :: rest) = false := by
  rcases rest with _ | ⟨t, _ | ⟨u, rest⟩⟩
  · rfl
  · rfl
  · simp [startsLineWith, h]

/-- A token that neither closes a collection nor begins with the sign of a directive or marker. -/
theorem step?_eq_dispatch (hstale : l.forgetStale s = some l) (houter : l.outer = [])
    (hindents : ∀ i ∈ l.indents, i ≤ s.column) (hpercent : (s.char == '%') = false)
    (hdash : (s.char == '-') = false) (hdot : (s.char == '.') = false) :
    l.step? s rest = l.dispatch s rest := by
  rw [step?, hstale]
  change (if s.column == 0 && s.char == '%' then (l.dedent s.column).directive rest
    else if startsLineWith '-' (s :: rest) then (l.dedent s.column).marker .documentStart
    else if startsLineWith '.' (s :: rest) then (l.dedent s.column).marker .documentEnd
    else (l.dedent s.column).dispatch s rest) = _
  rw [dedent_of_le houter hindents, hpercent, startsLineWith_of_ne hdash,
    startsLineWith_of_ne hdot, Bool.and_false]
  rfl

/-- A simple word is a plain scalar. -/
theorem step?_of_isSimple (hs : isSimple s.char = true) (hpending : l.pending = none)
    (houter : l.outer = []) (hindents : ∀ i ∈ l.indents, i ≤ s.column) :
    l.step? s rest = l.plain s rest := by
  rw [step?_eq_dispatch (forgetStale_of_none hpending houter) houter hindents
    (beq_of_isSimple hs rfl) (beq_of_isSimple hs rfl) (beq_of_isSimple hs rfl),
    dispatch_of_isSimple hs]

/-- A token begins where neither a space nor a comment nor a byte order mark stands. -/
theorem skipSpaces_eq_self {flow keyAllowed : Bool} (hspace : isSpace s.char = false)
    (hcomment : (s.char == '#') = false) (hmark : (s.char == '\ufeff') = false) :
    skipSpaces flow keyAllowed false (s :: rest) = (keyAllowed, s :: rest) := by
  simp only [isSpace, isBlank, Bool.or_eq_false_iff] at hspace
  obtain ⟨⟨hblank, htab⟩, hbreak⟩ := hspace
  simp [skipSpaces, Spot.isByteOrderMark, hbreak, hblank, htab, hcomment, hmark]

theorem skipSpaces_of_isSimple {flow keyAllowed : Bool} (hs : isSimple s.char = true) :
    skipSpaces flow keyAllowed false (s :: rest) = (keyAllowed, s :: rest) :=
  skipSpaces_eq_self (isSpace_of_isSimple hs) (beq_of_isSimple hs rfl) (beq_of_isSimple hs rfl)

section Plain

variable {text : List Char} {newLine : Bool} {spots : List Spot}

/-- A plain scalar where a key may begin. -/
theorem plain_of_keyAllowed (hallowed : l.keyAllowed = true) (hpending : l.pending = none)
    (hplain : plain? l.inFlow ((l.indents.head?.map (· + 1)).getD 0) [] .none (s :: rest) =
      some (text, newLine, spots)) :
    l.plain s rest = some
      { l with
        spots := spots
        tokens := .scalar .plain text :: l.tokens
        pending := some (l.keyAt s)
        keyAllowed := newLine } := by
  have hnote : l.noteKey s = some { l with pending := some (l.keyAt s) } := by
    rw [noteKey, if_pos hallowed, forgetKey, hpending]
    rfl
  rw [plain, hnote]
  change (plain? l.inFlow _ [] .none (s :: rest)).bind _ = _
  rw [hplain]
  rfl

/-- A plain scalar where no key may begin. -/
theorem plain_of_not_keyAllowed (hallowed : l.keyAllowed = false)
    (hplain : plain? l.inFlow ((l.indents.head?.map (· + 1)).getD 0) [] .none (s :: rest) =
      some (text, newLine, spots)) :
    l.plain s rest = some
      { l with
        spots := spots
        tokens := .scalar .plain text :: l.tokens
        keyAllowed := newLine } := by
  have hnote : l.noteKey s = some l := by
    rw [noteKey, hallowed]
    rfl
  rw [plain, hnote]
  change (plain? l.inFlow _ [] .none (s :: rest)).bind _ = _
  rw [hplain]
  rfl

end Plain

section Value

variable {k : PendingKey} {t : Token} {tokens : List Token}

/-- A token goes between the ones behind the index and those in front of it. -/
theorem insert_length (front : List Token) (htokens : l.tokens = front ++ tokens) :
    l.insert tokens.length t = { l with tokens := front ++ t :: tokens } := by
  rw [Lexer.insert, htokens, List.length_append, Nat.add_sub_cancel]
  exact congrArg (fun tokens => { l with tokens := tokens })
    (List.modifyTailIdx_add (List.cons t) 0 front tokens)

/-- The colon behind the key of an entry of an open mapping. -/
theorem value_of_open (hpending : l.pending = some k) (htokens : l.tokens = t :: tokens)
    (hindex : k.index = tokens.length) (hopen : l.indents.any (k.column ≤ ·) = true) :
    l.value s rest = some
      { l with
        spots := rest
        tokens := .value :: t :: .key :: tokens
        pending := none
        keyAllowed := false } := by
  have hstart : Lexer.indent (l.insert k.index .key) k.column k.index .blockMappingStart =
      { l with tokens := [t] ++ .key :: tokens } := by
    rw [hindex, insert_length [t] htokens, Lexer.indent]
    exact if_pos (by rw [hopen, Bool.or_true])
  rw [value, hpending]
  exact congrArg (fun l : Lexer => some
    { l.emit .value with spots := rest, pending := none, keyAllowed := false }) hstart

/-- The colon behind the first key of a mapping, which opens it. -/
theorem value_of_closed (hpending : l.pending = some k) (houter : l.outer = [])
    (htokens : l.tokens = t :: tokens) (hindex : k.index = tokens.length)
    (hclosed : l.indents.any (k.column ≤ ·) = false) :
    l.value s rest = some
      { l with
        spots := rest
        tokens := .value :: t :: .key :: .blockMappingStart :: tokens
        indents := k.column :: l.indents
        pending := none
        keyAllowed := false } := by
  have hnot : ¬(l.inFlow || l.indents.any (k.column ≤ ·)) = true := by
    rw [inFlow, houter, hclosed]
    decide
  have hstart : Lexer.indent (l.insert k.index .key) k.column k.index .blockMappingStart =
      { l with
        tokens := [t, .key] ++ .blockMappingStart :: tokens
        indents := k.column :: l.indents } := by
    rw [hindex, insert_length [t] htokens, Lexer.indent]
    exact (if_neg hnot).trans (by rw [insert_length [t, .key] rfl])
  rw [value, hpending]
  exact congrArg (fun l : Lexer => some
    { l.emit .value with spots := rest, pending := none, keyAllowed := false }) hstart

end Value

/-- One token, once what stands in front of it is skipped. -/
theorem run?_of_step? {fuel : Nat} {l' : Lexer} (s : Spot) (rest : List Spot)
    (hskip : l.skip = { l with spots := s :: rest })
    (hstep : { l with spots := s :: rest }.step? s rest = some l') :
    run? (fuel + 1) l = run? fuel l' := by
  rw [run?, hskip]
  change ({ l with spots := s :: rest }.step? s rest).bind (run? fuel) = _
  rw [hstep, Option.bind_some]

end Lexer

section Line

variable {i fuel : Nat} {tokens : List Token} {indents : List Nat} {key word rest : List Char}

/-- The lexer at the beginning of a line. -/
def atLine (i : Nat) (tokens : List Token) (indents : List Nat) (text : List Char) : Lexer where
  spots := place i 0 0 text
  tokens := tokens
  indents := indents

/-- The lexer behind the first word of a line, which may be a key. -/
def afterKey (i : Nat) (tokens : List Token) (indents : List Nat) (key rest : List Char) :
    Lexer where
  spots := place i key.length key.length rest
  tokens := .scalar .plain key :: tokens
  indents := indents
  pending := some
    { index := tokens.length, line := i, column := 0, offset := 0,
      required := indents.head? == some 0 }
  keyAllowed := false

/-- The lexer behind the colon of a line, in the mapping of all lines. -/
def afterColon (i : Nat) (tokens : List Token) (column : Nat) (rest : List Char) : Lexer where
  spots := place i column column rest
  tokens := tokens
  indents := [0]
  keyAllowed := false

open Lexer

/-- The first word of a line is noted as a possible key. -/
theorem run?_atLine (hkey : SimpleWord key) (hindents : ∀ n ∈ indents, n = 0) :
    run? (fuel + 1) (atLine i tokens indents (key ++ ':' :: ' ' :: rest)) =
      run? fuel (afterKey i tokens indents key (':' :: ' ' :: rest)) := by
  obtain ⟨c, spots, hc, hspots⟩ := hkey.exists_place_eq i 0 0 (':' :: ' ' :: rest)
  have hword := plain?_colon hkey.simple ((indents.head?.map (· + 1)).getD 0) i 0 0 rest
  rw [hspots, Nat.zero_add] at hword
  refine run?_of_step? ⟨c, i, 0, 0⟩ spots ?_ ?_
  · rw [skip, atLine, hspots]
    simp only [skipSpaces_of_isSimple (s := ⟨c, i, 0, 0⟩) hc]
  · rw [step?_of_isSimple (s := ⟨c, i, 0, 0⟩) hc rfl rfl fun n hn => Nat.le_of_eq (hindents n hn)]
    exact plain_of_keyAllowed rfl rfl hword

/-- The colon makes the word in front of it a key, and the first one opens the mapping. The word is
on the same line, and short enough to be reached from the colon. -/
theorem run?_afterKey (hlength : key.length ≤ 1024) (hindents : indents = [] ∨ indents = [0]) :
    run? (fuel + 1) (afterKey i tokens indents key (':' :: ' ' :: rest)) =
      run? fuel (afterColon i (.value :: .scalar .plain key :: .key ::
        (if indents = [] then .blockMappingStart :: tokens else tokens)) (key.length + 1)
          (' ' :: rest)) := by
  have hspots : place i key.length key.length (':' :: ' ' :: rest) =
      ⟨':', i, key.length, key.length⟩ ::
        place i (key.length + 1) (key.length + 1) (' ' :: rest) := place_cons rfl rfl _ _ _ _
  have hends : endsWord (place i (key.length + 1) (key.length + 1) (' ' :: rest)) = true := rfl
  refine run?_of_step? ⟨':', i, key.length, key.length⟩
    (place i (key.length + 1) (key.length + 1) (' ' :: rest)) ?_ ?_
  · rw [skip, afterKey, hspots]
    simp only [skipSpaces_eq_self (s := ⟨':', i, key.length, key.length⟩) rfl rfl rfl]
  · rw [step?_eq_dispatch (forgetStale_of_near rfl rfl (Nat.le_refl i) _) rfl _ rfl rfl rfl]
    · simp only [dispatch, hends, Bool.or_true, if_true]
      rcases hindents with rfl | rfl
      · exact value_of_closed (k := ⟨tokens.length, i, 0, 0, false⟩) rfl rfl rfl rfl rfl
      · exact value_of_open (k := ⟨tokens.length, i, 0, 0, true⟩) rfl rfl rfl rfl
    · simpa using hlength
    · rcases hindents with rfl | rfl
      · simp [afterKey]
      · simp [afterKey]

/-- The last word of a line is the value, and a new key may follow on the next line. -/
theorem run?_afterColon {column : Nat} (hword : SimpleWord word)
    (hrest : ∀ c ∈ rest.head?, isSimple c = true) :
    run? (fuel + 1) (afterColon i tokens column (' ' :: (word ++ '\n' :: rest))) =
      run? fuel (atLine (i + 1) (.scalar .plain word :: tokens) [0] rest) := by
  obtain ⟨c, spots, hc, hspots⟩ := hword.exists_place_eq i (column + 1) (column + 1) ('\n' :: rest)
  have hplain := plain?_lineBreak hword.simple hrest 0 i (column + 1) (column + 1)
  rw [hspots] at hplain
  refine run?_of_step? ⟨c, i, column + 1, column + 1⟩ spots ?_ ?_
  · rw [skip, afterColon, place_cons rfl rfl, hspots]
    have hskip : skipSpaces false false false (⟨' ', i, column, column⟩ ::
        ⟨c, i, column + 1, column + 1⟩ :: spots) =
          (false, ⟨c, i, column + 1, column + 1⟩ :: spots) := by
      rw [skipSpaces]
      simp [isBreak, Spot.isByteOrderMark,
        skipSpaces_of_isSimple (s := ⟨c, i, column + 1, column + 1⟩) hc]
    simp only [inFlow, List.isEmpty_nil, Bool.not_true, hskip]
  · rw [step?_of_isSimple (s := ⟨c, i, column + 1, column + 1⟩) hc rfl rfl (by simp [afterColon])]
    exact plain_of_not_keyAllowed rfl hplain

end Line

/-! ## All lines -/

/-- An entry that a line may hold: two simple words, and a colon behind the first one is near enough
to make it a key. -/
structure SimpleEntry (entry : List Char × List Char) : Prop where
  key : SimpleWord entry.1
  length_key : entry.1.length ≤ 1024
  value : SimpleWord entry.2

/-- **The text of a mapping**, one entry a line. -/
def layout : List (List Char × List Char) → List Char
  | [] => []
  | entry :: entries => entry.1 ++ ':' :: ' ' :: (entry.2 ++ '\n' :: layout entries)

/-- The tokens of an entry. -/
def entryTokens (entry : List Char × List Char) : List Token :=
  [.key, .scalar .plain entry.1, .value, .scalar .plain entry.2]

section Layout

variable {i fuel : Nat} {tokens : List Token} {indents : List Nat} {entry : List Char × List Char}
  {entries : List (List Char × List Char)}

/-- A line begins with a key. -/
theorem isSimple_of_mem_head?_layout (h : ∀ e ∈ entries, SimpleEntry e) :
    ∀ c ∈ (layout entries).head?, isSimple c = true := by
  cases entries with
  | nil => simp [layout]
  | cons entry entries =>
    obtain ⟨hne, hsimple⟩ := (h entry List.mem_cons_self).key
    obtain ⟨d, ds, hkey⟩ := List.exists_cons_of_ne_nil hne
    intro c hc
    rw [layout, hkey, List.cons_append, List.head?_cons, Option.mem_some_iff] at hc
    exact hc ▸ hsimple d (hkey ▸ List.mem_cons_self)

open Lexer

/-- **One line** gives the tokens of its entry, and the first one opens the mapping. -/
theorem run?_line (hindents : indents = [] ∨ indents = [0])
    (h : ∀ e ∈ entry :: entries, SimpleEntry e) :
    run? (fuel + 3) (atLine i tokens indents (layout (entry :: entries))) =
      run? fuel (atLine (i + 1) ((entryTokens entry).reverse ++
        (if indents = [] then .blockMappingStart :: tokens else tokens)) [0] (layout entries)) := by
  have hentry := h entry List.mem_cons_self
  have hzero : ∀ n ∈ indents, n = 0 := by
    rcases hindents with rfl | rfl
    · simp
    · simp
  have hrest := isSimple_of_mem_head?_layout fun e he => h e (List.mem_cons_of_mem entry he)
  rw [layout, run?_atLine hentry.key hzero, run?_afterKey hentry.length_key hindents,
    run?_afterColon hentry.value hrest]
  rfl

/-- The lines of an open mapping, up to the end of the text. -/
theorem run?_layout (h : ∀ e ∈ entries, SimpleEntry e) :
    run? (3 * entries.length + fuel + 1) (atLine i tokens [0] (layout entries)) =
      some (tokens.reverse ++ entries.flatMap entryTokens ++ [.blockEnd]) := by
  induction entries generalizing i tokens with
  | nil =>
    simp [run?, atLine, layout, place, skip, skipSpaces, forgetKey, dedentAll, dedentWhile, inFlow]
  | cons entry entries ih =>
    have hfuel : 3 * (entry :: entries).length + fuel + 1 = 3 * entries.length + fuel + 1 + 3 := by
      rw [List.length_cons]
      omega
    rw [hfuel, run?_line (.inr rfl) h, ih fun e he => h e (List.mem_cons_of_mem entry he)]
    simp

theorem length_place (line column offset : Nat) (cs : List Char) :
    (place line column offset cs).length = cs.length := by
  induction cs generalizing line column offset with
  | nil => rfl
  | cons c cs ih =>
    rw [place, List.length_cons, List.length_cons]
    split
    · rw [ih]
    · rw [ih]

theorem three_mul_length_le_length_layout (entries : List (List Char × List Char)) :
    3 * entries.length ≤ (layout entries).length := by
  induction entries with
  | nil => exact Nat.le_refl 0
  | cons entry entries ih =>
    simp only [layout, List.length_cons, List.length_append]
    omega

/-- **The tokens of a mapping laid out in lines.** A line has a character at least for each of its
three steps. -/
theorem Token.scan?_layout (hne : entries ≠ []) (h : ∀ e ∈ entries, SimpleEntry e) :
    Token.scan? (place 0 0 0 (layout entries)) =
      some (.blockMappingStart :: (entries.flatMap entryTokens ++ [.blockEnd])) := by
  obtain ⟨entry, entries, rfl⟩ := List.exists_cons_of_ne_nil hne
  obtain ⟨fuel, hfuel⟩ : ∃ fuel, (layout (entry :: entries)).length + 1 =
      3 * entries.length + fuel + 1 + 3 := by
    have := three_mul_length_le_length_layout (entry :: entries)
    rw [List.length_cons] at this
    exact ⟨(layout (entry :: entries)).length - 3 * entries.length - 3, by omega⟩
  rw [Token.scan?, length_place, hfuel]
  change run? _ (atLine 0 [] [] (layout (entry :: entries))) = _
  rw [run?_line (.inl rfl) h, run?_layout fun e he => h e (List.mem_cons_of_mem entry he)]
  simp [entryTokens]

/-- No line holds a character that a text may not hold, nor a break of another system. -/
theorem Spot.ofText?_layout (h : ∀ e ∈ entries, SimpleEntry e) :
    Spot.ofText? (String.ofList (layout entries)) = some (place 0 0 0 (layout entries)) := by
  have hchars : ∀ c ∈ layout entries, isSimple c = true ∨ c = ':' ∨ c = ' ' ∨ c = '\n' := by
    induction entries with
    | nil => simp [layout]
    | cons entry entries ih =>
      have hentry := h entry List.mem_cons_self
      intro c hc
      simp only [layout, List.mem_append, List.mem_cons] at hc
      rcases hc with hc | rfl | rfl | hc | rfl | hc
      · exact .inl (hentry.key.simple c hc)
      · simp
      · simp
      · exact .inl (hentry.value.simple c hc)
      · simp
      · exact ih (fun e he => h e (List.mem_cons_of_mem entry he)) c hc
  have hallowed : (layout entries).all isAllowed = true := by
    rw [List.all_eq_true]
    intro c hc
    rcases hchars c hc with hc | rfl | rfl | rfl
    · exact isAllowed_of_isSimple hc
    · decide
    · decide
    · decide
  have hunify : unifyBreaks (layout entries) = layout entries := by
    refine unifyBreaks_eq_self fun c hc => ?_
    rcases hchars c hc with hc | rfl | rfl | rfl
    · exact ⟨ne_of_isSimple hc rfl, ne_of_isSimple hc rfl⟩
    · decide
    · decide
    · decide
  rw [Spot.ofText?, String.toList_ofList, hallowed, hunify]
  rfl

end Layout

end PointsTo.Yaml
