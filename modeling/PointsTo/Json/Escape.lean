import PointsTo.Digit

/-!
# Strings between quotes

Between the quotes of a JSON string a quote, a backslash and the control characters are escaped. All
other characters stand for themselves. When read, an escape may also name a character by its code, a
character beyond the first plane by the two halves of its code; a half alone names no character.

## Main definitions

* `Json.escape`: the text between the quotes
* `Json.unescape?`: the string that such a text stands for

## Main results

* `unescape?_escape`: a string that was escaped reads back
-/

namespace PointsTo.Json

/-- The escape of a code below 256 by two digits. -/
def escapeCode (n : Nat) : List Char :=
  ['\\', 'u', '0', '0', Nat.digitChar (n / 16), Nat.digitChar (n % 16)]

/-- A character between the quotes. -/
def escapeChar (c : Char) : List Char :=
  if c = '"' then ['\\', '"']
  else if c = '\\' then ['\\', '\\']
  else if c = '\n' then ['\\', 'n']
  else if c = '\r' then ['\\', 'r']
  else if c = '\t' then ['\\', 't']
  else if c = '\x08' then ['\\', 'b']
  else if c = '\x0c' then ['\\', 'f']
  else if c.toNat < 32 then escapeCode c.toNat
  else [c]

/-- **The text between the quotes** of a string. -/
def escape (s : String) : List Char := s.toList.flatMap escapeChar

/-- The number that four hexadecimal digits write. -/
def hexNumber? (a b c d : Char) : Option Nat :=
  match hexDigit? a, hexDigit? b, hexDigit? c, hexDigit? d with
  | some a, some b, some c, some d => some (((a * 16 + b) * 16 + c) * 16 + d)
  | _, _, _, _ => none

/-- The character that a one-letter escape names. -/
def namedEscape? (c : Char) : Option Char :=
  match c with
  | '"' => some '"'
  | '\\' => some '\\'
  | '/' => some '/'
  | 'b' => some '\x08'
  | 'f' => some '\x0c'
  | 'n' => some '\n'
  | 'r' => some '\r'
  | 't' => some '\t'
  | _ => none

/-- Whether the number is the first half of a code. -/
def isLeadingHalf (n : Nat) : Bool := 0xD800 ≤ n && n ≤ 0xDBFF

/-- Whether the number is the second half of a code. -/
def isTrailingHalf (n : Nat) : Bool := 0xDC00 ≤ n && n ≤ 0xDFFF

/-- The code that two halves make. -/
def joinHalves (lead trail : Nat) : Nat := 0x10000 + (lead - 0xD800) * 0x400 + (trail - 0xDC00)

/-- The characters that the text between the quotes stands for. -/
def unescapeChars? : List Char → Option (List Char)
  | [] => some []
  | '\\' :: 'u' :: a :: b :: c :: d :: rest =>
    match hexNumber? a b c d with
    | none => none
    | some n =>
      if isTrailingHalf n then none
      else if isLeadingHalf n then
        match rest with
        | '\\' :: 'u' :: e :: f :: g :: h :: rest =>
          match hexNumber? e f g h with
          | none => none
          | some m =>
            if isTrailingHalf m then
              (unescapeChars? rest).map (Char.ofNat (joinHalves n m) :: ·)
            else none
        | _ => none
      else (unescapeChars? rest).map (Char.ofNat n :: ·)
  | '\\' :: c :: rest =>
    match namedEscape? c with
    | none => none
    | some c => (unescapeChars? rest).map (c :: ·)
  | ['\\'] => none
  | c :: rest => (unescapeChars? rest).map (c :: ·)

/-- **The string that the text between the quotes stands for**; a half of a code alone stands for
nothing. -/
def unescape? (raw : List Char) : Option String := (unescapeChars? raw).map String.ofList

/-! ## Reading back -/

/-- The code of a control character reads back. -/
theorem hexNumber?_control : ∀ n < 32,
    hexNumber? '0' '0' (Nat.digitChar (n / 16)) (Nat.digitChar (n % 16)) = some n := by
  decide

/-- A character that starts no escape stands for itself. -/
theorem unescapeChars?_cons {c : Char} (h : c ≠ '\\') (rest : List Char) :
    unescapeChars? (c :: rest) = (unescapeChars? rest).map (c :: ·) := by
  rw [unescapeChars?]
  · exact fun _ _ _ _ _ hc => absurd hc h
  · exact fun _ _ hc => absurd hc h
  · exact fun hc => absurd hc h

/-- An escaped character reads back, whatever follows it. -/
theorem unescapeChars?_escapeChar_append (c : Char) (rest : List Char) :
    unescapeChars? (escapeChar c ++ rest) = (unescapeChars? rest).map (c :: ·) := by
  unfold escapeChar
  iterate 7
    split
    · subst c; simp [unescapeChars?, namedEscape?]
  split
  · next h =>
    have h₁ : isTrailingHalf c.toNat = false := by simp [isTrailingHalf]; omega
    have h₂ : isLeadingHalf c.toNat = false := by simp [isLeadingHalf]; omega
    simp only [escapeCode, List.cons_append, List.nil_append]
    rw [unescapeChars?, hexNumber?_control c.toNat h]
    simp [h₁, h₂]
  · exact unescapeChars?_cons ‹_› rest

/-- **A string that was escaped reads back.** -/
theorem unescape?_escape (s : String) : unescape? (escape s) = some s := by
  have h (cs : List Char) : unescapeChars? (cs.flatMap escapeChar) = some cs := by
    induction cs with
    | nil => rfl
    | cons c cs ih => simp [List.flatMap_cons, unescapeChars?_escapeChar_append, ih]
  simp [unescape?, escape, h]

end PointsTo.Json
