import Mgsim.Lib.Numeral

namespace Mgsim.Sim
open Mgsim.Lib

/-- The characters that an input stream can still give. A stream that has failed gives none. -/
abbrev IStream := List Char

/-- `isspace` in the classic locale. -/
def isSpace (c : Char) : Bool := c.toNat = 32 || (9 ≤ c.toNat && c.toNat ≤ 13)

/-- `isprint` in the classic locale. -/
def isPrint (c : Char) : Bool := 32 ≤ c.toNat && c.toNat ≤ 126

def uint2hex (d : Nat) : Char := if d < 10 then Char.ofNat (48 + d) else Char.ofNat (97 - 10 + d)

/-- The value of a hexadecimal digit; sixteen for another character. -/
def hex2uint (c : Char) : Nat :=
  if '0' ≤ c ∧ c ≤ '9' then c.toNat - 48
  else if 'a' ≤ c ∧ c ≤ 'f' then c.toNat - 97 + 10
  else if 'A' ≤ c ∧ c ≤ 'F' then c.toNat - 65 + 10
  else 16

/-- The value of a digit of a base up to sixteen. -/
def digitOf (base : Nat) (c : Char) : Option Nat := if hex2uint c < base then some (hex2uint c) else none

def readDigits (base : Nat) : IStream → List Nat × IStream
  | [] => ([], [])
  | c :: rest =>
    match digitOf base c with
    | none => ([], c :: rest)
    | some digit => (digit :: (readDigits base rest).1, (readDigits base rest).2)

/-- The extraction of a string. -/
def readWord (s : IStream) : List Char × IStream :=
  ((s.dropWhile isSpace).takeWhile (!isSpace ·), (s.dropWhile isSpace).dropWhile (!isSpace ·))

def readSign : IStream → Bool × IStream
  | '-' :: rest => (true, rest)
  | '+' :: rest => (false, rest)
  | s => (false, s)

/-- The extraction of a `size_t`, and what is stored. Nothing is stored at the end of the stream. -/
def readSize (s : IStream) : Option Nat × IStream :=
  let (negative, unsigned) := readSign (s.dropWhile isSpace)
  let (digits, rest) := readDigits 10 unsigned
  let n := ofNumeral 10 digits
  if (s.dropWhile isSpace).isEmpty then (none, [])
  else if digits.isEmpty then (some 0, [])
  else if 2 ^ 64 ≤ n then (some (2 ^ 64 - 1), [])
  else (some (if negative then (2 ^ 64 - n) % 2 ^ 64 else n), rest)

/-- The base that the first characters of a number tell. -/
def detectBase : List Char → Nat × List Char
  | '0' :: x :: d :: rest =>
    if (x = 'x' ∨ x = 'X') ∧ (digitOf 16 d).isSome then (16, d :: rest) else (8, '0' :: x :: d :: rest)
  | '0' :: rest => (8, '0' :: rest)
  | text => (10, text)

/-- The sign and the value of the number that a text starts with. -/
def readInteger (text : List Char) : Option (Bool × Nat) :=
  let (negative, unsigned) := readSign (text.dropWhile isSpace)
  let (base, unsigned) := detectBase unsigned
  let digits := (readDigits base unsigned).1
  if digits.isEmpty then none else some (negative, ofNumeral base digits)

def stoull (text : List Char) : Except String Nat :=
  match readInteger text with
  | none => .error "stoull"
  | some (negative, n) =>
    if 2 ^ 64 ≤ n then .error "stoull" else .ok (if negative then (2 ^ 64 - n) % 2 ^ 64 else n)

def stoll (text : List Char) : Except String Int :=
  match readInteger text with
  | none => .error "stoll"
  | some (negative, n) =>
    if (if negative then 2 ^ 63 else 2 ^ 63 - 1) < n then .error "stoll" else .ok (if negative then -n else n)

section Digits
variable {base digit n : Nat} {digits : List Nat} {text rest blanks : List Char}

theorem hex2uint_uint2hex (small : digit < 16) : hex2uint (uint2hex digit) = digit := by
  have value : ∀ d < 16, hex2uint (uint2hex d) = d := by decide
  exact value digit small

theorem digitOf_uint2hex (small : digit < base) (bound : base ≤ 16) : digitOf base (uint2hex digit) = some digit := by
  rw [digitOf, hex2uint_uint2hex (small.trans_le bound), if_pos small]

theorem isSpace_uint2hex (small : digit < 16) : isSpace (uint2hex digit) = false := by
  have value : ∀ d < 16, isSpace (uint2hex d) = false := by decide
  exact value digit small

/-- No digit follows. -/
def Stops (base : Nat) (rest : List Char) : Prop := ∀ c ∈ rest.head?, digitOf base c = none

theorem readDigits_append (bound : base ≤ 16) (small : ∀ digit ∈ digits, digit < base) (stops : Stops base rest) :
    readDigits base (digits.map uint2hex ++ rest) = (digits, rest) := by
  induction digits with
  | nil =>
    cases rest with
    | nil => rfl
    | cons c rest =>
      rw [List.map_nil, List.nil_append, readDigits, stops c rfl]
  | cons digit digits ih =>
    have later := ih fun digit member => small digit (List.mem_cons_of_mem _ member)
    rw [List.map_cons, List.cons_append, readDigits, digitOf_uint2hex (small digit List.mem_cons_self) bound, later]

theorem length_readDigits (base : Nat) (s : IStream) : (readDigits base s).2.length ≤ s.length := by
  induction s with
  | nil => exact Nat.le_refl 0
  | cons c rest ih =>
    rw [readDigits]
    split
    · exact Nat.le_refl _
    · exact ih.trans (Nat.le_succ _)

/-- How a `size_t` is written. -/
def decimal (n : Nat) : List Char := (numeral 10 n).map uint2hex

theorem readDigits_decimal (stops : Stops 10 rest) : readDigits 10 (decimal n ++ rest) = (numeral 10 n, rest) :=
  readDigits_append (by decide) (fun _ => lt_of_mem_numeral (by decide)) stops

/-- Only white space stands in front of a text. -/
def Blank (blanks : List Char) : Prop := ∀ c ∈ blanks, isSpace c = true

theorem dropWhile_blank (blank : Blank blanks) (starts : ∀ c ∈ text.head?, isSpace c = false) :
    (blanks ++ text).dropWhile isSpace = text := by
  rw [List.dropWhile_append_of_pos blank]
  cases text with
  | nil => rfl
  | cons c rest => rw [List.dropWhile_cons_of_neg (by simpa using starts c rfl)]

/-- A word ends at white space or with the stream. -/
def EndsWord (rest : List Char) : Prop := ∀ c ∈ rest.head?, isSpace c = true

theorem readWord_append (blank : Blank blanks) (word : ∀ c ∈ text, isSpace c = false) (nonempty : text ≠ [])
    (ends : EndsWord rest) : readWord (blanks ++ text ++ rest) = (text, rest) := by
  have starts : ∀ c ∈ (text ++ rest).head?, isSpace c = false := by
    obtain ⟨c, others, rfl⟩ := List.exists_cons_of_ne_nil nonempty
    rintro _ ⟨⟩
    exact word c List.mem_cons_self
  have passed : ∀ c ∈ text, (!isSpace c) = true := fun c member => by rw [word c member]; rfl
  have stopped : rest.takeWhile (!isSpace ·) = [] ∧ rest.dropWhile (!isSpace ·) = rest := by
    cases rest with
    | nil => exact ⟨rfl, rfl⟩
    | cons c rest => simp [ends c rfl]
  unfold readWord
  rw [List.append_assoc, dropWhile_blank blank starts, List.takeWhile_append_of_pos passed,
    List.dropWhile_append_of_pos passed, stopped.1, stopped.2, List.append_nil]

theorem readSize_decimal (blank : Blank blanks) (fits : n < 2 ^ 64) (stops : Stops 10 rest) :
    readSize (blanks ++ decimal n ++ rest) = (some n, rest) := by
  have some : numeral 10 n ≠ [] := numeral_ne_nil
  obtain ⟨digit, digits, equation⟩ := List.exists_cons_of_ne_nil some
  have small : digit < 10 := lt_of_mem_numeral (n := n) (by decide) (equation ▸ List.mem_cons_self)
  have text : decimal n ++ rest = uint2hex digit :: (digits.map uint2hex ++ rest) := by
    rw [decimal, equation]
    rfl
  have starts : ∀ c ∈ (decimal n ++ rest).head?, isSpace c = false := by
    rw [text]
    rintro _ ⟨⟩
    exact isSpace_uint2hex (by omega)
  have unsigned : readSign (decimal n ++ rest) = (false, decimal n ++ rest) := by
    have noSign : ∀ d < 10, uint2hex d ≠ '-' ∧ uint2hex d ≠ '+' := by decide
    rw [text]
    unfold readSign
    split
    · rename_i sign
      exact absurd (List.cons.inj sign).1 (noSign digit small).1
    · rename_i sign
      exact absurd (List.cons.inj sign).1 (noSign digit small).2
    · rfl
  have value := ofNumeral_numeral 10 n
  simp only [readSize, List.append_assoc, dropWhile_blank blank starts, unsigned, readDigits_decimal stops, value]
  rw [if_neg (by simp [text]), if_neg (by simp [equation]), if_neg (Nat.not_le.mpr fits)]
  rfl

end Digits

end Mgsim.Sim
