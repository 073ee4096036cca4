import Mgsim.Sim.InputStream

namespace Mgsim.Sim
open Mgsim.Lib

/-- The variable that a loader fills: its elements, where the next one goes, and the last
byte that was read. -/
structure Output (α : Type) where
  buf : List α
  dst : Nat
  last : α

namespace Output
variable {α : Type}

def write (o : Output α) (value : α) : Output α := ⟨o.buf.set o.dst value, o.dst + 1, value⟩

/-- The loop that writes a value a number of times, up to the end of the variable. -/
def writeRun (o : Output α) (value : α) : Nat → Output α
  | 0 => o
  | n + 1 => if o.dst < o.buf.length then (o.write value).writeRun value n else o

end Output

/-- The part of a loader that reads one item. It is given the first character of the item
and what follows, and leaves the rest. -/
structure Loader (α : Type) where
  step : Output α → Char → IStream → Except String (Output α × IStream)
  shrinks : ∀ {o c s o' s'}, step o c s = .ok (o', s') → s'.length ≤ s.length

/-- Items are read until the variable is full or the stream has ended. -/
def Loader.loop {α : Type} (loader : Loader α) (o : Output α) : IStream → Except String (Output α × IStream)
  | [] => .ok (o, [])
  | c :: rest =>
    if o.dst < o.buf.length then
      match read : loader.step o c rest with
      | .error fault => .error fault
      | .ok (o', left) => loader.loop o' left
    else .ok (o, c :: rest)
termination_by s => s.length
decreasing_by exact Nat.lt_succ_of_le (loader.shrinks read)

/-- The loop `for (c = is.get(); c >= '0' && c <= '9'; c = is.get())`: the number, and
the character behind it. -/
def readCount (s : IStream) : Nat × Option Char × IStream :=
  let (digits, rest) := readDigits 10 s
  (ofNumeral 10 digits % 2 ^ 64, rest.head?, rest.tail)

/-- A character in a message; the end of the stream is shown as -1. -/
def shown (c : Option Char) : Char := c.getD (Char.ofNat 255)

theorem length_readCount (s : IStream) : (readCount s).2.2.length ≤ s.length := by
  rw [readCount, List.length_tail]
  exact (Nat.sub_le _ _).trans (length_readDigits 10 s)

section Bits

def renderBit (bit : Bool) : Char := if bit then '1' else '0'

/-- What a run of bits starts with. -/
def runSign (bit : Bool) : Char := if bit then '+' else '-'

/-- The underscore in front of every group of eight. -/
def separator (compact : Bool) (index : Nat) : List Char := if !compact && 0 < index && index % 8 = 0 then ['_'] else []

def runLength {α : Type} [DecidableEq α] (value : α) (s : List α) : Nat := (s.takeWhile (· = value)).length

/-- The loop of `RenderBitVector` from an index on. -/
def renderBitsFrom (compact : Bool) (index : Nat) : List Bool → List Char
  | [] => []
  | first :: rest =>
    separator compact index ++
      if compact && rest[0]? = some first && rest[1]? = some first then
        let n := 2 + runLength first (rest.drop 1)
        runSign first :: decimal n ++ '.' :: renderBitsFrom compact (index + n) (rest.drop (n - 1))
      else renderBit first :: renderBitsFrom compact (index + 1) rest
termination_by s => s.length
decreasing_by
  · rw [List.length_drop, List.length_cons]
    omega
  · exact Nat.lt_succ_self _

def renderBitVector (compact : Bool) (data : List Bool) : List Char :=
  decimal data.length ++ ' ' :: renderBitsFrom compact 0 data

/-- An item of `LoadBitVector`. -/
def bitStep (o : Output Bool) (c : Char) (s : IStream) : Except String (Output Bool × IStream) :=
  if c = '_' || isSpace c then .ok (o, s)
  else if c = '+' || c = '-' then
    match readCount s with
    | (n, some '.', rest) => .ok (o.writeRun (c = '+') n, rest)
    | (_, other, _) => .error s!"Invalid repeat: {shown other}"
  else if c = '1' || c = '0' then .ok (o.write (c = '1'), s)
  else .error s!"Invalid character in bitvec input: {c}"

theorem bitStep_shrinks {o o' : Output Bool} {c : Char} {s s' : IStream} (read : bitStep o c s = .ok (o', s')) :
    s'.length ≤ s.length := by
  have counted := length_readCount s
  unfold bitStep at read
  split_ifs at read
  · cases read
    exact Nat.le_refl _
  · split at read
    · rename_i n rest equation
      cases read
      rwa [equation] at counted
    · cases read
  · cases read
    exact Nat.le_refl _

def bitLoader : Loader Bool := ⟨bitStep, bitStep_shrinks⟩

/-- `LoadBitVector` into a variable. -/
def loadBitVector (old : List Bool) (s : IStream) : Except String (List Bool × IStream) :=
  let (w, s) := readSize s
  if w ≠ some old.length then .error s!"Invalid bitvec blob: expected size {old.length}, got {w.getD 0}"
  else (bitLoader.loop ⟨old, 0, false⟩ s).map fun (o, rest) => (o.buf, rest)

end Bits

section Bytes

def byteChar (byte : BitVec 8) : Char := Char.ofNat byte.toNat

def isOkForString (byte : BitVec 8) : Bool := isPrint (byteChar byte) && byteChar byte ≠ '"' && !isSpace (byteChar byte)

def hexByte (byte : BitVec 8) : List Char := [uint2hex (byte.toNat / 16), uint2hex (byte.toNat % 16)]

/-- How often the first byte of a string is repeated, up to four times. -/
def repeats (first : BitVec 8) (rest : List (BitVec 8)) : Nat :=
  1 + ((rest.take 3).takeWhile fun byte => isOkForString byte && byte = first).length

/-- The length of the string in front of some bytes: it ends at a byte that cannot stand
in a string, or that is repeated. -/
def stringLength : List (BitVec 8) → Nat
  | [] => 0
  | first :: rest => if isOkForString first && repeats first rest < 3 then stringLength rest + 1 else 0

/-- Whether three bytes can stand in a string. -/
def startsString (s : List (BitVec 8)) : Bool := 3 ≤ s.length && (s.take 3).all isOkForString

/-- The loop of `RenderBinaryData` from an index on. -/
def renderBytesFrom (compact : Bool) (index : Nat) : List (BitVec 8) → List Char
  | [] => []
  | first :: rest =>
    let s := first :: rest
    separator compact index ++
      if string : compact && startsString s && 0 < stringLength s then
        let n := stringLength s
        '"' :: (s.take n).map byteChar ++ '"' :: renderBytesFrom compact (index + n) (s.drop n)
      else if compact && first = 0 && rest.head? = some 0 then
        let n := 1 + runLength 0 rest
        '+' :: decimal n ++ 'z' :: renderBytesFrom compact (index + n) (rest.drop (n - 1))
      else
        let n := 1 + runLength first rest
        if compact && 2 ≤ n then
          hexByte first ++ '+' :: decimal (n - 1) ++ 'r' :: renderBytesFrom compact (index + n) (rest.drop (n - 1))
        else hexByte first ++ renderBytesFrom compact (index + 1) rest
termination_by s => s.length
decreasing_by
  · simp only [Bool.and_eq_true, decide_eq_true_eq] at string
    rw [List.length_drop, List.length_cons]
    exact Nat.sub_lt (Nat.succ_pos _) string.2
  · rw [List.length_drop, List.length_cons]
    omega
  · rw [List.length_drop, List.length_cons]
    omega
  · exact Nat.lt_succ_self _

def renderBinaryData (compact : Bool) (data : List (BitVec 8)) : List Char :=
  decimal data.length ++ ' ' :: renderBytesFrom compact 0 data

/-- The digits of a binary value, of which a byte is kept. -/
def readBinary (b : BitVec 8) : IStream → BitVec 8 × IStream
  | [] => (b, [])
  | c :: rest =>
    if c = '0' || c = '1' then readBinary (b * 2 + BitVec.ofNat 8 (hex2uint c)) rest else (b, c :: rest)

/-- The bytes of a string up to the quotation mark. -/
def readString (o : Output (BitVec 8)) : IStream → Except String (Output (BitVec 8) × IStream)
  | [] => .error "Invalid string in binary input"
  | c :: rest =>
    if c = '"' then .ok (o, rest)
    else if o.dst < o.buf.length then readString (o.write (BitVec.ofNat 8 c.toNat)) rest
    else .error "Invalid string in binary input"

/-- An item of `LoadBinaryData`. -/
def byteStep (o : Output (BitVec 8)) (c : Char) (s : IStream) : Except String (Output (BitVec 8) × IStream) :=
  if c = '_' || isSpace c then .ok (o, s)
  else if c = '*' then
    match readBinary 0 s with
    | (b, '.' :: rest) => .ok (o.write b, rest)
    | _ => .error "Invalid binary value in input"
  else if c = '"' then readString o s
  else if c = '+' then
    match readCount s with
    | (n, some '.', rest) => .ok ({ o with dst := o.dst + n }, rest)
    | (n, some '@', rest) =>
      if o.buf.length < n then .error s!"Invalid offset in +@: {n}" else .ok ({ o with dst := n }, rest)
    | (n, other, rest) =>
      if other = some 'z' || other = some 'Z' then .ok (o.writeRun 0 n, rest)
      else if other = some 'r' || other = some 'R' then .ok (o.writeRun o.last n, rest)
      else .error s!"Invalid repeat: {shown other}"
  else if hex2uint c < 16 then
    match s with
    | d :: rest =>
      if hex2uint d < 16 then .ok (o.write (BitVec.ofNat 8 (hex2uint c * 16 + hex2uint d)), rest)
      else .error s!"Invalid hex digit: {d}"
    | [] => .error s!"Invalid hex digit: {shown none}"
  else .error s!"Invalid character in binary input: {c}"

theorem length_readBinary (b : BitVec 8) (s : IStream) : (readBinary b s).2.length ≤ s.length := by
  induction s generalizing b with
  | nil => exact Nat.le_refl 0
  | cons c rest ih =>
    rw [readBinary]
    split_ifs
    · exact (ih _).trans (Nat.le_succ _)
    · exact Nat.le_refl _

theorem length_readString {o o' : Output (BitVec 8)} {s s' : IStream} (read : readString o s = .ok (o', s')) :
    s'.length ≤ s.length := by
  induction s generalizing o with
  | nil => cases read
  | cons c rest ih =>
    rw [readString] at read
    split_ifs at read
    · cases read
      exact Nat.le_succ _
    · exact (ih read).trans (Nat.le_succ _)

theorem byteStep_shrinks {o o' : Output (BitVec 8)} {c : Char} {s s' : IStream} (read : byteStep o c s = .ok (o', s')) :
    s'.length ≤ s.length := by
  have counted := length_readCount s
  have binary := length_readBinary 0 s
  unfold byteStep at read
  split_ifs at read
  · cases read
    exact Nat.le_refl _
  · split at read
    · rename_i b rest equation
      cases read
      rw [equation, List.length_cons] at binary
      exact Nat.le_of_succ_le binary
    · cases read
  · exact length_readString read
  · split at read
    · rename_i n rest equation
      cases read
      rwa [equation] at counted
    · rename_i n rest equation
      split_ifs at read
      cases read
      rwa [equation] at counted
    · rename_i n other rest _ _ equation
      rw [equation] at counted
      split_ifs at read <;> cases read <;> exact counted
  · split at read
    · split_ifs at read
      cases read
      exact Nat.le_succ _
    · cases read

def byteLoader : Loader (BitVec 8) := ⟨byteStep, byteStep_shrinks⟩

/-- `LoadBinaryData` into a variable. -/
def loadBinaryData (old : List (BitVec 8)) (s : IStream) : Except String (List (BitVec 8) × IStream) :=
  let (w, s) := readSize s
  if w ≠ some old.length then .error s!"Invalid binary blob: expected size {old.length}, got {w.getD 0}"
  else (byteLoader.loop ⟨old, 0, 0⟩ s).map fun (o, rest) => (o.buf, rest)

end Bytes

def renderBoolean (compact : Bool) (b : Bool) : List Char :=
  if compact then [renderBit b] else if b then ['t', 'r', 'u', 'e'] else ['f', 'a', 'l', 's', 'e']

def loadBoolean (s : IStream) : Except String (Bool × IStream) :=
  let (word, rest) := readWord s
  let value := String.ofList (word.map Char.toLower)
  if value = "yes" || value = "true" || value = "1" then .ok (true, rest)
  else if value = "no" || value = "false" || value = "0" then .ok (false, rest)
  else .error s!"Invalid boolean value: {value}"

section Integers

/-- The widths of the built-in integers. -/
def BuiltIn (width : Nat) : Prop := width = 1 ∨ width = 2 ∨ width = 4 ∨ width = 8

instance (width : Nat) : Decidable (BuiltIn width) := inferInstanceAs (Decidable (_ ∨ _))

/-- The number that is written for a built-in integer: -1 has all bits set. -/
def writtenInteger {width : Nat} (v : BitVec (8 * width)) : Nat := if v = BitVec.allOnes _ then 2 ^ 64 - 1 else v.toNat

def renderInteger (compact : Bool) {width : Nat} (v : BitVec (8 * width)) : List Char :=
  if BuiltIn width then
    if compact && writtenInteger v < 10 then decimal (writtenInteger v)
    else if compact && writtenInteger v = 2 ^ 64 - 1 then ['-', '1']
    else '0' :: 'x' :: (numeral 16 (writtenInteger v)).map uint2hex
  else 'x' :: 'i' :: ' ' :: renderBinaryData compact (littleEndian width v.toNat)

/-- The built-in integer of a word. -/
def convertInteger (width : Nat) (word : List Char) : Except String (BitVec (8 * width)) :=
  if ¬ BuiltIn width then .error s!"Don't know how to convert int of size {width}"
  else if word.head? = some '-' then (stoll word).map (BitVec.ofInt _)
  else (stoull word).map (BitVec.ofNat _)

/-- `LoadInteger` into a variable. -/
def loadInteger {width : Nat} (old : BitVec (8 * width)) (s : IStream) : Except String (BitVec (8 * width) × IStream) :=
  let (word, rest) := readWord s
  if word = [] then .error "Can't read integer from input"
  else if word = ['x', 'i'] then
    (loadBinaryData (littleEndian width old.toNat) rest).map fun (bytes, rest) =>
      (BitVec.ofNat _ (ofLittleEndian bytes), rest)
  else (convertInteger width word).map fun v => (v, rest)

end Integers

/-- The value of a variable, with its `SerializationValueType`. -/
inductive Value
  | boolean (b : Bool)
  | integer (width : Nat) (v : BitVec (8 * width))
  | binary (data : List (BitVec 8))
  | bits (data : List Bool)

/-- `RenderValue`. -/
def Value.render (compact : Bool) : Value → List Char
  | .boolean b => renderBoolean compact b
  | .integer _ v => renderInteger compact v
  | .binary data => renderBinaryData compact data
  | .bits data => renderBitVector compact data

/-- `LoadValue` into a variable with some value. -/
def Value.load : Value → IStream → Except String (Value × IStream)
  | .boolean _, s => (loadBoolean s).map fun (b, rest) => (.boolean b, rest)
  | .integer width old, s => (loadInteger old s).map fun (v, rest) => (.integer width v, rest)
  | .binary old, s => (loadBinaryData old s).map fun (data, rest) => (.binary data, rest)
  | .bits old, s => (loadBitVector old s).map fun (data, rest) => (.bits data, rest)

end Mgsim.Sim
