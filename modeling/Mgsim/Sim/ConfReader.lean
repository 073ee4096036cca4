import Mgsim.Sim.ConfEmission

namespace Mgsim.Sim
open Mgsim.Lib

/-- The characters of a word, from the low byte on. -/
def wordCharacters (word : ConfWord) : List (Fin 256) :=
  [(word.extractLsb' 0 8).toFin, (word.extractLsb' 8 8).toFin, (word.extractLsb' 16 8).toFin,
    (word.extractLsb' 24 8).toFin]

/-- A string of a known size, with nothing but zeros behind it. -/
def readCharacters (size : Nat) (words : List ConfWord) : Option Text :=
  let characters := words.flatMap wordCharacters
  if words.length = size / 4 + 1 ∧ (characters.drop size).all (· = 0) then some (characters.take size) else none

/-- The value of a property in a database. An object is known by the offset of its payload. -/
inductive ConfValue
  | void
  | symbol (text : Text)
  | object (offset : Nat)
  | uint (value : ConfWord)
deriving DecidableEq

/-- What a database says: the types with their attributes, the objects with the values of their
attributes, the raw configuration, and the symbols. -/
structure ConfModel where
  types : List (Text × List Text)
  objects : List (Nat × Text × List (Text × Option ConfValue))
  raw : List (Text × Text)
  symbols : List Text
deriving DecidableEq

section Reader
variable (blocks : List (Placed 32))

/-- The string at the offset of a symbol. -/
def readSymbol (offset : ConfWord) : Option Text :=
  match payloadAt blocks confTagSymbol offset.toNat with
  | some (size :: words) => readCharacters size.toNat words
  | _ => none

def readPairs : List ConfWord → Option (List (ConfWord × ConfWord))
  | [] => some []
  | first :: second :: rest => (readPairs rest).map ((first, second) :: ·)
  | [_] => none

/-- The attribute names of the type with an index. A type without attributes has no table. -/
def readAttributes (index : Nat) (offset : ConfWord) : Option (List Text) :=
  if offset = 0 then some []
  else
    match payloadAt blocks confTagAttrtable offset.toNat with
    | some (count :: type :: names) =>
      if count.toNat = names.length ∧ type.toNat = index then names.mapM (readSymbol blocks) else none
    | _ => none

def readType (entry : (ConfWord × ConfWord) × Nat) : Option (Text × List Text) := do
  let name ← readSymbol blocks entry.1.1
  let attributes ← readAttributes blocks entry.2 entry.1.2
  return (name, attributes)

/-- The pairs of a block that starts with their number. -/
def readCounted : List ConfWord → Option (List (ConfWord × ConfWord))
  | [] => none
  | count :: entries => (readPairs entries).filter fun pairs => pairs.length = count.toNat

/-- The payloads of the blocks with a tag. -/
def tagged (tag : ConfWord) : List (Placed 32) := blocks.filter (·.tag = tag)

/-- There is one type table. -/
def readTypes : Option (List (Text × List Text)) :=
  match tagged blocks confTagTypetable with
  | [table] => (readCounted table.payload).bind fun pairs => pairs.zipIdx.mapM (readType blocks)
  | _ => none

/-- A value; two zeros stand for an absent property. -/
def readValue (entry : ConfWord × ConfWord) : Option (Option ConfValue) :=
  if entry.1 = 0 then if entry.2 = 0 then some none else none
  else if entry.1 = confEntityVoid then some (some .void)
  else if entry.1 = confEntitySymbol then (readSymbol blocks entry.2).map fun text => some (.symbol text)
  else if entry.1 = confEntityObject then
    (payloadAt blocks confTagObject entry.2.toNat).map fun _ => some (.object entry.2.toNat)
  else if entry.1 = confEntityUint then some (some (.uint entry.2))
  else none

/-- An object, with a value for each attribute of its type. -/
def readObject (types : List (Text × List Text)) (block : Placed 32) :
    Option (Nat × Text × List (Text × Option ConfValue)) :=
  match block.payload with
  | [] => none
  | index :: entries => do
    let type ← types[index.toNat]?
    let pairs ← readPairs entries
    let values ← pairs.mapM (readValue blocks)
    if values.length = type.2.length then return (block.offset, type.1, type.2.zip values) else none

def readRawEntry (entry : ConfWord × ConfWord) : Option (Text × Text) := do
  let key ← readSymbol blocks entry.1
  let val ← readSymbol blocks entry.2
  return (key, val)

def readRaw : Option (List (Text × Text)) :=
  match tagged blocks confTagRawconfig with
  | [table] => (readCounted table.payload).bind fun pairs => pairs.mapM (readRawEntry blocks)
  | _ => none

def readSymbolBlock (block : Placed 32) : Option Text :=
  match block.payload with
  | [] => none
  | size :: words => readCharacters size.toNat words

def readModel : Option ConfModel := do
  let types ← readTypes blocks
  let objects ← (tagged blocks confTagObject).mapM (readObject blocks types)
  let raw ← readRaw blocks
  let symbols ← (tagged blocks confTagSymbol).mapM readSymbolBlock
  return ⟨types, objects, raw, symbols⟩

end Reader

section Model
variable {ObjectRef Symbol : Type} [LinearOrder ObjectRef] [LinearOrder Symbol]

/-- The value that stands for an entity when the offsets of the objects are known. -/
def Entity.value (text : Symbol → Text) (offset : ObjectRef → Nat) : Entity ObjectRef Symbol → ConfValue
  | .void => .void
  | .symbol s => .symbol (text s)
  | .object o => .object (offset o)
  | .uint value => .uint value

/-- The model that a database is to be read as. -/
def ComponentModelRegistry.model (reg : ComponentModelRegistry ObjectRef Symbol) (offset : ObjectRef → Nat)
    (rawconf : List (Text × Text)) : ConfModel where
  types := reg.typeNames.map fun t => (reg.text t, (reg.attributes t).map reg.text)
  objects := reg.objects.entries.map fun i =>
    (offset i.1, reg.text i.2,
      (reg.attributes i.2).map fun a => (reg.text a, (reg.property i.1 a).map (Entity.value reg.text offset)))
  raw := rawconf
  symbols := (reg.memoizeRaw rawconf).symbols.keys

end Model

section Characters
variable {c c₀ c₁ c₂ c₃ : Fin 256} {text : Text}

/-- A character that is not negative keeps its value. -/
theorem toNat_charWord (ascii : c < 128) : (charWord c).toNat = c.val := by
  have small : c.val < 128 := ascii
  have positive : (BitVec.ofFin c : BitVec 8).msb = false := by
    rw [BitVec.msb_eq_false_iff_two_mul_lt]
    change 2 * c.val < 256
    omega
  rw [charWord, BitVec.signExtend_eq_setWidth_of_msb_false positive, BitVec.toNat_setWidth]
  change c.val % 2 ^ 32 = c.val
  omega

theorem or_high_digit {low high k : Nat} (fits : low < 2 ^ k) : low ||| high * 2 ^ k = low + 2 ^ k * high := by
  rw [Nat.or_comm, Nat.mul_comm, ← Nat.two_pow_add_eq_or_of_lt fits, Nat.add_comm]

theorem toNat_packed (a₀ : c₀ < 128) (a₁ : c₁ < 128) (a₂ : c₂ < 128) (a₃ : c₃ < 128) :
    (charWord c₀ ||| charWord c₁ <<< 8 ||| charWord c₂ <<< 16 ||| charWord c₃ <<< 24).toNat =
      c₀.val + 2 ^ 8 * c₁.val + 2 ^ 16 * c₂.val + 2 ^ 24 * c₃.val := by
  have s₀ : c₀.val < 128 := a₀
  have s₁ : c₁.val < 128 := a₁
  have s₂ : c₂.val < 128 := a₂
  have s₃ : c₃.val < 128 := a₃
  simp only [BitVec.toNat_or, BitVec.toNat_shiftLeft, toNat_charWord, a₀, a₁, a₂, a₃, Nat.shiftLeft_eq]
  rw [Nat.mod_eq_of_lt (by omega), Nat.mod_eq_of_lt (by omega), Nat.mod_eq_of_lt (by omega),
    or_high_digit (k := 8) (by omega), or_high_digit (k := 16) (by omega), or_high_digit (k := 24) (by omega)]

theorem wordCharacters_packed (a₀ : c₀ < 128) (a₁ : c₁ < 128) (a₂ : c₂ < 128) (a₃ : c₃ < 128) :
    wordCharacters (charWord c₀ ||| charWord c₁ <<< 8 ||| charWord c₂ <<< 16 ||| charWord c₃ <<< 24) =
      [c₀, c₁, c₂, c₃] := by
  have value := toNat_packed a₀ a₁ a₂ a₃
  have s₀ : c₀.val < 128 := a₀
  have s₁ : c₁.val < 128 := a₁
  have s₂ : c₂.val < 128 := a₂
  have s₃ : c₃.val < 128 := a₃
  generalize (charWord c₀ ||| charWord c₁ <<< 8 ||| charWord c₂ <<< 16 ||| charWord c₃ <<< 24) = word at value
  have byte : ∀ (start : Nat) (c : Fin 256), word.toNat / 2 ^ start % 256 = c.val → (word.extractLsb' start 8).toFin = c := by
    intro start c same
    refine Fin.ext ?_
    rw [BitVec.val_toFin, BitVec.extractLsb'_toNat, Nat.shiftRight_eq_div_pow]
    exact same
  unfold wordCharacters
  rw [byte 0 c₀ (by omega), byte 8 c₁ (by omega), byte 16 c₂ (by omega), byte 24 c₃ (by omega)]

theorem packWords_characters (n : Nat) (text : Text) (length : text.length = 4 * n) (ascii : ∀ c ∈ text, c < 128) :
    (packWords text).flatMap wordCharacters = text ∧ (packWords text).length = n := by
  induction n generalizing text with
  | zero =>
    rw [List.length_eq_zero_iff.mp length]
    exact ⟨rfl, rfl⟩
  | succ n ih =>
    match text, length with
    | c₀ :: c₁ :: c₂ :: c₃ :: rest, length =>
      obtain ⟨characters, words⟩ := ih rest (by simp only [List.length_cons] at length; omega)
        (fun c member => ascii c (by simp [member]))
      rw [packWords, List.flatMap_cons, characters, List.length_cons, words,
        wordCharacters_packed (ascii _ (by simp)) (ascii _ (by simp)) (ascii _ (by simp)) (ascii _ (by simp))]
      exact ⟨rfl, rfl⟩

/-- The characters of a symbol are read back. -/
theorem readCharacters_packed (ascii : ∀ c ∈ text, c < 128) :
    readCharacters text.length (packWords (resizeRaw text)) = some text := by
  have length : (resizeRaw text).length = 4 * (text.length / 4 + 1) := by
    rw [resizeRaw, List.length_append, List.length_replicate]
    omega
  obtain ⟨characters, words⟩ := packWords_characters _ (resizeRaw text) length (by
    intro c member
    rcases List.mem_append.mp member with inside | padding
    · exact ascii c inside
    · exact (List.mem_replicate.mp padding).2 ▸ (by decide : (0 : Fin 256) < 128))
  have zeros : ((resizeRaw text).drop text.length).all (· = 0) = true := by
    rw [resizeRaw, List.drop_left, List.all_eq_true]
    exact fun c padding => decide_eq_true (List.mem_replicate.mp padding).2
  rw [readCharacters, characters, words, if_pos ⟨rfl, zeros⟩, resizeRaw, List.take_left]

end Characters
end Mgsim.Sim
