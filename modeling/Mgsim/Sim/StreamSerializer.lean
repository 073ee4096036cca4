import Mgsim.Sim.SerializedArrays

namespace Mgsim.Sim
open Mgsim.Lib

/-- What a serializer is given: a tag, or a variable. -/
inductive Item
  | tag (text : List Char)
  | value (v : Value)

/-- A serializer that writes to a stream. -/
def Item.write (compact : Bool) : Item → List Char
  | .tag text => ' ' :: text
  | .value v => ' ' :: v.render compact

/-- A serializer that reads from a stream: a tag is compared, and a variable is filled. -/
def Item.read : Item → IStream → Except String (Item × IStream)
  | .tag text, s =>
    let (word, rest) := readWord s
    let expected := String.ofList text
    let got := String.ofList word
    if word = text then .ok (.tag text, rest)
    else .error s!"Invalid serialized data: expected tag {expected}, got {got}"
  | .value old, s => (old.load s).map fun (v, rest) => (.value v, rest)

def writeAll (compact : Bool) (items : List Item) : List Char := items.flatMap (Item.write compact)

def readAll : List Item → IStream → Except String (List Item × IStream)
  | [], s => .ok ([], s)
  | item :: items, s => do
    let (value, rest) ← item.read s
    let (values, rest) ← readAll items rest
    return (value :: values, rest)

section Words
variable {blanks more : List Char} {n : Nat}

theorem loadBoolean_render {compact b : Bool} (blank : Blank blanks) (ends : EndsWord more) :
    loadBoolean (blanks ++ renderBoolean compact b ++ more) = .ok (b, more) := by
  have word : ∀ c ∈ renderBoolean compact b, isSpace c = false := by
    cases compact <;> cases b <;> simp [renderBoolean, renderBit, isSpace]
  have nonempty : renderBoolean compact b ≠ [] := by
    cases compact <;> cases b <;> decide
  simp only [loadBoolean, readWord_append blank word nonempty ends]
  cases compact <;> cases b <;> rfl

theorem stoull_hex (fits : n < 2 ^ 64) : stoull ('0' :: 'x' :: (numeral 16 n).map uint2hex) = .ok n := by
  have some : numeral 16 n ≠ [] := numeral_ne_nil
  obtain ⟨digit, digits, equation⟩ := List.exists_cons_of_ne_nil some
  have small : digit < 16 := lt_of_mem_numeral (n := n) (by decide) (equation ▸ List.mem_cons_self)
  have detected : detectBase ('0' :: 'x' :: (numeral 16 n).map uint2hex) = (16, (numeral 16 n).map uint2hex) := by
    rw [equation, List.map_cons, detectBase, if_pos]
    exact ⟨.inl rfl, by rw [digitOf_uint2hex small (by decide)]; rfl⟩
  have digits : readDigits 16 ((numeral 16 n).map uint2hex) = (numeral 16 n, []) := by
    have read : readDigits 16 ((numeral 16 n).map uint2hex ++ []) = (numeral 16 n, []) :=
      readDigits_append (by decide) (fun _ => lt_of_mem_numeral (by decide)) (by rintro _ ⟨⟩)
    rwa [List.append_nil] at read
  have sign : readSign (('0' :: 'x' :: (numeral 16 n).map uint2hex).dropWhile isSpace) =
      (false, '0' :: 'x' :: (numeral 16 n).map uint2hex) := rfl
  have nonempty : (numeral 16 n).isEmpty = false := by rw [equation]; rfl
  simp only [stoull, readInteger, sign, detected, digits, nonempty, ofNumeral_numeral, Bool.false_eq_true, if_false,
    Nat.not_le.mpr fits]

section BuiltIn
variable {width : Nat} {v : BitVec (8 * width)}

/-- The number that is written determines a built-in integer. -/
theorem ofNat_writtenInteger (builtIn : BuiltIn width) : BitVec.ofNat (8 * width) (writtenInteger v) = v := by
  unfold writtenInteger
  split_ifs with ones
  · rw [ones]
    rcases builtIn with rfl | rfl | rfl | rfl <;> decide
  · rw [BitVec.ofNat_toNat, BitVec.setWidth_eq]

theorem writtenInteger_lt (builtIn : BuiltIn width) : writtenInteger v < 2 ^ 64 := by
  unfold writtenInteger
  split_ifs
  · decide
  · have inside := v.isLt
    rcases builtIn with rfl | rfl | rfl | rfl <;> omega

theorem ofInt_neg_one (builtIn : BuiltIn width) (ones : writtenInteger v = 2 ^ 64 - 1) :
    BitVec.ofInt (8 * width) (-1) = v := by
  rw [← ofNat_writtenInteger builtIn (v := v), ones]
  rcases builtIn with rfl | rfl | rfl | rfl <;> decide

/-- A built-in integer is written as one word, which is read back. -/
theorem renderInteger_word (compact : Bool) (builtIn : BuiltIn width) :
    (∀ c ∈ renderInteger compact v, isSpace c = false) ∧ renderInteger compact v ≠ [] ∧
      renderInteger compact v ≠ ['x', 'i'] ∧ convertInteger width (renderInteger compact v) = .ok v := by
  have back := ofNat_writtenInteger builtIn (v := v)
  have builtIn' : ¬ ¬ BuiltIn width := not_not.mpr builtIn
  rw [renderInteger, if_pos builtIn]
  split_ifs with digit ones
  · simp only [Bool.and_eq_true, decide_eq_true_eq] at digit
    have value : ∀ d < 10, isSpace (uint2hex d) = false ∧ uint2hex d ≠ '-' ∧ stoull [uint2hex d] = .ok d := by decide
    obtain ⟨noSpace, noSign, read⟩ := value _ digit.2
    rw [decimal, numeral_of_lt digit.2, List.map_singleton]
    refine ⟨by simpa using noSpace, List.cons_ne_nil _ _, by simp, ?_⟩
    rw [convertInteger, if_neg builtIn', List.head?_cons, if_neg (by simpa using noSign), read]
    exact congrArg Except.ok back
  · simp only [Bool.and_eq_true, decide_eq_true_eq] at ones
    refine ⟨by simp [isSpace], by decide, by decide, ?_⟩
    rw [convertInteger, if_neg builtIn', List.head?_cons, if_pos rfl]
    exact congrArg Except.ok (ofInt_neg_one builtIn ones.2)
  · refine ⟨fun c member => ?_, List.cons_ne_nil _ _, by simp, ?_⟩
    · rcases List.mem_cons.mp member with rfl | member
      · rfl
      rcases List.mem_cons.mp member with rfl | member
      · rfl
      obtain ⟨digit, inNumeral, rfl⟩ := List.mem_map.mp member
      exact isSpace_uint2hex (lt_of_mem_numeral (by decide) inNumeral)
    · rw [convertInteger, if_neg builtIn', if_neg (by simp), stoull_hex (writtenInteger_lt builtIn)]
      exact congrArg Except.ok back

end BuiltIn

theorem loadInteger_render {compact : Bool} {width : Nat} {old v : BitVec (8 * width)} (blank : Blank blanks)
    (fits : width < 2 ^ 64) (ends : EndsWord more) : loadInteger old (blanks ++ renderInteger compact v ++ more) =
      .ok (v, leftBlank width ++ more) := by
  by_cases builtIn : BuiltIn width
  · obtain ⟨word, nonempty, plain, read⟩ := renderInteger_word compact builtIn (v := v)
    have wide : width ≠ 0 := by
      rintro rfl
      revert builtIn
      decide
    rw [loadInteger, readWord_append blank word nonempty ends, leftBlank, if_neg wide]
    simp only [nonempty, plain, if_false, read]
    rfl
  · have render : renderInteger compact v =
        ['x', 'i'] ++ ([' '] ++ renderBinaryData compact (littleEndian width v.toNat)) := by
      rw [renderInteger, if_neg builtIn]
      rfl
    have word : readWord (blanks ++ ['x', 'i'] ++ ([' '] ++ renderBinaryData compact (littleEndian width v.toNat) ++ more)) =
        (['x', 'i'], [' '] ++ renderBinaryData compact (littleEndian width v.toNat) ++ more) :=
      readWord_append blank (by simp [isSpace]) (by decide) (by rintro _ ⟨⟩; rfl)
    have length := length_littleEndian width
    have loaded : loadBinaryData (littleEndian width old.toNat)
          ([' '] ++ renderBinaryData compact (littleEndian width v.toNat) ++ more) =
        .ok (littleEndian width v.toNat, leftBlank (littleEndian width v.toNat).length ++ more) :=
      loadBinaryData_render (by simp [Blank, isSpace]) (by rwa [length]) (by rw [length, length])
    rw [loadInteger, render, ← List.append_assoc, List.append_assoc (blanks ++ ['x', 'i']), word]
    simp only [loaded, length, Except.map, ofLittleEndian_littleEndian v.isLt, BitVec.ofNat_toNat, BitVec.setWidth_eq]
    rfl

end Words

/-- The type of a variable, with its width or its number of elements. -/
inductive ValueType
  | boolean
  | integer (width : Nat)
  | binary (size : Nat)
  | bits (size : Nat)
  deriving DecidableEq

def Value.type : Value → ValueType
  | .boolean _ => .boolean
  | .integer width _ => .integer width
  | .binary data => .binary data.length
  | .bits data => .bits data.length

/-- The number of elements of a variable is a `size_t`. -/
def ValueType.Fits : ValueType → Prop
  | .boolean => True
  | .integer width => width < 2 ^ 64
  | .binary size => size < 2 ^ 64
  | .bits size => size < 2 ^ 64

def ValueType.left : ValueType → List Char
  | .boolean => []
  | .integer width => leftBlank width
  | .binary size => leftBlank size
  | .bits size => leftBlank size

/-- A value that is written can be read into every variable of its type. -/
theorem Value.load_render (compact : Bool) {old v : Value} {blanks more : List Char} (blank : Blank blanks)
    (ends : EndsWord more) (fits : v.type.Fits) (same : old.type = v.type) :
    old.load (blanks ++ v.render compact ++ more) = .ok (v, v.type.left ++ more) := by
  cases v with
  | boolean b =>
    cases old with
    | boolean old => exact congrArg (Except.map _) (loadBoolean_render blank ends)
    | _ => cases same
  | integer width v =>
    cases old with
    | integer other old =>
      cases same
      exact congrArg (Except.map _) (loadInteger_render blank fits ends)
    | _ => cases same
  | binary data =>
    cases old with
    | binary old => exact congrArg (Except.map _) (loadBinaryData_render blank fits (ValueType.binary.inj same))
    | _ => cases same
  | bits data =>
    cases old with
    | bits old => exact congrArg (Except.map _) (loadBitVector_render blank fits (ValueType.bits.inj same))
    | _ => cases same

namespace Item

/-- The serializer that reads is given the same tags, and variables of the same types. -/
def Matches : Item → Item → Prop
  | .tag expected, .tag text => expected = text
  | .value old, .value v => old.type = v.type
  | _, _ => False

/-- A tag is a word. -/
def WellFormed : Item → Prop
  | .tag text => text ≠ [] ∧ ∀ c ∈ text, isSpace c = false
  | .value v => v.type.Fits

/-- What is left of the text of an item. -/
def left : Item → List Char
  | .tag _ => []
  | .value v => v.type.left

theorem blank_left (item : Item) : Blank item.left := by
  have blank : ∀ size, Blank (leftBlank size) := by
    intro size
    unfold leftBlank
    split_ifs <;> simp [Blank, isSpace]
  have none : Blank [] := fun _ member => absurd member List.not_mem_nil
  cases item with
  | tag => exact none
  | value v =>
    cases v with
    | boolean => exact none
    | _ => exact blank _

theorem read_write {compact : Bool} {var item : Item} {blanks more : List Char} (blank : Blank blanks)
    (ends : EndsWord more) (matched : var.Matches item) (wellFormed : item.WellFormed) :
    var.read (blanks ++ item.write compact ++ more) = .ok (item, item.left ++ more) := by
  have blank' : Blank (blanks ++ [' ']) := by
    intro c member
    rcases List.mem_append.mp member with early | late
    · exact blank c early
    · rw [List.mem_singleton.mp late]
      rfl
  cases item with
  | tag text =>
    cases var with
    | tag expected =>
      cases matched
      have word : readWord (blanks ++ ' ' :: text ++ more) = (text, more) := by
        have read := readWord_append blank' wellFormed.2 wellFormed.1 ends
        rwa [List.append_assoc blanks] at read
      simp only [read, write, word, if_true]
      rfl
    | value => exact absurd matched id
  | value v =>
    cases var with
    | tag => exact absurd matched id
    | value old =>
      have loaded : old.load (blanks ++ ' ' :: v.render compact ++ more) = .ok (v, v.type.left ++ more) := by
        have read := Value.load_render compact blank' ends wellFormed matched
        rwa [List.append_assoc blanks] at read
      exact congrArg (Except.map _) loaded

end Item

theorem endsWord_writeAll (compact : Bool) (items : List Item) {more : List Char} (ends : EndsWord more) :
    EndsWord (writeAll compact items ++ more) := by
  cases items with
  | nil => exact ends
  | cons item items =>
    cases item <;>
    · rintro _ ⟨⟩
      rfl

/-- Items that are written can be read back; at most one blank of the last one is left. -/
theorem readAll_writeAll {compact : Bool} {vars items : List Item} {blanks more : List Char} (blank : Blank blanks)
    (ends : EndsWord more) (matched : List.Forall₂ Item.Matches vars items) (wellFormed : ∀ item ∈ items, item.WellFormed) :
    readAll vars (blanks ++ writeAll compact items ++ more) =
      .ok (items, items.getLast?.elim blanks Item.left ++ more) := by
  induction matched generalizing blanks with
  | nil => rw [writeAll, List.flatMap_nil, List.append_nil]; rfl
  | @cons var item vars items first later ih =>
    have own : var.read (blanks ++ item.write compact ++ (writeAll compact items ++ more)) =
        .ok (item, item.left ++ (writeAll compact items ++ more)) :=
      Item.read_write blank (endsWord_writeAll compact items ends) first (wellFormed item List.mem_cons_self)
    have rest := ih item.blank_left fun other member => wellFormed other (List.mem_cons_of_mem _ member)
    have last : (item :: items).getLast?.elim blanks Item.left = items.getLast?.elim item.left Item.left := by
      cases items with
      | nil => rfl
      | cons next items => rw [List.getLast?_cons_cons, List.getLast?_eq_some_getLast (List.cons_ne_nil _ _)]; rfl
    rw [writeAll, List.flatMap_cons, ← writeAll, ← List.append_assoc, List.append_assoc (blanks ++ item.write compact),
      readAll, own, last]
    simp only [bind, Except.bind, ← List.append_assoc, rest]
    rfl

/-- A serializer that reads what a serializer has written, with the same tags and
types, gives back every value, and leaves nothing but the blank of a last array
without elements. -/
theorem round_trip (compact : Bool) {vars items : List Item} (matched : List.Forall₂ Item.Matches vars items)
    (wellFormed : ∀ item ∈ items, item.WellFormed) :
    readAll vars (writeAll compact items) = .ok (items, items.getLast?.elim [] Item.left) := by
  have read : readAll vars ([] ++ writeAll compact items ++ []) = .ok (items, items.getLast?.elim [] Item.left ++ []) :=
    readAll_writeAll (fun _ member => nomatch member) (by rintro _ ⟨⟩) matched wellFormed
  rwa [List.nil_append, List.append_nil, List.append_nil] at read

section Samples

/-- A tag, an integer, bytes that end with a run, and bits. -/
def sampleItems : List Item :=
  [.tag ['l'], .value (.integer 8 5), .value (.binary [65, 66, 67, 0, 0, 0]), .value (.bits [true, true, true]),
    .value (.boolean true)]

def sampleVariables : List Item :=
  [.tag ['l'], .value (.integer 8 0), .value (.binary [0, 0, 0, 0, 0, 0]), .value (.bits [false, false, false]),
    .value (.boolean false)]

theorem round_trip_sample : readAll sampleVariables (writeAll true sampleItems) = .ok (sampleItems, []) := by
  refine round_trip true ?_ ?_
  · exact .cons rfl (.cons rfl (.cons rfl (.cons rfl (.cons rfl .nil))))
  · simp [sampleItems, Item.WellFormed, Value.type, ValueType.Fits, isSpace]

/-- The blank behind the length of an empty array is left, and a tag of two words is not accepted. -/
theorem text_not_consumed :
    readAll [.value (.binary [])] (writeAll true [.value (.binary [])]) = .ok ([.value (.binary [])], [' ']) ∧
      ∀ read, readAll [.tag ['a', ' ', 'b']] (writeAll true [.tag ['a', ' ', 'b']]) ≠ .ok read := by
  constructor
  · have read : readAll [.value (.binary [])] ([] ++ writeAll true [.value (.binary [])] ++ []) =
        .ok ([.value (.binary [])], [' '] ++ []) :=
      readAll_writeAll (fun _ member => nomatch member) (by rintro _ ⟨⟩) (.cons rfl .nil)
        (by simp [Item.WellFormed, Value.type, ValueType.Fits])
    rwa [List.nil_append, List.append_nil, List.append_nil] at read
  · intro read
    have word : readWord (writeAll true [.tag ['a', ' ', 'b']]) = (['a'], [' ', 'b']) := rfl
    simp [readAll, Item.read, word, bind, Except.bind]

end Samples

end Mgsim.Sim
