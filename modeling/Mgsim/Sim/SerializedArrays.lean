import Mgsim.Sim.SerializationLanguage

namespace Mgsim.Sim
open Mgsim.Lib

namespace Output
variable {α : Type} {o : Output α} {value : α} {values more : List α} {n : Nat}

def writeAll (o : Output α) (values : List α) : Output α := values.foldl write o

theorem writeAll_append : o.writeAll (values ++ more) = (o.writeAll values).writeAll more := List.foldl_append

@[simp] theorem length_write : (o.write value).buf.length = o.buf.length := List.length_set

@[simp] theorem length_writeAll : (o.writeAll values).buf.length = o.buf.length := by
  induction values generalizing o with
  | nil => rfl
  | cons value values ih => exact ih.trans length_write

@[simp] theorem dst_writeAll : (o.writeAll values).dst = o.dst + values.length := by
  induction values generalizing o with
  | nil => rfl
  | cons value values ih =>
    rw [List.length_cons, Nat.add_comm values.length, ← Nat.add_assoc]
    exact ih

theorem writeRun_eq (room : o.dst + n ≤ o.buf.length) : o.writeRun value n = o.writeAll (List.replicate n value) := by
  induction n generalizing o with
  | zero => rfl
  | succ n ih =>
    rw [writeRun, if_pos (by omega)]
    refine ih ?_
    rw [length_write]
    change o.dst + 1 + n ≤ o.buf.length
    omega

/-- What is written stands behind what was written before. -/
theorem buf_writeAll (room : o.dst + values.length ≤ o.buf.length) :
    (o.writeAll values).buf = o.buf.take o.dst ++ values ++ o.buf.drop (o.dst + values.length) := by
  induction values generalizing o with
  | nil => simp [writeAll]
  | cons value values ih =>
    rw [List.length_cons] at room
    have inside : o.dst < o.buf.length := by omega
    have room' : (o.write value).dst + values.length ≤ (o.write value).buf.length := by
      rw [length_write]
      change o.dst + 1 + values.length ≤ o.buf.length
      omega
    have taken : (o.write value).buf.take (o.dst + 1) = o.buf.take o.dst ++ [value] := by
      rw [write, List.set_eq_take_append_cons_drop, if_pos inside]
      simp [List.take_append, List.take_take, inside.le]
    have dropped : (o.write value).buf.drop (o.dst + 1 + values.length) = o.buf.drop (o.dst + 1 + values.length) := by
      rw [write, List.drop_set_of_lt (by omega)]
    calc (o.writeAll (value :: values)).buf = ((o.write value).writeAll values).buf := rfl
      _ = (o.write value).buf.take (o.dst + 1) ++ values ++ (o.write value).buf.drop (o.dst + 1 + values.length) := ih room'
      _ = o.buf.take o.dst ++ value :: values ++ o.buf.drop (o.dst + (values.length + 1)) := by
        rw [taken, dropped, List.append_assoc (o.buf.take o.dst), List.singleton_append, Nat.add_assoc,
          Nat.add_comm 1]

/-- A variable that is written from its start to its end holds what was written. -/
theorem buf_writeAll_all {old : List α} {last : α} (same : old.length = values.length) :
    ((⟨old, 0, last⟩ : Output α).writeAll values).buf = values := by
  rw [buf_writeAll (by simp [same])]
  simp [same]

end Output

namespace Loader
variable {α : Type} {loader : Loader α} {o o' : Output α} {c : Char} {rest left : IStream}

theorem loop_step (room : o.dst < o.buf.length) (read : loader.step o c rest = .ok (o', left)) :
    loader.loop o (c :: rest) = loader.loop o' left := by
  rw [loop, if_pos room]
  split
  · rename_i equation
    cases read.symm.trans equation
  · rename_i equation
    cases read.symm.trans equation
    rfl

theorem loop_full (full : o.dst = o.buf.length) : loader.loop o rest = .ok (o, rest) := by
  cases rest with
  | nil => rw [loop]
  | cons c rest => rw [loop, if_neg (by omega)]

end Loader

theorem readCount_decimal {n : Nat} {c : Char} {rest : List Char} (fits : n < 2 ^ 64) (other : digitOf 10 c = none) :
    readCount (decimal n ++ c :: rest) = (n, some c, rest) := by
  have stops : Stops 10 (c :: rest) := by
    rintro _ ⟨⟩
    exact other
  simp only [readCount, readDigits_decimal stops, ofNumeral_numeral, Nat.mod_eq_of_lt fits, List.head?_cons, List.tail_cons]

/-- A list starts with its run of a value. -/
theorem run_append_drop {α : Type} [DecidableEq α] (value : α) (s : List α) :
    List.replicate (runLength value s) value ++ s.drop (runLength value s) = s := by
  induction s with
  | nil => rfl
  | cons first rest ih =>
    unfold runLength at ih ⊢
    by_cases same : first = value
    · rw [List.takeWhile_cons_of_pos (by simpa using same), List.length_cons, List.replicate_succ, List.cons_append,
        List.drop_succ_cons, ih, same]
    · rw [List.takeWhile_cons_of_neg (by simpa using same)]
      rfl

theorem runLength_le {α : Type} [DecidableEq α] (value : α) (s : List α) : runLength value s ≤ s.length :=
  (List.takeWhile_sublist _).length_le

section Bits
variable {o : Output Bool} {more : List Char}

theorem bitLoader_separator (room : o.dst < o.buf.length) (compact : Bool) (index : Nat) :
    bitLoader.loop o (separator compact index ++ more) = bitLoader.loop o more := by
  unfold separator
  split_ifs
  · exact Loader.loop_step room rfl
  · rfl

theorem bitLoader_run {bit : Bool} {n : Nat} (start : o.dst < o.buf.length) (room : o.dst + n ≤ o.buf.length)
    (fits : n < 2 ^ 64) :
    bitLoader.loop o (runSign bit :: (decimal n ++ '.' :: more)) =
      bitLoader.loop (o.writeAll (List.replicate n bit)) more := by
  refine Loader.loop_step start ?_
  have counted : readCount (decimal n ++ '.' :: more) = (n, some '.', more) := readCount_decimal fits (by decide)
  cases bit <;> simp [bitLoader, bitStep, runSign, counted, Output.writeRun_eq room, isSpace]

theorem bitLoader_bit {bit : Bool} (start : o.dst < o.buf.length) :
    bitLoader.loop o (renderBit bit :: more) = bitLoader.loop (o.write bit) more := by
  refine Loader.loop_step start ?_
  cases bit <;> rfl

/-- Bits that are written are read back, and nothing behind them is read. -/
theorem loop_renderBitsFrom (compact : Bool) (index : Nat) (s : List Bool) (whole : o.dst + s.length = o.buf.length)
    (fits : o.buf.length < 2 ^ 64) :
    bitLoader.loop o (renderBitsFrom compact index s ++ more) = .ok (o.writeAll s, more) := by
  fun_induction renderBitsFrom compact index s generalizing o with
  | case1 index =>
    rw [List.nil_append]
    exact Loader.loop_full (by simpa using whole)
  | case2 index first rest ihRun ihBit =>
    rw [List.length_cons] at whole
    rw [List.append_assoc, bitLoader_separator (by omega)]
    split_ifs with run
    · obtain ⟨last, rfl⟩ : ∃ last, rest = first :: last := by
        simp only [Bool.and_eq_true, decide_eq_true_eq] at run
        cases rest with
        | nil => cases run.1.2
        | cons other last =>
          cases run.1.2
          exact ⟨last, rfl⟩
      obtain ⟨n, count⟩ : ∃ n, 2 + runLength first last = n := ⟨_, rfl⟩
      have split : first :: first :: last = List.replicate n first ++ (first :: last).drop (n - 1) := by
        rw [← count, Nat.add_comm, List.replicate_succ, List.replicate_succ]
        simp [run_append_drop]
      have short := runLength_le first last
      rw [List.length_cons] at whole
      rw [List.drop_one, List.tail_cons, count] at ihRun ⊢
      rw [List.cons_append, List.cons_append, List.append_assoc, List.cons_append, bitLoader_run (by omega) (by omega) (by omega), ihRun,
        ← Output.writeAll_append, ← split]
      · rw [Output.dst_writeAll, Output.length_writeAll, List.length_replicate, List.length_drop, List.length_cons]
        omega
      · rwa [Output.length_writeAll]
    · rw [List.cons_append, bitLoader_bit (by omega), ihBit]
      · rfl
      · rw [Output.length_write]
        change o.dst + 1 + rest.length = _
        omega
      · rwa [Output.length_write]

end Bits

section Bytes
variable {o : Output (BitVec 8)} {more : List Char} {byte : BitVec 8} {n : Nat}

theorem byteLoader_separator (room : o.dst < o.buf.length) (compact : Bool) (index : Nat) :
    byteLoader.loop o (separator compact index ++ more) = byteLoader.loop o more := by
  unfold separator
  split_ifs
  · exact Loader.loop_step room rfl
  · rfl

theorem ofNat_byteChar (byte : BitVec 8) : BitVec.ofNat 8 (byteChar byte).toNat = byte := by
  have small : byte.toNat.isValidChar := Or.inl (byte.isLt.trans (by decide))
  rw [byteChar, Char.ofNat, dif_pos small]
  exact BitVec.eq_of_toNat_eq (BitVec.toNat_ofNat _ _ |>.trans (Nat.mod_eq_of_lt byte.isLt))

theorem readString_append {s : List (BitVec 8)} (inString : ∀ byte ∈ s, isOkForString byte = true)
    (room : o.dst + s.length ≤ o.buf.length) :
    readString o (s.map byteChar ++ '"' :: more) = .ok (o.writeAll s, more) := by
  induction s generalizing o with
  | nil => rfl
  | cons byte s ih =>
    rw [List.length_cons] at room
    have own := inString byte List.mem_cons_self
    simp only [isOkForString, Bool.and_eq_true, decide_eq_true_eq] at own
    rw [List.map_cons, List.cons_append, readString, if_neg own.1.2, if_pos (by omega), ofNat_byteChar, ih]
    · rfl
    · exact fun other member => inString other (List.mem_cons_of_mem _ member)
    · rw [Output.length_write]
      change o.dst + 1 + s.length ≤ _
      omega

theorem byteLoader_string {s : List (BitVec 8)} (inString : ∀ byte ∈ s, isOkForString byte = true)
    (start : o.dst < o.buf.length) (room : o.dst + s.length ≤ o.buf.length) :
    byteLoader.loop o ('"' :: (s.map byteChar ++ '"' :: more)) = byteLoader.loop (o.writeAll s) more :=
  Loader.loop_step start (readString_append inString room)

theorem byteLoader_zeros (start : o.dst < o.buf.length) (room : o.dst + n ≤ o.buf.length) (fits : n < 2 ^ 64) :
    byteLoader.loop o ('+' :: (decimal n ++ 'z' :: more)) = byteLoader.loop (o.writeAll (List.replicate n 0)) more := by
  refine Loader.loop_step start ?_
  have counted : readCount (decimal n ++ 'z' :: more) = (n, some 'z', more) := readCount_decimal fits (by decide)
  simp [byteLoader, byteStep, counted, Output.writeRun_eq room, isSpace]

theorem byteLoader_repeat (start : o.dst < o.buf.length) (room : o.dst + n ≤ o.buf.length) (fits : n < 2 ^ 64) :
    byteLoader.loop o ('+' :: (decimal n ++ 'r' :: more)) =
      byteLoader.loop (o.writeAll (List.replicate n o.last)) more := by
  refine Loader.loop_step start ?_
  have counted : readCount (decimal n ++ 'r' :: more) = (n, some 'r', more) := readCount_decimal fits (by decide)
  simp [byteLoader, byteStep, counted, Output.writeRun_eq room, isSpace]

theorem byteLoader_hex (start : o.dst < o.buf.length) :
    byteLoader.loop o (hexByte byte ++ more) = byteLoader.loop (o.write byte) more := by
  refine Loader.loop_step start ?_
  have inside := byte.isLt
  have high : byte.toNat / 16 < 16 := by omega
  have low : byte.toNat % 16 < 16 := Nat.mod_lt _ (by decide)
  have ordinary : ∀ d < 16, uint2hex d ≠ '_' ∧ uint2hex d ≠ '*' ∧ uint2hex d ≠ '"' ∧ uint2hex d ≠ '+' := by decide
  obtain ⟨noSpace, noBinary, noString, noRun⟩ := ordinary _ high
  have value : BitVec.ofNat 8 (byte.toNat / 16 * 16 + byte.toNat % 16) = byte := by
    rw [Nat.div_add_mod', BitVec.ofNat_toNat, BitVec.setWidth_eq]
  simp [byteLoader, byteStep, noSpace, noBinary, noString, noRun, isSpace_uint2hex high, hex2uint_uint2hex high,
    hex2uint_uint2hex low, high, low, value]

/-- The bytes of a string can stand in a string. -/
theorem stringLength_spec (s : List (BitVec 8)) :
    stringLength s ≤ s.length ∧ ∀ byte ∈ s.take (stringLength s), isOkForString byte = true := by
  induction s with
  | nil => exact ⟨Nat.le_refl 0, fun byte member => nomatch member⟩
  | cons first rest ih =>
    rw [stringLength]
    split_ifs with own
    · rw [Bool.and_eq_true] at own
      refine ⟨Nat.succ_le_succ ih.1, fun byte member => ?_⟩
      rw [List.take_succ_cons] at member
      rcases List.mem_cons.mp member with rfl | later
      · exact own.1
      · exact ih.2 byte later
    · exact ⟨Nat.zero_le _, fun byte member => nomatch member⟩

/-- Bytes that are written are read back, and nothing behind them is read. -/
theorem loop_renderBytesFrom (compact : Bool) (index : Nat) (s : List (BitVec 8))
    (whole : o.dst + s.length = o.buf.length) (fits : o.buf.length < 2 ^ 64) :
    byteLoader.loop o (renderBytesFrom compact index s ++ more) = .ok (o.writeAll s, more) := by
  fun_induction renderBytesFrom compact index s generalizing o with
  | case1 index =>
    rw [List.nil_append]
    exact Loader.loop_full (by simpa using whole)
  | case2 index first rest s ihString ihZeros ihRepeat =>
    rename_i ihByte
    have split : s = first :: rest := rfl
    have run : ∀ value, value = first → s =
        List.replicate (1 + runLength value rest) value ++ rest.drop (1 + runLength value rest - 1) := by
      rintro value rfl
      rw [Nat.add_sub_cancel_left, Nat.add_comm, List.replicate_succ, List.cons_append, run_append_drop]
    have bounds := fun value => runLength_le value rest
    rw [List.length_cons] at whole
    rw [List.append_assoc, byteLoader_separator (by omega)]
    split_ifs with string zeros
    · obtain ⟨bound, inString⟩ := stringLength_spec s
      have parts := List.take_append_drop (stringLength s) s
      have taken : (s.take (stringLength s)).length = stringLength s := List.length_take_of_le bound
      rw [split, List.length_cons, ← split] at bound
      rw [List.cons_append, List.cons_append, List.append_assoc, List.cons_append,
        byteLoader_string inString (by omega) (by omega), ihString string, ← Output.writeAll_append, parts]
      · rw [Output.dst_writeAll, Output.length_writeAll, taken, List.length_drop, split, List.length_cons, ← split]
        omega
      · rwa [Output.length_writeAll]
    · simp only [Bool.and_eq_true, decide_eq_true_eq] at zeros
      have bound := bounds 0
      rw [List.cons_append, List.cons_append, List.append_assoc, List.cons_append, byteLoader_zeros (by omega) (by omega) (by omega), ihZeros,
        ← Output.writeAll_append, ← run 0 zeros.1.2.symm]
      · rw [Output.dst_writeAll, Output.length_writeAll, List.length_replicate, List.length_drop]
        omega
      · rwa [Output.length_writeAll]
    · dsimp only
      split_ifs with repeated
      · simp only [Bool.and_eq_true, decide_eq_true_eq] at repeated
        have bound := bounds first
        have once : (o.write first).writeAll (List.replicate (1 + runLength first rest - 1) first) =
            o.writeAll (List.replicate (1 + runLength first rest) first) := by
          rw [Nat.add_sub_cancel_left, Nat.add_comm 1, List.replicate_succ]
          rfl
        have next : (o.write first).dst = o.dst + 1 := rfl
        have last : (o.write first).last = first := rfl
        have length : (o.write first).buf.length = o.buf.length := Output.length_write
        rw [List.append_assoc, List.append_assoc, byteLoader_hex (by omega), List.cons_append,
          List.cons_append, byteLoader_repeat (by omega) (by omega) (by omega), last, once, ihRepeat,
          ← Output.writeAll_append, ← run first rfl]
        · rw [Output.dst_writeAll, Output.length_writeAll, List.length_replicate, List.length_drop]
          omega
        · rwa [Output.length_writeAll]
      · rw [List.append_assoc, byteLoader_hex (by omega), ihByte]
        · rfl
        · rw [Output.length_write]
          change o.dst + 1 + rest.length = _
          omega
        · rwa [Output.length_write]

end Bytes

section Arrays
variable {blanks more : List Char}

/-- The blank behind the length of an array is left when the array has no elements. -/
def leftBlank (size : Nat) : List Char := if size = 0 then [' '] else []

theorem loadBitVector_render {compact : Bool} {old data : List Bool} (blank : Blank blanks) (fits : data.length < 2 ^ 64)
    (same : old.length = data.length) :
    loadBitVector old (blanks ++ renderBitVector compact data ++ more) = .ok (data, leftBlank data.length ++ more) := by
  have size : readSize (blanks ++ decimal data.length ++ ' ' :: (renderBitsFrom compact 0 data ++ more)) =
      (some data.length, ' ' :: (renderBitsFrom compact 0 data ++ more)) :=
    readSize_decimal blank fits (by rintro _ ⟨⟩; decide)
  rw [renderBitVector, List.append_assoc, List.append_assoc, List.cons_append, ← List.append_assoc, loadBitVector]
  simp only [size, ne_eq, same, not_true_eq_false, if_false]
  cases data with
  | nil =>
    rw [List.length_nil, List.length_eq_zero_iff] at same
    subst same
    rw [renderBitsFrom, Loader.loop_full rfl]
    rfl
  | cons first rest =>
    have start : (⟨old, 0, false⟩ : Output Bool).dst < old.length := by simp [same]
    have skipped : bitLoader.step ⟨old, 0, false⟩ ' ' (renderBitsFrom compact 0 (first :: rest) ++ more) =
        .ok (⟨old, 0, false⟩, renderBitsFrom compact 0 (first :: rest) ++ more) := rfl
    rw [Loader.loop_step start skipped, loop_renderBitsFrom compact 0 (first :: rest) (by simp [same]) (by rwa [same])]
    exact congrArg (fun buf => Except.ok (buf, more)) (Output.buf_writeAll_all same)

theorem loadBinaryData_render {compact : Bool} {old data : List (BitVec 8)} (blank : Blank blanks)
    (fits : data.length < 2 ^ 64) (same : old.length = data.length) :
    loadBinaryData old (blanks ++ renderBinaryData compact data ++ more) = .ok (data, leftBlank data.length ++ more) := by
  have size : readSize (blanks ++ decimal data.length ++ ' ' :: (renderBytesFrom compact 0 data ++ more)) =
      (some data.length, ' ' :: (renderBytesFrom compact 0 data ++ more)) :=
    readSize_decimal blank fits (by rintro _ ⟨⟩; decide)
  rw [renderBinaryData, List.append_assoc, List.append_assoc, List.cons_append, ← List.append_assoc, loadBinaryData]
  simp only [size, ne_eq, same, not_true_eq_false, if_false]
  cases data with
  | nil =>
    rw [List.length_nil, List.length_eq_zero_iff] at same
    subst same
    rw [renderBytesFrom, Loader.loop_full rfl]
    rfl
  | cons first rest =>
    have start : (⟨old, 0, 0⟩ : Output (BitVec 8)).dst < old.length := by simp [same]
    have skipped : byteLoader.step ⟨old, 0, 0⟩ ' ' (renderBytesFrom compact 0 (first :: rest) ++ more) =
        .ok (⟨old, 0, 0⟩, renderBytesFrom compact 0 (first :: rest) ++ more) := rfl
    rw [Loader.loop_step start skipped, loop_renderBytesFrom compact 0 (first :: rest) (by simp [same]) (by rwa [same])]
    exact congrArg (fun buf => Except.ok (buf, more)) (Output.buf_writeAll_all same)

end Arrays

end Mgsim.Sim
