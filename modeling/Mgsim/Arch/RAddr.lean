import Mathlib.Algebra.Ring.Nat
import Mathlib.Data.Nat.Bitwise
import Mathlib.Logic.Function.Basic
import Mgsim.Drisc.Register
import Mgsim.Lib.Checked
import Mgsim.Lib.Run
namespace Mgsim.Arch
open Lib Drisc

/-- `std::numeric_limits<Addr>::digits`. -/
def addrDigits : Target → Nat
  | .mtalpha => 64
  | .mtsparc | .mips32 | .mips32el | .or1k => 32

abbrev Addr (t : Target) : Type := BitVec (addrDigits t)

abbrev AddrWidth : Type := BitVec 8

/-- A `size_t` of the host. -/
abbrev Size : Type := BitVec 64

/-- A restricted memory address. -/
structure RAddr (t : Target) where
  value : Addr t
  width : AddrWidth
  deriving DecidableEq

/-- The ways in which an operation does not return: `std::invalid_argument`
with its text and data, and a shift by at least the size of the word, which
the language leaves undefined. -/
inductive AddrFault (t : Target)
  | invalid (text : String) (width : AddrWidth) (value : Addr t)
  | unexpected (width expected : AddrWidth)
  | overlongShift
  deriving DecidableEq

variable {t : Target}

def shiftedLeft (a : Addr t) (amount : Nat) : Except (AddrFault t) (Addr t) :=
  if amount < addrDigits t then .ok (a <<< amount) else .error .overlongShift

def shiftedRight (a : Addr t) (amount : Nat) : Except (AddrFault t) (Addr t) :=
  if amount < addrDigits t then .ok (a >>> amount) else .error .overlongShift

namespace RAddr

def isValid (a : Addr t) (w : AddrWidth) : Except (AddrFault t) Bool :=
  if addrDigits t ≥ w.toNat then .ok true else do
    let rest ← shiftedRight a w.toNat
    .ok (rest == 0)

/-- The constructor, whose check `RMADDR_STRICT` keeps. -/
def make (v : Addr t) (w : AddrWidth) : Except (AddrFault t) (RAddr t) := do
  let valid ← isValid v w
  require (valid = true) (.invalid "Invalid address for RMAddr[" w v)
  .ok ⟨v, w⟩

def default : Except (AddrFault t) (RAddr t) := make 0 0

/-- The constructor from a pointer of the host. -/
def ofPointer (pointer : Size) : Except (AddrFault t) (RAddr t) := make (pointer.setWidth _) 64

def truncateLsb (a : Addr t) (oldW amount : AddrWidth) : Except (AddrFault t) (RAddr t) := do
  let v ← shiftedRight a amount.toNat
  make v (oldW - amount)

def truncateMsb (a : Addr t) (newW : AddrWidth) : Except (AddrFault t) (RAddr t) := do
  let above ← shiftedLeft (~~~(0 : Addr t)) newW.toNat
  make (a &&& ~~~above) newW

/-- The static `alwaysExpect`, which `strictExpect` calls. -/
def expectValid (a : Addr t) (w : AddrWidth) : Except (AddrFault t) Unit := do
  let valid ← isValid a w
  require (valid = true) (.invalid "Address is invalid (width mismatch) MAddr[" w a)

/-- The member `alwaysExpect`, which `strictExpect` calls. -/
def alwaysExpect (r : RAddr t) (w : AddrWidth) : Except (AddrFault t) Unit := do
  require (r.width = w) (.unexpected r.width w)
  let valid ← isValid r.value r.width
  require (valid = true) (.invalid "Address is invalid (width mismatch) RMAddr[" r.width r.value)

/-- `operator=`, which keeps the width. -/
def assign (r : RAddr t) (v : Addr t) : Except (AddrFault t) (RAddr t) := do
  expectValid v r.width
  .ok { r with value := v }

def shiftLeft (r : RAddr t) (amount : Size) : Except (AddrFault t) (RAddr t) := do
  let v ← shiftedLeft r.value amount.toNat
  make v ((r.width.setWidth 64 + amount).setWidth 8)

def shiftRight (r : RAddr t) (amount : Size) : Except (AddrFault t) (RAddr t) := do
  let v ← shiftedRight r.value amount.toNat
  make v ((r.width.setWidth 64 - amount).setWidth 8)

/-- `operator<<=`, which does not look at the result. -/
def shiftLeftAssign (r : RAddr t) (amount : Size) : Except (AddrFault t) (RAddr t) := do
  let v ← shiftedLeft r.value amount.toNat
  .ok ⟨v, (r.width.setWidth 64 + amount).setWidth 8⟩

def shiftRightAssign (r : RAddr t) (amount : Size) : Except (AddrFault t) (RAddr t) := do
  let v ← shiftedRight r.value amount.toNat
  .ok ⟨v, (r.width.setWidth 64 - amount).setWidth 8⟩

/-- `std::max` of the widths of two addresses. -/
def wider (r o : RAddr t) : AddrWidth := if r.width < o.width then o.width else r.width

def orAssign (r o : RAddr t) : RAddr t := ⟨r.value ||| o.value, wider r o⟩

def andAssign (r o : RAddr t) : RAddr t := ⟨r.value &&& o.value, wider r o⟩

def and (r o : RAddr t) : Except (AddrFault t) (RAddr t) := make (r.value &&& o.value) (wider r o)

def or (r o : RAddr t) : Except (AddrFault t) (RAddr t) := make (r.value ||| o.value) (wider r o)

/-- `operator[]`, the bits of the address between two indices. -/
def bits (r : RAddr t) (i j : Size) : Except (AddrFault t) (RAddr t) := do
  let v ← shiftedRight r.value i.toNat
  truncateMsb v ((j - i + 1).setWidth 8)

def equal (r o : RAddr t) : Bool := r.value == o.value

end RAddr

/-- The operations on a program's addresses, which are numbered. The result of
an operation that gives an address is kept as address number `k`; an assigning one
changes address number `i`. -/
inductive AddrOperation (t : Target)
  | default (k : Nat)
  | construct (k : Nat) (v : Addr t) (w : AddrWidth)
  | ofPointer (k : Nat) (pointer : Size)
  | copy (k i : Nat)
  | assign (i : Nat) (v : Addr t)
  | truncateLsb (k : Nat) (a : Addr t) (oldW amount : AddrWidth)
  | truncateMsb (k : Nat) (a : Addr t) (newW : AddrWidth)
  | truncatedLsb (k i : Nat) (amount : AddrWidth)
  | truncatedMsb (k i : Nat) (newW : AddrWidth)
  | shiftLeft (k i : Nat) (amount : Size)
  | shiftRight (k i : Nat) (amount : Size)
  | shiftLeftAssign (i : Nat) (amount : Size)
  | shiftRightAssign (i : Nat) (amount : Size)
  | orAssign (i j : Nat)
  | andAssign (i j : Nat)
  | and (k i j : Nat)
  | or (k i j : Nat)
  | bits (k i : Nat) (low high : Size)
  | isValid (a : Addr t) (w : AddrWidth)
  | valid (i : Nat)
  | expectValid (a : Addr t) (w : AddrWidth)
  | alwaysExpect (i : Nat) (w : AddrWidth)
  | equal (i j : Nat)

/-- The addresses of a program. -/
abbrev Addresses (t : Target) : Type := Nat → RAddr t

/-- All addresses after their construction without arguments. -/
def unset : Addresses t := fun _ => ⟨0, 0⟩

def perform (s : Addresses t) : AddrOperation t → Except (AddrFault t) (Addresses t)
  | .default k => RAddr.default.map (Function.update s k)
  | .construct k v w => (RAddr.make v w).map (Function.update s k)
  | .ofPointer k pointer => (RAddr.ofPointer pointer).map (Function.update s k)
  | .copy k i => .ok (Function.update s k (s i))
  | .assign i v => ((s i).assign v).map (Function.update s i)
  | .truncateLsb k a oldW amount => (RAddr.truncateLsb a oldW amount).map (Function.update s k)
  | .truncateMsb k a newW => (RAddr.truncateMsb a newW).map (Function.update s k)
  | .truncatedLsb k i amount => (RAddr.truncateLsb (s i).value (s i).width amount).map (Function.update s k)
  | .truncatedMsb k i newW => (RAddr.truncateMsb (s i).value newW).map (Function.update s k)
  | .shiftLeft k i amount => ((s i).shiftLeft amount).map (Function.update s k)
  | .shiftRight k i amount => ((s i).shiftRight amount).map (Function.update s k)
  | .shiftLeftAssign i amount => ((s i).shiftLeftAssign amount).map (Function.update s i)
  | .shiftRightAssign i amount => ((s i).shiftRightAssign amount).map (Function.update s i)
  | .orAssign i j => .ok (Function.update s i ((s i).orAssign (s j)))
  | .andAssign i j => .ok (Function.update s i ((s i).andAssign (s j)))
  | .and k i j => ((s i).and (s j)).map (Function.update s k)
  | .or k i j => ((s i).or (s j)).map (Function.update s k)
  | .bits k i low high => ((s i).bits low high).map (Function.update s k)
  | .isValid a w => (RAddr.isValid a w).map fun _ => s
  | .valid i => (RAddr.isValid (s i).value (s i).width).map fun _ => s
  | .expectValid a w => (RAddr.expectValid a w).map fun _ => s
  | .alwaysExpect i w => ((s i).alwaysExpect w).map fun _ => s
  | .equal _ _ => .ok s

def performOk (s : Addresses t) (op : AddrOperation t) : Option (Addresses t) := (perform s op).toOption

/-- A width up to 64 bits, and a value below two to the power of the width. -/
def RAddr.Disciplined (r : RAddr t) : Prop := r.width.toNat ≤ 64 ∧ r.value.toNat < 2 ^ r.width.toNat

/-- An operation shifts by less than the word, and gives only addresses that are `good`. -/
def Sound {α : Type} (good : α → Prop) (result : Except (AddrFault t) α) : Prop :=
  result ≠ .error .overlongShift ∧ ∀ a, result = .ok a → good a

/-- What an operation asks for: that no width is wider than the word, that a given value is
below two to the power of its width, and that no shift is by the whole word. -/
def AddrOperation.Fits (s : Addresses t) : AddrOperation t → Prop
  | .default _ | .copy _ _ | .orAssign _ _ | .andAssign _ _ | .equal _ _ => True
  | .construct _ v w => w.toNat ≤ addrDigits t ∧ v.toNat < 2 ^ w.toNat
  | .ofPointer _ _ => 64 ≤ addrDigits t
  | .assign i v => (s i).width.toNat ≤ addrDigits t ∧ v.toNat < 2 ^ (s i).width.toNat
  | .truncateLsb _ a oldW amount => amount.toNat < addrDigits t ∧ amount.toNat ≤ oldW.toNat ∧
      oldW.toNat - amount.toNat ≤ addrDigits t ∧ a.toNat < 2 ^ oldW.toNat
  | .truncatedLsb _ i amount => amount.toNat < addrDigits t ∧ amount.toNat ≤ (s i).width.toNat ∧
      (s i).width.toNat - amount.toNat ≤ addrDigits t
  | .truncateMsb _ _ newW | .truncatedMsb _ _ newW => newW.toNat < addrDigits t
  | .shiftLeft _ i amount => amount.toNat < addrDigits t ∧ (s i).width.toNat + amount.toNat ≤ addrDigits t
  | .shiftRight _ i amount => amount.toNat < addrDigits t ∧ amount.toNat ≤ (s i).width.toNat ∧
      (s i).width.toNat - amount.toNat ≤ addrDigits t
  | .shiftLeftAssign i amount => amount.toNat < addrDigits t ∧ (s i).width.toNat + amount.toNat ≤ 64
  | .shiftRightAssign i amount => amount.toNat < addrDigits t ∧ amount.toNat ≤ (s i).width.toNat
  | .and _ i j | .or _ i j => (s i).width.toNat ≤ addrDigits t ∧ (s j).width.toNat ≤ addrDigits t
  | .bits _ _ low high => low.toNat < addrDigits t ∧ ((high - low + 1).setWidth 8).toNat < addrDigits t
  | .isValid _ w | .expectValid _ w => w.toNat ≤ addrDigits t
  | .valid i => (s i).width.toNat ≤ addrDigits t
  | .alwaysExpect i w => (s i).width = w → w.toNat ≤ addrDigits t

theorem addrDigits_cases (t : Target) : addrDigits t = 32 ∨ addrDigits t = 64 := by
  cases t with
  | mtalpha => exact Or.inr rfl
  | _ => exact Or.inl rfl

section Spec
variable {r o : RAddr t} {a v : Addr t} {w : AddrWidth} {amount : Size} {s : Addresses t} {k : Nat}

/-- The check accepts every value whose width is not wider than the word, and shifts too far for the others. -/
theorem RAddr.isValid_eq (a : Addr t) (w : AddrWidth) :
    RAddr.isValid a w = if w.toNat ≤ addrDigits t then .ok true else .error .overlongShift := by
  unfold RAddr.isValid shiftedRight
  by_cases narrow : w.toNat ≤ addrDigits t
  · rw [if_pos narrow, if_pos narrow]
  · rw [if_neg narrow, if_neg narrow, if_neg (by omega)]
    rfl

theorem RAddr.make_eq (v : Addr t) (w : AddrWidth) :
    RAddr.make v w = if w.toNat ≤ addrDigits t then .ok ⟨v, w⟩ else .error .overlongShift := by
  unfold RAddr.make
  rw [RAddr.isValid_eq]
  by_cases narrow : w.toNat ≤ addrDigits t
  · rw [if_pos narrow, if_pos narrow]
    rfl
  · rw [if_neg narrow, if_neg narrow]
    rfl

theorem sound_ok {α : Type} {good : α → Prop} (x : α) : Sound (t := t) good (.ok x) ↔ good x := by
  simp [Sound]

theorem sound_error {α : Type} {good : α → Prop} (fault : AddrFault t) :
    Sound (α := α) good (.error fault) ↔ fault ≠ .overlongShift := by
  simp [Sound]

theorem sound_make : Sound RAddr.Disciplined (RAddr.make v w) ↔ w.toNat ≤ addrDigits t ∧ v.toNat < 2 ^ w.toNat := by
  rw [RAddr.make_eq]
  by_cases narrow : w.toNat ≤ addrDigits t
  · have word : w.toNat ≤ 64 := by
      rcases addrDigits_cases t with digits | digits <;> omega
    rw [if_pos narrow, sound_ok]
    exact and_congr_left fun _ => ⟨fun _ => narrow, fun _ => word⟩
  · rw [if_neg narrow, sound_error]
    exact ⟨fun other => absurd rfl other, fun fits => absurd fits.1 narrow⟩

/-- An operation whose result is kept with addresses that are all disciplined. -/
theorem sound_update (disciplined : ∀ k, (s k).Disciplined) (result : Except (AddrFault t) (RAddr t)) :
    Sound (fun s' => ∀ k, RAddr.Disciplined (s' k)) (result.map (Function.update s k)) ↔
      Sound RAddr.Disciplined result := by
  cases result with
  | error fault => exact (sound_error fault).trans (sound_error fault).symm
  | ok a =>
    rw [sound_ok]
    refine (sound_ok _).trans ((Function.forall_update_iff s fun _ (r : RAddr t) => r.Disciplined).trans ?_)
    exact ⟨fun all => all.1, fun here => ⟨here, fun other _ => disciplined other⟩⟩

/-- An operation that gives no address. -/
theorem sound_check {α : Type} (disciplined : ∀ k, (s k).Disciplined) (result : Except (AddrFault t) α) :
    Sound (fun s' => ∀ k, RAddr.Disciplined (s' k)) (result.map fun _ => s) ↔ result ≠ .error .overlongShift := by
  cases result with
  | error fault =>
    refine (sound_error fault).trans ?_
    simp
  | ok a =>
    refine (sound_ok s).trans ?_
    simp [disciplined]

theorem sound_shiftedRight {α : Type} {good : α → Prop} {f : Addr t → Except (AddrFault t) α} {n : Nat} :
    Sound good (shiftedRight a n >>= f) ↔ n < addrDigits t ∧ Sound good (f (a >>> n)) := by
  unfold shiftedRight
  by_cases short : n < addrDigits t
  · rw [if_pos short]
    exact (and_iff_right short).symm
  · rw [if_neg short]
    exact ⟨fun sound => absurd rfl sound.1, fun both => absurd both.1 short⟩

theorem sound_shiftedLeft {α : Type} {good : α → Prop} {f : Addr t → Except (AddrFault t) α} {n : Nat} :
    Sound good (shiftedLeft a n >>= f) ↔ n < addrDigits t ∧ Sound good (f (a <<< n)) := by
  unfold shiftedLeft
  by_cases short : n < addrDigits t
  · rw [if_pos short]
    exact (and_iff_right short).symm
  · rw [if_neg short]
    exact ⟨fun sound => absurd rfl sound.1, fun both => absurd both.1 short⟩

theorem toNat_widened (w : AddrWidth) (amount : Size) :
    ((w.setWidth 64 + amount).setWidth 8).toNat = (w.toNat + amount.toNat) % 256 := by
  have small := w.isLt
  simp only [BitVec.toNat_setWidth, BitVec.toNat_add]
  omega

theorem toNat_narrowed (w : AddrWidth) {amount : Size} (short : amount.toNat < 64) :
    ((w.setWidth 64 - amount).setWidth 8).toNat =
      if amount.toNat ≤ w.toNat then w.toNat - amount.toNat else 256 + w.toNat - amount.toNat := by
  have small := w.isLt
  simp only [BitVec.toNat_setWidth, BitVec.toNat_sub]
  split <;> omega

theorem toNat_sub_width (w amount : AddrWidth) : (w - amount).toNat =
    if amount.toNat ≤ w.toNat then w.toNat - amount.toNat else 256 + w.toNat - amount.toNat := by
  have small := w.isLt
  have short := amount.isLt
  rw [BitVec.toNat_sub]
  split <;> omega

theorem toNat_ushiftRight_lt {n m : Nat} (inside : n ≤ m) : (a >>> n).toNat < 2 ^ (m - n) ↔ a.toNat < 2 ^ m := by
  rw [BitVec.toNat_ushiftRight, Nat.shiftRight_eq_div_pow, Nat.div_lt_iff_lt_mul (Nat.two_pow_pos n), ← Nat.pow_add,
    Nat.sub_add_cancel inside]

theorem toNat_shiftLeft_lt {n m : Nat} (small : a.toNat < 2 ^ m) : (a <<< n).toNat < 2 ^ (m + n) := by
  rw [BitVec.toNat_shiftLeft, Nat.shiftLeft_eq, Nat.pow_add]
  exact Nat.lt_of_le_of_lt (Nat.mod_le _ _) (Nat.mul_lt_mul_of_pos_right small (Nat.two_pow_pos n))

/-- What is left below the bits from `n` on. -/
theorem toNat_and_below {n : Nat} (a : Addr t) : (a &&& ~~~((~~~(0 : Addr t)) <<< n)).toNat < 2 ^ n := by
  refine Nat.lt_pow_two_of_testBit _ fun i above => ?_
  have bit : (a &&& ~~~((~~~(0 : Addr t)) <<< n)).getLsbD i = false := by
    simp
    omega
  exact bit

theorem sound_truncateLsb {oldW amount : AddrWidth} : Sound RAddr.Disciplined (RAddr.truncateLsb a oldW amount) ↔
    amount.toNat < addrDigits t ∧ amount.toNat ≤ oldW.toNat ∧ oldW.toNat - amount.toNat ≤ addrDigits t ∧
      a.toNat < 2 ^ oldW.toNat := by
  refine sound_shiftedRight.trans (and_congr_right fun short => ?_)
  rw [sound_make, toNat_sub_width]
  by_cases inside : amount.toNat ≤ oldW.toNat
  · rw [if_pos inside, toNat_ushiftRight_lt inside]
    exact (and_iff_right inside).symm
  · rw [if_neg inside]
    rcases addrDigits_cases t with digits | digits
    · omega
    · omega

theorem sound_truncateMsb {newW : AddrWidth} :
    Sound RAddr.Disciplined (RAddr.truncateMsb a newW) ↔ newW.toNat < addrDigits t := by
  refine sound_shiftedLeft.trans ?_
  rw [sound_make]
  exact ⟨fun sound => sound.1, fun short => ⟨short, Nat.le_of_lt short, toNat_and_below a⟩⟩

theorem sound_shiftLeft (disciplined : r.Disciplined) : Sound RAddr.Disciplined (r.shiftLeft amount) ↔
    amount.toNat < addrDigits t ∧ r.width.toNat + amount.toNat ≤ addrDigits t := by
  obtain ⟨word, small⟩ := disciplined
  refine sound_shiftedLeft.trans (and_congr_right fun short => ?_)
  have digits := addrDigits_cases t
  rw [sound_make, toNat_widened, Nat.mod_eq_of_lt (by omega)]
  exact and_iff_left (toNat_shiftLeft_lt small)

theorem sound_shiftLeftAssign (disciplined : r.Disciplined) : Sound RAddr.Disciplined (r.shiftLeftAssign amount) ↔
    amount.toNat < addrDigits t ∧ r.width.toNat + amount.toNat ≤ 64 := by
  obtain ⟨word, small⟩ := disciplined
  refine sound_shiftedLeft.trans (and_congr_right fun short => ?_)
  have digits := addrDigits_cases t
  rw [sound_ok, RAddr.Disciplined, toNat_widened, Nat.mod_eq_of_lt (by omega)]
  exact and_iff_left (toNat_shiftLeft_lt small)

theorem sound_shiftRight (disciplined : r.Disciplined) : Sound RAddr.Disciplined (r.shiftRight amount) ↔
    amount.toNat < addrDigits t ∧ amount.toNat ≤ r.width.toNat ∧ r.width.toNat - amount.toNat ≤ addrDigits t := by
  obtain ⟨word, small⟩ := disciplined
  refine sound_shiftedRight.trans (and_congr_right fun short => ?_)
  have digits := addrDigits_cases t
  rw [sound_make, toNat_narrowed _ (by omega)]
  by_cases inside : amount.toNat ≤ r.width.toNat
  · rw [if_pos inside, toNat_ushiftRight_lt inside]
    exact ⟨fun sound => ⟨inside, sound.1⟩, fun fits => ⟨fits.2, small⟩⟩
  · rw [if_neg inside]
    omega

theorem sound_shiftRightAssign (disciplined : r.Disciplined) : Sound RAddr.Disciplined (r.shiftRightAssign amount) ↔
    amount.toNat < addrDigits t ∧ amount.toNat ≤ r.width.toNat := by
  obtain ⟨word, small⟩ := disciplined
  refine sound_shiftedRight.trans (and_congr_right fun short => ?_)
  have digits := addrDigits_cases t
  rw [sound_ok, RAddr.Disciplined, toNat_narrowed _ (by omega)]
  by_cases inside : amount.toNat ≤ r.width.toNat
  · rw [if_pos inside, toNat_ushiftRight_lt inside]
    exact ⟨fun _ => inside, fun _ => ⟨by omega, small⟩⟩
  · rw [if_neg inside]
    omega

theorem RAddr.toNat_wider (r o : RAddr t) : (r.wider o).toNat = max r.width.toNat o.width.toNat := by
  unfold RAddr.wider
  split
  · rename_i less
    have order := BitVec.lt_def.mp less
    omega
  · rename_i notLess
    have order := mt BitVec.lt_def.mpr notLess
    omega

/-- The values of both addresses are below two to the power of the greater width. -/
theorem RAddr.Disciplined.below (first : r.Disciplined) (second : o.Disciplined) :
    (r.wider o).toNat ≤ 64 ∧ r.value.toNat < 2 ^ (r.wider o).toNat ∧ o.value.toNat < 2 ^ (r.wider o).toNat := by
  rw [RAddr.toNat_wider]
  exact ⟨Nat.max_le.mpr ⟨first.1, second.1⟩,
    Nat.lt_of_lt_of_le first.2 (Nat.pow_le_pow_right (by omega) (Nat.le_max_left _ _)),
    Nat.lt_of_lt_of_le second.2 (Nat.pow_le_pow_right (by omega) (Nat.le_max_right _ _))⟩

theorem RAddr.Disciplined.orAssign (first : r.Disciplined) (second : o.Disciplined) : (r.orAssign o).Disciplined := by
  obtain ⟨word, left, right⟩ := first.below second
  refine ⟨word, ?_⟩
  show (r.value ||| o.value).toNat < _
  rw [BitVec.toNat_or]
  exact Nat.or_lt_two_pow left right

theorem RAddr.Disciplined.andAssign (first : r.Disciplined) (second : o.Disciplined) : (r.andAssign o).Disciplined := by
  obtain ⟨word, left, right⟩ := first.below second
  refine ⟨word, ?_⟩
  show (r.value &&& o.value).toNat < _
  rw [BitVec.toNat_and]
  exact Nat.lt_of_le_of_lt Nat.and_le_left left

/-- The operators that combine two addresses, apart from their bits. -/
theorem sound_combined (combined : RAddr.Disciplined ⟨v, r.wider o⟩) :
    Sound RAddr.Disciplined (RAddr.make v (r.wider o)) ↔ r.width.toNat ≤ addrDigits t ∧ o.width.toNat ≤ addrDigits t := by
  rw [sound_make, and_iff_left combined.2, RAddr.toNat_wider, Nat.max_le]

theorem sound_bits {low high : Size} : Sound RAddr.Disciplined (r.bits low high) ↔
    low.toNat < addrDigits t ∧ ((high - low + 1).setWidth 8).toNat < addrDigits t :=
  sound_shiftedRight.trans (and_congr_right fun _ => sound_truncateMsb)

theorem isValid_ne_overlong : RAddr.isValid a w ≠ .error .overlongShift ↔ w.toNat ≤ addrDigits t := by
  rw [RAddr.isValid_eq]
  by_cases narrow : w.toNat ≤ addrDigits t <;> simp [narrow]

/-- A check of the width and of the value that ends in `require`. -/
theorem checked_ne_overlong {text : String} :
    (RAddr.isValid a w >>= fun valid => require (valid = true) (.invalid text w a)) ≠ .error .overlongShift ↔
      w.toNat ≤ addrDigits t := by
  rw [RAddr.isValid_eq]
  by_cases narrow : w.toNat ≤ addrDigits t
  · rw [if_pos narrow]
    exact iff_of_true (fun failed => by cases failed) narrow
  · rw [if_neg narrow]
    exact ⟨fun other => absurd rfl other, fun fits => absurd fits narrow⟩

/-- On disciplined addresses an operation keeps the discipline, without a shift by the whole word, exactly when it fits. -/
theorem perform_sound_iff (disciplined : ∀ k, (s k).Disciplined) (op : AddrOperation t) :
    Sound (fun s' => ∀ k, RAddr.Disciplined (s' k)) (perform s op) ↔ op.Fits s := by
  have same : Sound (fun s' => ∀ k, RAddr.Disciplined (s' k)) (.ok s : Except (AddrFault t) (Addresses t)) :=
    (sound_ok s).mpr disciplined
  have kept {k : Nat} {new : RAddr t} (here : new.Disciplined) :
      Sound (fun s' => ∀ k, RAddr.Disciplined (s' k)) (.ok (Function.update s k new) : Except (AddrFault t) _) :=
    (sound_update disciplined (.ok new)).mpr ((sound_ok new).mpr here)
  cases op with
  | default k =>
    have zero : Sound (t := t) RAddr.Disciplined RAddr.default := sound_make.mpr ⟨Nat.zero_le _, by simp⟩
    exact iff_of_true ((sound_update disciplined _).mpr zero) trivial
  | construct k v w => exact (sound_update disciplined _).trans sound_make
  | ofPointer k pointer =>
    refine (sound_update disciplined _).trans (sound_make.trans (and_iff_left_of_imp fun wide => ?_))
    have word : addrDigits t ≤ 64 := by
      rcases addrDigits_cases t with digits | digits <;> omega
    exact Nat.lt_of_lt_of_le (BitVec.isLt _) (Nat.pow_le_pow_right (by omega) word)
  | copy k i => exact iff_of_true (kept (disciplined i)) trivial
  | assign i v =>
    refine (sound_update disciplined _).trans ?_
    unfold RAddr.assign RAddr.expectValid
    rw [RAddr.isValid_eq]
    by_cases narrow : (s i).width.toNat ≤ addrDigits t
    · rw [if_pos narrow]
      refine (@sound_ok t _ RAddr.Disciplined { s i with value := v }).trans ?_
      exact ⟨fun after => ⟨narrow, after.2⟩, fun fits => ⟨(disciplined i).1, fits.2⟩⟩
    · rw [if_neg narrow]
      exact ⟨fun sound => absurd rfl sound.1, fun fits => absurd fits.1 narrow⟩
  | truncateLsb k a oldW amount => exact (sound_update disciplined _).trans sound_truncateLsb
  | truncateMsb k a newW => exact (sound_update disciplined _).trans sound_truncateMsb
  | truncatedLsb k i amount =>
    refine (sound_update disciplined _).trans (sound_truncateLsb.trans ?_)
    exact and_congr_right fun _ => and_congr_right fun _ => and_iff_left (disciplined i).2
  | truncatedMsb k i newW => exact (sound_update disciplined _).trans sound_truncateMsb
  | shiftLeft k i amount => exact (sound_update disciplined _).trans (sound_shiftLeft (disciplined i))
  | shiftRight k i amount => exact (sound_update disciplined _).trans (sound_shiftRight (disciplined i))
  | shiftLeftAssign i amount => exact (sound_update disciplined _).trans (sound_shiftLeftAssign (disciplined i))
  | shiftRightAssign i amount => exact (sound_update disciplined _).trans (sound_shiftRightAssign (disciplined i))
  | orAssign i j => exact iff_of_true (kept ((disciplined i).orAssign (disciplined j))) trivial
  | andAssign i j => exact iff_of_true (kept ((disciplined i).andAssign (disciplined j))) trivial
  | and k i j =>
    exact (sound_update disciplined _).trans (sound_combined ((disciplined i).andAssign (disciplined j)))
  | or k i j => exact (sound_update disciplined _).trans (sound_combined ((disciplined i).orAssign (disciplined j)))
  | bits k i low high => exact (sound_update disciplined _).trans sound_bits
  | isValid a w => exact (sound_check disciplined _).trans isValid_ne_overlong
  | valid i => exact (sound_check disciplined _).trans isValid_ne_overlong
  | expectValid a w => exact (sound_check disciplined _).trans checked_ne_overlong
  | alwaysExpect i w =>
    refine (sound_check disciplined _).trans ?_
    unfold RAddr.alwaysExpect
    by_cases expected : (s i).width = w
    · rw [require, if_pos expected]
      refine checked_ne_overlong.trans ?_
      rw [expected]
      exact ⟨fun narrow _ => narrow, fun narrow => narrow expected⟩
    · rw [require, if_neg expected]
      exact iff_of_true (fun failed => by cases failed) fun same => absurd same expected
  | equal i j => exact iff_of_true same trivial

end Spec

/-- In every run whose operations fit all addresses keep the discipline, and a further operation does so, without a
shift by the whole word, exactly when it fits. -/
theorem width_discipline {ops : List (AddrOperation t)} {s : Addresses t}
    (run : Run performOk (fun s op => op.Fits s) unset ops s) :
    (∀ k, (s k).Disciplined) ∧
      ∀ op : AddrOperation t, Sound (fun s' => ∀ k, RAddr.Disciplined (s' k)) (perform s op) ↔ op.Fits s := by
  have disciplined : ∀ k, (s k).Disciplined := by
    refine run.invariant (I := fun s => ∀ k, (s k).Disciplined) (fun _ => ⟨Nat.zero_le _, by simp [unset]⟩) ?_
    intro s op s' before fits done
    exact ((perform_sound_iff before op).mpr fits).2 s' (toOption_eq_some done)
  exact ⟨disciplined, perform_sound_iff disciplined⟩

/-- A tag of twelve bits is made and moved up by four, and its low bits are taken off. -/
theorem width_discipline_tag : ∃ s : Addresses .mtsparc, s 2 = ⟨0xBC, 8⟩ ∧ (∀ k, (s k).Disciplined) ∧
    ∀ op : AddrOperation .mtsparc, Sound (fun s' => ∀ k, RAddr.Disciplined (s' k)) (perform s op) ↔ op.Fits s := by
  have made : Run performOk (fun s op => op.Fits s) (unset (t := .mtsparc)) [.construct 0 0xABC 12] _ :=
    .next .start ⟨by decide, by decide⟩ rfl
  have moved : Run performOk (fun s op => op.Fits s) (unset (t := .mtsparc)) [.construct 0 0xABC 12, .shiftLeft 1 0 4] _ :=
    .next made ⟨by decide, by decide⟩ rfl
  have cut : Run performOk (fun s op => op.Fits s) (unset (t := .mtsparc))
      [.construct 0 0xABC 12, .shiftLeft 1 0 4, .truncatedMsb 2 0 8] _ :=
    .next moved (show (8 : AddrWidth).toNat < 32 by decide) rfl
  exact ⟨_, rfl, width_discipline cut⟩

/-- The constructor takes a value that does not fit the width. -/
theorem wide_value_accepted : ¬ ∀ (ops : List (AddrOperation .mtalpha)) (s : Addresses .mtalpha),
    execute performOk unset ops = some s → ∀ k, (s k).Disciplined := by
  intro all
  have bound := (all [.construct 0 16 4] _ rfl 0).2
  exact absurd bound (by decide)

end Mgsim.Arch
