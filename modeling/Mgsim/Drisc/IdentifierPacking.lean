import Mathlib.Algebra.Ring.Nat
import Mgsim.Drisc.Register
import Mgsim.Lib.BitField

namespace Mgsim.Drisc
open Lib

/-- The loop of `ilog2` from `l` and `r` on, in an unsigned type of `w` bits. -/
def ilog2From (w n : Nat) : (rounds l r : Nat) → Option Nat
  | 0, _, _ => none
  | rounds + 1, l, r => if r < n then ilog2From w n rounds (l + 1) (r * 2 % 2 ^ w) else some l

/-- After `w` rounds `r` is zero for good, and the loop does not end. -/
def ilog2 (w n : Nat) : Option Nat := ilog2From w n w 0 1

/-- The `sizeof(Integer) * 8` bits of a word. -/
def wordBits (t : Target) : Nat := 8 * t.sizeofInteger

/-- `RAND_MAX` of the host. -/
def randMax : Nat := 2147483647

variable {t : Target} {w : Nat}

/-- A shift by the size of the word or more is undefined. -/
def shl (x : BitVec w) (n : Nat) : Option (BitVec w) := if n < w then some (x <<< n) else none

def shr (x : BitVec w) (n : Nat) : Option (BitVec w) := if n < w then some (x >>> n) else none

structure PlaceID (t : Target) where
  capability : Integer t
  size : BitVec 32
  pid : BitVec 32

structure FID (t : Target) where
  capability : Integer t
  pid : BitVec 32
  lfid : BitVec 32

/-- The loop of `GenerateCapability`, which takes the numbers of `rand` from number `k` on. -/
def generateFrom (rand : Nat → Integer t) (k : Nat) (capability limit : Integer t) : Integer t :=
  if limit = 0 then capability
  else generateFrom rand (k + 1) (capability * (BitVec.ofNat _ randMax + 1) + rand k)
    (limit / (BitVec.ofNat _ randMax + 1))
termination_by limit.toNat
decreasing_by
  have positive : 0 < limit.toNat := Nat.pos_of_ne_zero fun zero => by
    rename_i nonzero
    exact nonzero (BitVec.eq_of_toNat_eq zero)
  have step : (BitVec.ofNat (8 * t.sizeofInteger) randMax + 1).toNat = 2 ^ 31 := by cases t <;> rfl
  rw [BitVec.toNat_udiv, step]
  exact Nat.div_lt_self positive (by decide)

def generateCapability (t : Target) (rand : Nat → Integer t) (bits : Nat) : Option (Integer t) :=
  (shl (1 : BitVec 64) bits).map fun limit =>
    generateFrom rand 0 0 ((limit + (BitVec.ofNat (8 * t.sizeofInteger) randMax + 1).setWidth 64 - 1).setWidth _) &&&
      (limit - 1).setWidth _

section Bits
variable (pidBits fidBits : Nat)

def generateFamilyCapability (t : Target) (rand : Nat → Integer t) : Option (Integer t) :=
  if wordBits t > pidBits + fidBits then generateCapability t rand (wordBits t - pidBits - fidBits) else none

/-- `PackPlace`, whose assertions and whose remainder by a zero size end it. -/
def packPlace (place : PlaceID t) : Option (Integer t) :=
  if place.size &&& (place.size - 1) ≠ 0 ∨ place.size = 0 ∨ place.pid % place.size ≠ 0 then none
  else (shl place.capability (pidBits + 1)).map fun capability =>
    capability ||| (place.pid <<< 1).setWidth _ ||| place.size.setWidth _

/-- `UnpackPlace`; `ctz` takes an `unsigned int`, and is undefined for zero. -/
def unpackPlace (id : Integer t) : Option (PlaceID t) := do
  let capability ← shr id (pidBits + 1)
  let limit ← shl (2 : BitVec 64) pidBits
  let field := id &&& (limit - 1).setWidth _
  if field = 0 then some ⟨capability, 0, 0⟩
  else if field.setWidth 32 = 0 then none
  else
    let size ← shl (1 : BitVec 32) (field.setWidth 32).ctz.toNat
    some ⟨capability, size, ((field - size.setWidth _) / 2).setWidth 32⟩

def unpackFID (id : Integer t) : Option (FID t) := do
  let pids ← shl (1 : BitVec 64) pidBits
  let rest ← shr id pidBits
  let lfids ← shl (1 : BitVec 64) fidBits
  let capability ← shr id (pidBits + fidBits)
  some ⟨capability, (id.setWidth 64 &&& (pids - 1)).setWidth 32, (rest.setWidth 64 &&& (lfids - 1)).setWidth 32⟩

def packFID (fid : FID t) : Option (Integer t) := do
  let capability ← shl fid.capability (pidBits + fidBits)
  let lfid ← shl fid.lfid pidBits
  some (capability ||| lfid.setWidth _ ||| fid.pid.setWidth _)

/-- The size is a power of two, the place lies at a multiple of its size, and the capability fits the other bits. -/
def PlaceID.Fits (place : PlaceID t) : Prop :=
  (∃ k ≤ pidBits, place.size.toNat = 2 ^ k) ∧ place.size.toNat ∣ place.pid.toNat ∧ place.pid.toNat < 2 ^ pidBits ∧
    place.capability.toNat < 2 ^ (wordBits t - (pidBits + 1))

def FID.Fits (fid : FID t) : Prop :=
  fid.pid.toNat < 2 ^ pidBits ∧ fid.lfid.toNat < 2 ^ fidBits ∧
    fid.capability.toNat < 2 ^ (wordBits t - (pidBits + fidBits))

/-- What packing and unpacking promise for these numbers of bits. -/
structure PackingLaws (t : Target) : Prop where
  place : ∀ place : PlaceID t, place.Fits pidBits → (packPlace pidBits place).bind (unpackPlace pidBits) = some place
  fid : ∀ fid : FID t, fid.Fits pidBits fidBits →
    (packFID pidBits fidBits fid).bind (unpackFID pidBits fidBits) = some fid
  generated : ∀ rand : Nat → Integer t, ∃ c, generateFamilyCapability pidBits fidBits t rand = some c ∧
    c.toNat < 2 ^ (wordBits t - (pidBits + fidBits))
  word : ∀ id : Integer t, id.toNat % 2 ^ (pidBits + 1) ≠ 0 →
    (unpackPlace pidBits id).bind (packPlace pidBits) = some id

/-- No field is shifted out of its type. -/
structure BitsFit (t : Target) : Prop where
  place : pidBits + 1 < wordBits t
  fid : pidBits + fidBits < wordBits t
  lfid : pidBits = 0 ∨ pidBits + fidBits ≤ 32
  capability : wordBits t - (pidBits + fidBits) < 64

end Bits

theorem ilog2From_eq_some {n : Nat} (rounds l : Nat) {l' : Nat} (inside : l + rounds = w) :
    ilog2From w n rounds l (2 ^ l) = some l' ↔
      l ≤ l' ∧ l' < w ∧ n ≤ 2 ^ l' ∧ ∀ k, l ≤ k → k < l' → 2 ^ k < n := by
  induction rounds generalizing l with
  | zero =>
    refine iff_of_false (by rintro ⟨⟩) fun found => ?_
    omega
  | succ rounds ih =>
    rw [ilog2From]
    split
    · rename_i below
      have step : ilog2From w n rounds (l + 1) (2 ^ l * 2 % 2 ^ w) = some l' ↔
          ilog2From w n rounds (l + 1) (2 ^ (l + 1)) = some l' := by
        cases rounds with
        | zero => exact Iff.rfl
        | succ rounds => rw [← Nat.pow_succ, Nat.mod_eq_of_lt (Nat.pow_lt_pow_right (by decide) (by omega))]
      rw [step, ih (l + 1) (by omega)]
      constructor
      · rintro ⟨from', last, fits, before⟩
        refine ⟨by omega, last, fits, fun k after below' => ?_⟩
        rcases Nat.eq_or_lt_of_le after with rfl | later
        · exact below
        · exact before k later below'
      · rintro ⟨from', last, fits, before⟩
        have other : l ≠ l' := by
          rintro rfl
          omega
        exact ⟨by omega, last, fits, fun k after below' => before k (by omega) below'⟩
    · rename_i done
      constructor
      · intro same
        cases same
        exact ⟨Nat.le_refl _, by omega, by omega, fun k after below => by omega⟩
      · rintro ⟨from', last, fits, before⟩
        rcases Nat.eq_or_lt_of_le from' with rfl | later
        · rfl
        · exact absurd (before l (Nat.le_refl _) later) done

/-- The loop gives the least power of two that is not below the number, when that fits the type. -/
theorem ilog2_eq_some {n l : Nat} : ilog2 w n = some l ↔ l < w ∧ n ≤ 2 ^ l ∧ ∀ k < l, 2 ^ k < n := by
  have loop := @ilog2From_eq_some w n w 0 l (Nat.zero_add w)
  refine loop.trans ⟨fun found => ⟨found.2.1, found.2.2.1, fun k below => found.2.2.2 k (Nat.zero_le _) below⟩, ?_⟩
  exact fun found => ⟨Nat.zero_le _, found.1, found.2.1, fun k _ below => found.2.2 k below⟩

theorem wordBits_cases (t : Target) : wordBits t = 32 ∨ wordBits t = 64 := by
  cases t with
  | mtalpha => exact Or.inr rfl
  | _ => exact Or.inl rfl

theorem toNat_lt_word (x : Integer t) : x.toNat < 2 ^ wordBits t := x.isLt

theorem toNat_setWidth_word (x : BitVec 32) : (x.setWidth (8 * t.sizeofInteger)).toNat = x.toNat := by
  have small := x.isLt
  rw [BitVec.toNat_setWidth]
  cases t <;> exact Nat.mod_eq_of_lt (Nat.lt_of_lt_of_le small (by decide))

theorem shl_of_lt {n : Nat} (x : BitVec w) (inside : n < w) : shl x n = some (x <<< n) := if_pos inside

theorem shr_of_lt {n : Nat} (x : BitVec w) (inside : n < w) : shr x n = some (x >>> n) := if_pos inside

/-- A capability above a field of `n` bits. -/
theorem toNat_above {capability low : Integer t} {n : Nat} (inside : n ≤ wordBits t)
    (fits : capability.toNat < 2 ^ (wordBits t - n)) (small : low.toNat < 2 ^ n) :
    (capability <<< n ||| low).toNat = capability.toNat * 2 ^ n + low.toNat := by
  have below : capability.toNat * 2 ^ n < 2 ^ wordBits t := by
    rw [← Nat.sub_add_cancel inside, Nat.pow_add]
    exact Nat.mul_lt_mul_of_pos_right fits (Nat.two_pow_pos n)
  have shifted : (capability <<< n).toNat = capability.toNat * 2 ^ n := by
    rw [BitVec.toNat_shiftLeft, Nat.shiftLeft_eq]
    exact Nat.mod_eq_of_lt below
  rw [BitVec.toNat_or, shifted, Nat.mul_comm, Nat.two_pow_add_eq_or_of_lt small]

theorem toNat_split {id : Integer t} {c low n : Nat} (value : id.toNat = c * 2 ^ n + low) (small : low < 2 ^ n) :
    (id >>> n).toNat = c ∧ id.toNat % 2 ^ n = low := by
  rw [BitVec.toNat_ushiftRight, Nat.shiftRight_eq_div_pow, value]
  refine ⟨?_, ?_⟩
  · rw [Nat.add_comm, Nat.add_mul_div_right _ _ (Nat.two_pow_pos n), Nat.div_eq_of_lt small, Nat.zero_add]
  · rw [Nat.add_comm, Nat.add_mul_mod_self_right, Nat.mod_eq_of_lt small]

theorem toNat_mask {n : Nat} (inside : n < 64) : ((1 : BitVec 64) <<< n - 1).toNat = 2 ^ n - 1 := by
  have bound : 2 ^ n < 2 ^ 64 := Nat.pow_lt_pow_right (by decide) inside
  have positive := Nat.two_pow_pos n
  have power : ((1 : BitVec 64) <<< n).toNat = 2 ^ n := by
    rw [BitVec.toNat_shiftLeft, Nat.shiftLeft_eq]
    exact (congrArg (· % 2 ^ 64) (Nat.one_mul _)).trans (Nat.mod_eq_of_lt bound)
  rw [BitVec.toNat_sub, power]
  simp
  omega

section Places
variable {pidBits k m : Nat}

/-- The field of a place has its size as the lowest bit and twice its first core above. -/
theorem packPlace_eq {place : PlaceID t} (inside : pidBits + 1 < wordBits t) (size : place.size.toNat = 2 ^ k)
    (pid : place.pid.toNat = 2 ^ k * m) (small : 2 ^ k * (2 * m + 1) < 2 ^ (pidBits + 1)) (narrow : pidBits < 32)
    (fits : place.capability.toNat < 2 ^ (wordBits t - (pidBits + 1))) :
    ∃ id, packPlace pidBits place = some id ∧
      id.toNat = place.capability.toNat * 2 ^ (pidBits + 1) + 2 ^ k * (2 * m + 1) := by
  have word : 2 ^ (pidBits + 1) ≤ 2 ^ 32 := Nat.pow_le_pow_right (by decide) (by omega)
  have parts : 2 ^ k * (2 * m + 1) = 2 ^ (k + 1) * m + 2 ^ k := by
    rw [Nat.mul_add, Nat.mul_one, Nat.pow_succ, Nat.mul_assoc]
  have twice : 2 ^ k * m * 2 ^ 1 = 2 ^ (k + 1) * m := by rw [Nat.pow_one, Nat.pow_succ, Nat.mul_right_comm]
  have doubled : (place.pid <<< 1).toNat = 2 ^ (k + 1) * m := by
    rw [BitVec.toNat_shiftLeft, Nat.shiftLeft_eq, pid, twice]
    exact Nat.mod_eq_of_lt (by omega)
  have low : ((place.pid <<< 1).setWidth (8 * t.sizeofInteger) ||| place.size.setWidth _).toNat = 2 ^ k * (2 * m + 1) := by
    rw [BitVec.toNat_or, toNat_setWidth_word, toNat_setWidth_word, doubled, size, parts]
    exact (Nat.two_pow_add_eq_or_of_lt (Nat.pow_lt_pow_right (by decide) (Nat.lt_succ_self k)) m).symm
  have accepted : ¬ (place.size &&& (place.size - 1) ≠ 0 ∨ place.size = 0 ∨ place.pid % place.size ≠ 0) := by
    rintro (many | zero | unaligned)
    · refine many (BitVec.eq_of_toNat_eq ?_)
      have before : (place.size - 1).toNat = 2 ^ k - 1 := by
        have positive := Nat.two_pow_pos k
        have bound := place.size.isLt
        rw [BitVec.toNat_sub, size]
        simp
        omega
      rw [toNat_and_low before, size, Nat.mod_self]
      rfl
    · have positive := Nat.two_pow_pos k
      rw [zero] at size
      simp at size
      omega
    · refine unaligned (BitVec.eq_of_toNat_eq ?_)
      rw [BitVec.toNat_umod, pid, size, Nat.mul_mod_right]
      rfl
  unfold packPlace
  rw [if_neg accepted, shl_of_lt (w := 8 * t.sizeofInteger) _ inside, Option.map_some]
  refine ⟨_, rfl, ?_⟩
  rw [BitVec.or_assoc, toNat_above (Nat.le_of_lt inside) fits (by rw [low]; exact small), low]

theorem unpackPlace_eq {id : Integer t} {c : Nat} (inside : pidBits + 1 < wordBits t)
    (value : id.toNat = c * 2 ^ (pidBits + 1) + 2 ^ k * (2 * m + 1)) (small : 2 ^ k * (2 * m + 1) < 2 ^ (pidBits + 1))
    (narrow : pidBits < 32) :
    ∃ place, unpackPlace pidBits id = some place ∧ place.capability.toNat = c ∧ place.size.toNat = 2 ^ k ∧
      place.pid.toNat = 2 ^ k * m := by
  obtain ⟨above, below⟩ := toNat_split value small
  have word : 2 ^ (pidBits + 1) ≤ 2 ^ 32 := Nat.pow_le_pow_right (by decide) (by omega)
  have bounded : 2 ^ (pidBits + 1) < 2 ^ wordBits t := Nat.pow_lt_pow_right (by decide) inside
  have positive := Nat.two_pow_pos k
  have parts : 2 ^ k * (2 * m + 1) = 2 * (2 ^ k * m) + 2 ^ k := by
    rw [Nat.mul_add, Nat.mul_one, Nat.mul_left_comm]
  have limit : ((2 : BitVec 64) <<< pidBits - 1).toNat = 2 ^ (pidBits + 1) - 1 := by
    have same : (2 : BitVec 64) <<< pidBits = (1 : BitVec 64) <<< (pidBits + 1) := by
      rw [Nat.add_comm, BitVec.shiftLeft_add]
      rfl
    rw [same, toNat_mask (by omega)]
  have mask : (((2 : BitVec 64) <<< pidBits - 1).setWidth (8 * t.sizeofInteger)).toNat = 2 ^ (pidBits + 1) - 1 := by
    rw [BitVec.toNat_setWidth, limit]
    exact Nat.mod_eq_of_lt (Nat.lt_of_le_of_lt (Nat.sub_le _ _) bounded)
  obtain ⟨field, same⟩ : ∃ field, id &&& ((2 : BitVec 64) <<< pidBits - 1).setWidth (8 * t.sizeofInteger) = field := ⟨_, rfl⟩
  have number : field.toNat = 2 ^ k * (2 * m + 1) := by rw [← same, toNat_and_low mask, below]
  have low : (field.setWidth 32).toNat = 2 ^ k * (2 * m + 1) := by
    rw [BitVec.toNat_setWidth, number]
    exact Nat.mod_eq_of_lt (by omega)
  have nonzero : field ≠ 0 := by
    rintro rfl
    simp at number
  have nonzero' : field.setWidth 32 ≠ 0 := by
    intro zero
    rw [zero] at low
    simp at low
  have lowest := toNat_ctz low
  have bits : k < 32 := by
    by_contra many
    have large : 2 ^ 32 ≤ 2 ^ k := Nat.pow_le_pow_right (by decide) (by omega)
    omega
  have power : ((1 : BitVec 32) <<< k).toNat = 2 ^ k := by
    rw [BitVec.toNat_shiftLeft, Nat.shiftLeft_eq]
    exact (congrArg (· % 2 ^ 32) (Nat.one_mul _)).trans (Nat.mod_eq_of_lt (Nat.pow_lt_pow_right (by decide) bits))
  have half : (field - ((1 : BitVec 32) <<< k).setWidth (8 * t.sizeofInteger)).toNat = 2 * (2 ^ k * m) := by
    have bound := field.isLt
    rw [BitVec.toNat_sub, toNat_setWidth_word, power, number]
    rw [number] at bound
    rw [show 2 ^ (8 * t.sizeofInteger) - 2 ^ k + 2 ^ k * (2 * m + 1) =
      2 * (2 ^ k * m) + 2 ^ (8 * t.sizeofInteger) by omega, Nat.add_mod_right]
    exact Nat.mod_eq_of_lt (by omega)
  unfold unpackPlace
  rw [shr_of_lt (w := 8 * t.sizeofInteger) _ (Nat.lt_of_lt_of_le (by omega : pidBits + 1 < wordBits t) (Nat.le_refl _)),
    shl_of_lt (w := 64) _ (by omega)]
  simp only [Option.bind_eq_bind, Option.bind_some, same]
  rw [if_neg nonzero, if_neg nonzero', lowest, shl_of_lt (w := 32) _ bits]
  refine ⟨_, rfl, above, power, ?_⟩
  show (((field - ((1 : BitVec 32) <<< k).setWidth _) / 2).setWidth 32).toNat = _
  rw [BitVec.toNat_setWidth, BitVec.toNat_udiv, half]
  have two : (2 : Integer t).toNat = 2 := by cases t <;> rfl
  rw [two, Nat.mul_div_cancel_left _ (by decide)]
  exact Nat.mod_eq_of_lt (by omega)

theorem PlaceID.eq_of_toNat {place other : PlaceID t} (capability : place.capability.toNat = other.capability.toNat)
    (size : place.size.toNat = other.size.toNat) (pid : place.pid.toNat = other.pid.toNat) : place = other := by
  cases place
  cases other
  exact congr (congr (congrArg PlaceID.mk (BitVec.eq_of_toNat_eq capability)) (BitVec.eq_of_toNat_eq size))
    (BitVec.eq_of_toNat_eq pid)

/-- A place ends at or before the last core. -/
theorem place_inside {size pid : Nat} (power : size = 2 ^ k) (small : k ≤ pidBits) (aligned : pid = 2 ^ k * m)
    (inside : pid < 2 ^ pidBits) : 2 ^ k * (2 * m + 1) < 2 ^ (pidBits + 1) := by
  have cores : 2 ^ pidBits = 2 ^ k * 2 ^ (pidBits - k) := by rw [← Nat.pow_add, Nat.add_sub_cancel' small]
  rw [aligned, cores] at inside
  have before : m < 2 ^ (pidBits - k) := Nat.lt_of_mul_lt_mul_left inside
  rw [Nat.pow_succ, cores, Nat.mul_assoc]
  exact Nat.mul_lt_mul_of_pos_left (by omega) (Nat.two_pow_pos k)

theorem unpackPlace_packPlace (inside : pidBits + 1 < wordBits t) (narrow : pidBits < 32) {place : PlaceID t}
    (fits : place.Fits pidBits) : (packPlace pidBits place).bind (unpackPlace pidBits) = some place := by
  obtain ⟨⟨k, small, size⟩, aligned, before, capability⟩ := fits
  rw [size] at aligned
  obtain ⟨m, pid⟩ := aligned
  have field := place_inside size small pid before
  obtain ⟨id, packed, value⟩ := packPlace_eq inside size pid field narrow capability
  obtain ⟨place', unpacked, capability', size', pid'⟩ := unpackPlace_eq inside value field narrow
  rw [packed, Option.bind_some, unpacked,
    PlaceID.eq_of_toNat capability' (size'.trans size.symm) (pid'.trans pid.symm)]

theorem packPlace_unpackPlace (inside : pidBits + 1 < wordBits t) (narrow : pidBits < 32) {id : Integer t}
    (used : id.toNat % 2 ^ (pidBits + 1) ≠ 0) : (unpackPlace pidBits id).bind (packPlace pidBits) = some id := by
  have below := Nat.mod_lt id.toNat (Nat.two_pow_pos (pidBits + 1))
  have number : (BitVec.ofNat (pidBits + 1) id.toNat).toNat = id.toNat % 2 ^ (pidBits + 1) := BitVec.toNat_ofNat _ _
  obtain ⟨m, marked⟩ := marked_of_ne_zero (x := BitVec.ofNat (pidBits + 1) id.toNat) fun zero => by
    rw [zero] at number
    exact used number.symm
  rw [number] at marked
  have value : id.toNat = id.toNat / 2 ^ (pidBits + 1) * 2 ^ (pidBits + 1) +
      2 ^ (BitVec.ofNat (pidBits + 1) id.toNat).ctz.toNat * (2 * m + 1) := by
    rw [← marked]
    exact (Nat.div_add_mod' _ _).symm
  rw [marked] at below
  obtain ⟨place, unpacked, capability, size, pid⟩ := unpackPlace_eq inside value below narrow
  have high : place.capability.toNat < 2 ^ (wordBits t - (pidBits + 1)) := by
    rw [capability, Nat.div_lt_iff_lt_mul (Nat.two_pow_pos _), ← Nat.pow_add, Nat.sub_add_cancel (Nat.le_of_lt inside)]
    exact toNat_lt_word id
  obtain ⟨id', packed, value'⟩ := packPlace_eq inside size pid below narrow high
  rw [unpacked, Option.bind_some, packed]
  refine congrArg some (BitVec.eq_of_toNat_eq ?_)
  rw [value', capability]
  exact value.symm

end Places

section Families
variable {pidBits fidBits : Nat}

theorem unpackFID_packFID (fit : BitsFit pidBits fidBits t) (narrow : pidBits < 32) (wide : fidBits < 64) {fid : FID t}
    (fits : fid.Fits pidBits fidBits) :
    (packFID pidBits fidBits fid).bind (unpackFID pidBits fidBits) = some fid := by
  obtain ⟨pid, lfid, capability⟩ := fits
  have inside := fit.fid
  have digits := wordBits_cases t
  have bound := fid.lfid.isLt
  have bound' := fid.pid.isLt
  have shifted : (fid.lfid <<< pidBits).toNat = fid.lfid.toNat * 2 ^ pidBits := by
    rw [BitVec.toNat_shiftLeft, Nat.shiftLeft_eq]
    refine Nat.mod_eq_of_lt ?_
    rcases fit.lfid with none | few
    · rw [none, Nat.pow_zero, Nat.mul_one]
      exact bound
    · refine Nat.lt_of_lt_of_le ?_ (Nat.pow_le_pow_right (by decide) few)
      rw [Nat.add_comm, Nat.pow_add]
      exact Nat.mul_lt_mul_of_pos_right lfid (Nat.two_pow_pos pidBits)
  have low : ((fid.lfid <<< pidBits).setWidth (8 * t.sizeofInteger) ||| fid.pid.setWidth _).toNat =
      fid.lfid.toNat * 2 ^ pidBits + fid.pid.toNat := by
    rw [BitVec.toNat_or, toNat_setWidth_word, toNat_setWidth_word, shifted, Nat.mul_comm,
      Nat.two_pow_add_eq_or_of_lt pid]
  have small : fid.lfid.toNat * 2 ^ pidBits + fid.pid.toNat < 2 ^ (pidBits + fidBits) := by
    rw [Nat.add_comm pidBits, Nat.pow_add]
    have more := Nat.mul_le_mul_right (2 ^ pidBits) (Nat.succ_le_of_lt lfid)
    rw [Nat.succ_mul] at more
    omega
  have fits : ((fid.lfid <<< pidBits).setWidth (8 * t.sizeofInteger) ||| fid.pid.setWidth _).toNat <
      2 ^ (pidBits + fidBits) := by
    rw [low]
    exact small
  have value := toNat_above (Nat.le_of_lt inside) capability fits
  rw [low] at value
  unfold packFID
  rw [shl_of_lt (w := 8 * t.sizeofInteger) _ inside, shl_of_lt (w := 32) _ narrow]
  simp only [Option.bind_eq_bind, Option.bind_some, BitVec.or_assoc]
  obtain ⟨id, same⟩ : ∃ id, fid.capability <<< (pidBits + fidBits) |||
    ((fid.lfid <<< pidBits).setWidth (8 * t.sizeofInteger) ||| fid.pid.setWidth _) = id := ⟨_, rfl⟩
  rw [same] at value ⊢
  have word : id.toNat < 2 ^ 64 :=
    Nat.lt_of_lt_of_le (toNat_lt_word id) (Nat.pow_le_pow_right (by decide) (by omega))
  have split : id.toNat = (fid.capability.toNat * 2 ^ fidBits + fid.lfid.toNat) * 2 ^ pidBits + fid.pid.toNat := by
    rw [value, Nat.add_mul, Nat.mul_assoc, ← Nat.pow_add, Nat.add_comm fidBits, Nat.add_assoc]
  obtain ⟨rest, pids⟩ := toNat_split split pid
  obtain ⟨top, _⟩ := toNat_split value small
  unfold unpackFID
  rw [shl_of_lt (w := 64) _ (by omega), shr_of_lt (w := 8 * t.sizeofInteger) _ (Nat.lt_of_le_of_lt (Nat.le_add_right _ _) inside),
    shl_of_lt (w := 64) _ wide, shr_of_lt (w := 8 * t.sizeofInteger) _ inside]
  simp only [Option.bind_eq_bind, Option.bind_some]
  have pid' : ((id.setWidth 64 &&& ((1 : BitVec 64) <<< pidBits - 1)).setWidth 32).toNat = fid.pid.toNat := by
    rw [BitVec.toNat_setWidth, toNat_and_low (toNat_mask (by omega)), BitVec.toNat_setWidth, Nat.mod_eq_of_lt word, pids]
    exact Nat.mod_eq_of_lt bound'
  have lfid' : (((id >>> pidBits).setWidth 64 &&& ((1 : BitVec 64) <<< fidBits - 1)).setWidth 32).toNat =
      fid.lfid.toNat := by
    have inner : (id >>> pidBits).toNat < 2 ^ 64 := by
      rw [BitVec.toNat_ushiftRight, Nat.shiftRight_eq_div_pow]
      exact Nat.lt_of_le_of_lt (Nat.div_le_self _ _) word
    rw [BitVec.toNat_setWidth, toNat_and_low (toNat_mask wide), BitVec.toNat_setWidth, Nat.mod_eq_of_lt inner, rest,
      Nat.add_comm, Nat.add_mul_mod_self_right, Nat.mod_eq_of_lt lfid]
    exact Nat.mod_eq_of_lt bound
  rw [BitVec.eq_of_toNat_eq top, BitVec.eq_of_toNat_eq pid', BitVec.eq_of_toNat_eq lfid']

theorem generateFamilyCapability_fits (fit : BitsFit pidBits fidBits t) (rand : Nat → Integer t) :
    ∃ c, generateFamilyCapability pidBits fidBits t rand = some c ∧ c.toNat < 2 ^ (wordBits t - (pidBits + fidBits)) := by
  have few : wordBits t - pidBits - fidBits < 64 := by
    rw [Nat.sub_sub]
    exact fit.capability
  have inside : 2 ^ (wordBits t - pidBits - fidBits) ≤ 2 ^ wordBits t := Nat.pow_le_pow_right (by decide) (by omega)
  have positive := Nat.two_pow_pos (wordBits t - pidBits - fidBits)
  unfold generateFamilyCapability generateCapability
  rw [if_pos fit.fid, shl_of_lt (w := 64) _ few, Option.map_some]
  refine ⟨_, rfl, ?_⟩
  have mask : (((1 : BitVec 64) <<< (wordBits t - pidBits - fidBits) - 1).setWidth (8 * t.sizeofInteger)).toNat =
      2 ^ (wordBits t - pidBits - fidBits) - 1 := by
    rw [BitVec.toNat_setWidth, toNat_mask few]
    exact Nat.mod_eq_of_lt (Nat.lt_of_lt_of_le (by omega) inside)
  rw [toNat_and_low mask, Nat.sub_sub]
  exact Nat.mod_lt _ (Nat.two_pow_pos _)

/-- The four laws hold exactly for the numbers of bits with which no field is shifted out of its type. -/
theorem packingLaws_iff (narrow : pidBits < 32) (wide : fidBits < 64) :
    PackingLaws pidBits fidBits t ↔ BitsFit pidBits fidBits t := by
  have digits := wordBits_cases t
  constructor
  · intro laws
    have place : pidBits + 1 < wordBits t := by
      by_contra long
      have single := laws.place ⟨0, 1, 0⟩ ⟨⟨0, Nat.zero_le _, rfl⟩, Nat.one_dvd _, Nat.two_pow_pos _, Nat.two_pow_pos _⟩
      have lost : shl (0 : Integer t) (pidBits + 1) = none := if_neg long
      unfold packPlace at single
      rw [if_neg (by simp), lost] at single
      cases single
    have fid : pidBits + fidBits < wordBits t := by
      by_contra long
      have zero := laws.fid ⟨0, 0, 0⟩ ⟨Nat.two_pow_pos _, Nat.two_pow_pos _, Nat.two_pow_pos _⟩
      have lost : shl (0 : Integer t) (pidBits + fidBits) = none := if_neg long
      unfold packFID at zero
      rw [lost] at zero
      cases zero
    refine ⟨place, fid, ?_, ?_⟩
    · by_contra many
      rw [not_or, Nat.not_le] at many
      -- the lowest bit of a family's index that the shift in 32 bits loses
      have bit : (BitVec.twoPow 32 (32 - pidBits)).toNat = 2 ^ (32 - pidBits) := by
        rw [BitVec.toNat_twoPow]
        exact Nat.mod_eq_of_lt (Nat.pow_lt_pow_right (by decide) (by omega))
      have high := laws.fid ⟨0, 0, BitVec.twoPow 32 (32 - pidBits)⟩ ⟨Nat.two_pow_pos _, by
        rw [bit]
        exact Nat.pow_lt_pow_right (by decide) (by omega), Nat.two_pow_pos _⟩
      have zero := laws.fid ⟨0, 0, 0⟩ ⟨Nat.two_pow_pos _, Nat.two_pow_pos _, Nat.two_pow_pos _⟩
      have lost : (BitVec.twoPow 32 (32 - pidBits)) <<< pidBits = (0 : BitVec 32) <<< pidBits := by
        apply BitVec.eq_of_toNat_eq
        rw [BitVec.toNat_shiftLeft, bit, Nat.shiftLeft_eq, ← Nat.pow_add, Nat.sub_add_cancel (Nat.le_of_lt narrow)]
        simp
      have same : packFID (t := t) pidBits fidBits ⟨0, 0, BitVec.twoPow 32 (32 - pidBits)⟩ =
          packFID pidBits fidBits ⟨0, 0, 0⟩ := by
        unfold packFID
        rw [shl_of_lt (w := 32) _ narrow, shl_of_lt (w := 32) _ narrow, lost]
      rw [same, zero] at high
      have index := congrArg (fun fid : FID t => fid.lfid.toNat) (Option.some.inj high)
      have positive := Nat.two_pow_pos (32 - pidBits)
      change 0 = (BitVec.twoPow 32 (32 - pidBits)).toNat at index
      omega
    · by_contra whole
      obtain ⟨c, made, _⟩ := laws.generated fun _ => 0
      unfold generateFamilyCapability generateCapability at made
      rw [Nat.sub_sub, if_pos fid, shl, if_neg whole] at made
      cases made
  · intro fit
    exact ⟨fun _ fits => unpackPlace_packPlace fit.place narrow fits,
      fun _ fits => unpackFID_packFID fit narrow wide fits, generateFamilyCapability_fits fit,
      fun _ used => packPlace_unpackPlace fit.place narrow used⟩

end Families

/-- For every size of the grid and of the family table with which the cores come into being. -/
theorem identifier_packing {gridSize familyTableSize pidBits fidBits : Nat} (grid : ilog2 32 gridSize = some pidBits)
    (families : ilog2 64 familyTableSize = some fidBits) :
    PackingLaws pidBits fidBits t ↔ BitsFit pidBits fidBits t :=
  packingLaws_iff (ilog2_eq_some.mp grid).1 (ilog2_eq_some.mp families).1

/-- A grid of 128 cores with 32 families each, on the narrow word. -/
theorem identifier_packing_grid : PackingLaws 7 5 .mtsparc :=
  (@identifier_packing .mtsparc 128 32 7 5 rfl rfl).mpr ⟨by decide, by decide, Or.inr (by decide), by decide⟩

/-- With 2 ^ 17 cores and 2 ^ 16 families the highest bit of a family's index is lost. -/
theorem family_index_lost : ¬ ∀ gridSize familyTableSize pidBits fidBits : Nat, ilog2 32 gridSize = some pidBits →
    ilog2 64 familyTableSize = some fidBits → PackingLaws pidBits fidBits .mtalpha := by
  intro laws
  have high := (laws (2 ^ 17) (2 ^ 16) 17 16 (ilog2_eq_some.mpr ⟨by decide, by decide, by decide⟩)
    (ilog2_eq_some.mpr ⟨by decide, by decide, by decide⟩)).fid ⟨0, 0, 0x8000⟩ ⟨by decide, by decide, by decide⟩
  have index := congrArg (Option.map fun fid : FID .mtalpha => fid.lfid) high
  exact absurd index (by decide)

end Mgsim.Drisc
