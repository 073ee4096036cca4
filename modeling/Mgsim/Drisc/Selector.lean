import Mgsim.Drisc.DCache

namespace Mgsim.Drisc
open Mgsim.Lib Mgsim.Mmu

namespace BankSelector

/-- The selectors that keep the whole address as the tag and only spread the lines. -/
def whole (index : Addr → Nat) : BankSelector where
  map address := (address, index address)
  unmap tag _ := tag

def zeroSelector : BankSelector := whole fun _ => 0

def rotationMix4 (numBanks : Nat) : BankSelector :=
  whole fun address =>
    let address := address ^^^ (address >>> 32 ||| address <<< 32)
    let address := address ^^^ (address >>> 16 ||| address <<< 48)
    let address := address ^^^ (address >>> 8 ||| address <<< 56)
    let address := address ^^^ (address >>> 4 ||| address <<< 60)
    address.toNat % numBanks

def rightXor (numBanks : Nat) : BankSelector :=
  whole fun address => (address ^^^ (address / BitVec.ofNat 64 numBanks)).toNat % numBanks

def rightAdd (numBanks : Nat) : BankSelector :=
  whole fun address => (address + (address / BitVec.ofNat 64 numBanks)).toNat % numBanks

/-- The loop of `XORFold` and `AddFold`. A cache with one set has the `ZeroSelector`,
so that the loop always divides by two at least. -/
def fold (combine : Addr → Addr → Addr) (numBanks address : Nat) (result : Addr) : Addr :=
  let result := combine result (BitVec.ofNat 64 address)
  if 1 < numBanks ∧ numBanks < address / numBanks then fold combine numBanks (address / numBanks) result
  else result
termination_by address
decreasing_by
  rename_i more
  rcases Nat.eq_zero_or_pos address with rfl | positive
  · simp at more
  · exact Nat.div_lt_self positive more.1

def xorFold (numBanks : Nat) : BankSelector :=
  whole fun address => (fold (· ^^^ ·) numBanks address.toNat 0).toNat % numBanks

def addFold (numBanks : Nat) : BankSelector :=
  whole fun address => (fold (· + ·) numBanks address.toNat 0).toNat % numBanks

/-- `makeSelector`. -/
def makeSelector (name : String) (numBanks : Nat) : Except Fault BankSelector :=
  if numBanks = 1 ∨ name = "ZERO" then .ok zeroSelector
  else if name = "DIRECT" then .ok (direct numBanks)
  else if name = "RMIX" then .ok (rotationMix4 numBanks)
  else if name = "XORFOLD" then .ok (xorFold numBanks)
  else if name = "ADDFOLD" then .ok (addFold numBanks)
  else if name = "XORLSB" then .ok (rightXor numBanks)
  else if name = "ADDLSB" then .ok (rightAdd numBanks)
  else .error (.invalidArgument ("Unknown banking strategy: " ++ name))

/-- A selector gives every line address a set, and a tag from which it comes back. -/
structure Lawful (selector : BankSelector) (sets : Nat) : Prop where
  index : ∀ address, (selector.map address).2 < sets
  unmap : ∀ address, selector.unmap (selector.map address).1 (selector.map address).2 = address

theorem lawful_whole {index : Addr → Nat} {sets : Nat} (below : ∀ address, index address < sets) :
    (whole index).Lawful sets :=
  ⟨below, fun _ => rfl⟩

theorem lawful_direct {sets : Nat} (positive : 0 < sets) (bound : sets < 2 ^ 64) : (direct sets).Lawful sets := by
  refine ⟨fun address => Nat.mod_lt _ positive, fun address => ?_⟩
  apply BitVec.eq_of_toNat_eq
  have whole := Nat.div_add_mod' address.toNat sets
  have inside := address.isLt
  simp only [direct, BitVec.toNat_add, BitVec.toNat_mul, BitVec.toNat_udiv, BitVec.toNat_ofNat, Nat.mod_eq_of_lt bound,
    Nat.add_mod_mod, Nat.mod_add_mod, whole]
  exact Nat.mod_eq_of_lt inside

/-- Every selector that can be configured is lawful. -/
theorem lawful_makeSelector {name : String} {sets : Nat} {selector : BankSelector} (positive : 0 < sets)
    (bound : sets < 2 ^ 64) (made : makeSelector name sets = .ok selector) : selector.Lawful sets := by
  unfold makeSelector at made
  have below : ∀ n, n % sets < sets := fun n => Nat.mod_lt n positive
  split_ifs at made
  · cases made
    exact lawful_whole fun _ => positive
  · cases made
    exact lawful_direct positive bound
  · cases made
    exact lawful_whole fun _ => below _
  · cases made
    exact lawful_whole fun _ => below _
  · cases made
    exact lawful_whole fun _ => below _
  · cases made
    exact lawful_whole fun _ => below _
  · cases made
    exact lawful_whole fun _ => below _

end BankSelector

end Mgsim.Drisc
