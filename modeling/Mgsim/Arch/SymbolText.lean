import Mgsim.Arch.SymbolTable

namespace Mgsim.Arch
open Mgsim.Lib Mgsim.Drisc

variable {t : Target} {entries : List (Entry t)} {addr : MemAddr t}

def Sorted (entries : List (Entry t)) : Prop := entries.Pairwise fun a b => a.key ≤ b.key

def lowers (entries : List (Entry t)) (addr : MemAddr t) : List (Entry t) := entries.filter fun e => e.addr < addr

def sames (entries : List (Entry t)) (addr : MemAddr t) : List (Entry t) := entries.filter fun e => e.addr = addr

def uppers (entries : List (Entry t)) (addr : MemAddr t) : List (Entry t) := entries.filter fun e => addr < e.addr

theorem Entry.addr_le_of_key_le {a b : Entry t} (less : a.key ≤ b.key) : a.addr ≤ b.addr := by
  rcases Prod.Lex.le_iff.1 less with strict | ⟨same, -⟩
  · exact Nat.le_of_lt strict
  · exact Nat.le_of_eq same

/-- In a sorted table the lower symbols come first and the upper ones last. -/
theorem Sorted.split (sorted : Sorted entries) (addr : MemAddr t) :
    entries = lowers entries addr ++ (sames entries addr ++ uppers entries addr) := by
  have first := filter_append_filter_not (p := fun e : Entry t => decide (e.addr < addr))
    (sorted.imp fun {a b} less below => by
      have order := Entry.addr_le_of_key_le less
      simp only [decide_eq_true_eq, BitVec.lt_def, BitVec.le_def] at *
      omega)
  have second := filter_append_filter_not (p := fun e : Entry t => decide (e.addr = addr))
    ((sorted.sublist List.filter_sublist).imp_of_mem (l := entries.filter fun e => !decide (e.addr < addr))
      fun {a b} left _ less here => by
        have order := Entry.addr_le_of_key_le less
        have notBelow := (List.mem_filter.1 left).2
        simp only [decide_eq_true_eq, Bool.not_eq_true', decide_eq_false_iff_not, BitVec.lt_def, BitVec.le_def,
          ← BitVec.toNat_inj] at *
        omega)
  have middle : (entries.filter fun e => !decide (e.addr < addr)).filter (fun e => decide (e.addr = addr)) =
      sames entries addr := by
    rw [List.filter_filter]
    refine List.filter_congr fun e _ => ?_
    rw [Bool.eq_iff_iff]
    simp only [Bool.and_eq_true, decide_eq_true_eq, Bool.not_eq_true', decide_eq_false_iff_not, BitVec.lt_def,
      ← BitVec.toNat_inj]
    omega
  have last : (entries.filter fun e => !decide (e.addr < addr)).filter (fun e => !decide (e.addr = addr)) =
      uppers entries addr := by
    rw [List.filter_filter]
    refine List.filter_congr fun e _ => ?_
    rw [Bool.eq_iff_iff]
    simp only [Bool.and_eq_true, decide_eq_true_eq, Bool.not_eq_true', decide_eq_false_iff_not, BitVec.lt_def,
      ← BitVec.toNat_inj]
    omega
  rw [middle, last] at second
  rwa [second] at first

theorem mem_lowers {e : Entry t} : e ∈ lowers entries addr ↔ e ∈ entries ∧ e.addr < addr := by
  rw [lowers, List.mem_filter, decide_eq_true_iff]

theorem mem_sames {e : Entry t} : e ∈ sames entries addr ↔ e ∈ entries ∧ e.addr = addr := by
  rw [sames, List.mem_filter, decide_eq_true_iff]

theorem mem_uppers {e : Entry t} : e ∈ uppers entries addr ↔ e ∈ entries ∧ addr < e.addr := by
  rw [uppers, List.mem_filter, decide_eq_true_iff]

/-- The search ends behind the lower symbols. -/
theorem Sorted.bisect (sorted : Sorted entries) (addr : MemAddr t) :
    bisect (fun e : Entry t => decide (e.addr < addr)) entries 0 entries.length = some (lowers entries addr).length := by
  have search : Lib.bisect (fun e : Entry t => decide (e.addr < addr))
      (lowers entries addr ++ (sames entries addr ++ uppers entries addr)) 0 entries.length =
        some (lowers entries addr).length := bisect_eq (fun e member => decide_eq_true (mem_lowers.1 member).2)
    (fun e member => by
      refine decide_eq_false ?_
      rcases List.mem_append.1 member with here | above
      · rw [(mem_sames.1 here).2]
        exact Nat.lt_irrefl _
      · exact Nat.lt_asymm (mem_uppers.1 above).2)
    (Nat.zero_le _) (by rw [Nat.zero_add]; exact List.length_filter_le _ _) (by rw [← sorted.split addr, Nat.zero_add])
  rwa [← sorted.split addr] at search

/-- The loop over the symbols at the address ends at the first one above it, if there is one. -/
theorem collate_eq {here above : List (Entry t)} (same : ∀ e ∈ here, e.addr = addr) (other : ∀ e ∈ above, e.addr ≠ addr) :
    collate addr (here ++ above) = if above = [] then none else some here := by
  induction here with
  | nil =>
    cases above with
    | nil => rfl
    | cons e rest => rw [List.nil_append, collate, if_neg (other e List.mem_cons_self), if_neg (List.cons_ne_nil _ _)]
  | cons e here ih =>
    rw [List.cons_append, collate, if_pos (same e List.mem_cons_self), ih fun e member => same e (List.mem_cons_of_mem _ member)]
    split <;> rfl

theorem describe_at (sorted : Sorted entries) {found : Entry t} {more : List (Entry t)}
    (here : sames entries addr = found :: more) :
    describe entries addr = if uppers entries addr = [] then none else some (.exactly found more) := by
  have same : ∀ e ∈ found :: more, e.addr = addr := fun e member => (mem_sames.1 (here ▸ member)).2
  have other : ∀ e ∈ uppers entries addr, e.addr ≠ addr := fun e member equal =>
    Nat.ne_of_gt (mem_uppers.1 member).2 (congrArg BitVec.toNat equal)
  have split := sorted.split addr
  rw [here] at split
  have item : entries[(lowers entries addr).length]? = some found := by
    rw [congrArg (·[(lowers entries addr).length]?) split, List.getElem?_append_right le_rfl, Nat.sub_self]
    rfl
  have rest : entries.drop ((lowers entries addr).length + 1) = more ++ uppers entries addr := by
    rw [congrArg (List.drop _) split, List.drop_append, List.drop_eq_nil_of_le (Nat.le_succ _), Nat.add_sub_cancel_left]
    rfl
  have size : ¬ entries.length ≤ (lowers entries addr).length := by
    have long := congrArg List.length split
    simp only [List.length_append, List.length_cons] at long
    omega
  have nonempty : ¬ entries.isEmpty = true := by
    rw [List.isEmpty_iff_length_eq_zero]
    omega
  rw [describe, if_neg nonempty, sorted.bisect addr]
  dsimp only
  rw [if_neg size, item]
  dsimp only
  rw [if_pos (same found List.mem_cons_self), rest,
    collate_eq (fun e member => same e (List.mem_cons_of_mem _ member)) other]
  split <;> rfl

theorem describe_past (sorted : Sorted entries) {last : Entry t} (here : sames entries addr = [])
    (above : uppers entries addr = []) (below : (lowers entries addr).getLast? = some last) : describe entries addr =
      some (if addr.setWidth 64 < last.stop then .inside last (last.stop - addr.setWidth 64) else .bare addr) := by
  have split := sorted.split addr
  rw [here, above, List.nil_append, List.append_nil] at split
  rw [← split] at below
  have nonempty : ¬ entries.isEmpty = true := by
    rw [List.isEmpty_iff, ← List.getLast?_eq_none_iff, below]
    exact Option.some_ne_none last
  rw [describe, if_neg nonempty, sorted.bisect addr]
  dsimp only
  rw [if_pos (le_of_eq (congrArg List.length split)), ← List.getLast?_eq_getElem?, below]
  dsimp only
  split <;> rfl

theorem describe_between (sorted : Sorted entries) {above : Entry t} {rest : List (Entry t)}
    (here : sames entries addr = []) (next : uppers entries addr = above :: rest) : describe entries addr =
      let below := (lowers entries addr).getLast?.getD .simulated
      some (if addr.setWidth 64 < below.stop then .inside below ((addr - below.addr).setWidth 64)
        else if (above.addr - addr).setWidth 64 < addr.setWidth 64 - below.stop then
          .under above ((above.addr - addr).setWidth 64)
        else .past below (addr.setWidth 64 - below.stop)) := by
  have higher : addr < above.addr := (mem_uppers.1 (next ▸ List.mem_cons_self : above ∈ uppers entries addr)).2
  have split := sorted.split addr
  rw [here, next, List.nil_append] at split
  have item : entries[(lowers entries addr).length]? = some above := by
    rw [congrArg (·[(lowers entries addr).length]?) split, List.getElem?_append_right le_rfl, Nat.sub_self]
    rfl
  have size : ¬ entries.length ≤ (lowers entries addr).length := by
    have long := congrArg List.length split
    simp only [List.length_append, List.length_cons] at long
    omega
  have nonempty : ¬ entries.isEmpty = true := by
    rw [List.isEmpty_iff_length_eq_zero]
    omega
  have lower : (if 0 < (lowers entries addr).length then entries[(lowers entries addr).length - 1]? else some .simulated) =
      some ((lowers entries addr).getLast?.getD .simulated) := by
    rcases List.eq_nil_or_concat (lowers entries addr) with none | ⟨before, below, lows⟩
    · rw [none]
      rfl
    · rw [lows, List.concat_eq_append] at split ⊢
      rw [if_pos (by simp), congrArg (·[(before ++ [below]).length - 1]?) split, List.getElem?_append_left (by simp),
        ← List.getLast?_eq_getElem?, List.getLast?_concat]
      rfl
  rw [describe, if_neg nonempty, sorted.bisect addr]
  dsimp only
  rw [if_neg size, item]
  dsimp only
  rw [if_neg (fun equal => Nat.ne_of_gt higher (congrArg BitVec.toNat equal)), lower]
  dsimp only
  split
  · rfl
  · split <;> rfl

/-- The bytes of a symbol. -/
def Entry.Encloses (e : Entry t) (addr : MemAddr t) : Prop :=
  e.addr.toNat ≤ addr.toNat ∧ addr.toNat < e.addr.toNat + e.size.toNat

/-- The symbol next below an address: the last one in the order of the table, or address 0 where there is none. -/
def IsLower (symbols : List (Entry t)) (addr : MemAddr t) (e : Entry t) : Prop :=
  (e ∈ symbols ∧ e.addr < addr ∧ ∀ other ∈ symbols, other.addr < addr → other.key ≤ e.key) ∨
    (e = .simulated ∧ ∀ other ∈ symbols, ¬ other.addr < addr)

/-- The symbol next above an address. -/
def IsUpper (symbols : List (Entry t)) (addr : MemAddr t) (e : Entry t) : Prop :=
  e ∈ symbols ∧ addr < e.addr ∧ ∀ other ∈ symbols, addr < other.addr → e.key ≤ other.key

def NoSymbolAt (symbols : List (Entry t)) (addr : MemAddr t) : Prop := ∀ e ∈ symbols, e.addr ≠ addr

/-- What a description of an address has to say: its numbers lead from the symbols that it names to the address, and
these are the symbols at the address, or the one that encloses it, or the nearer one. Nothing can be named without a
symbol above the address that is not in the last one, and the offset in the last symbol is left open. -/
def Tells (symbols : List (Entry t)) (addr : MemAddr t) : Description t → Prop
  | .address a => symbols = [] ∧ a = addr
  | .bare a => a = addr ∧ symbols ≠ [] ∧ (∀ e ∈ symbols, e.addr < addr) ∧ ∃ e, IsLower symbols addr e ∧ ¬ e.Encloses addr
  | .exactly found more => (found :: more).Perm (symbols.filter fun e => e.addr = addr)
  | .inside e offset => NoSymbolAt symbols addr ∧ IsLower symbols addr e ∧ e.Encloses addr ∧
    ((∃ above, IsUpper symbols addr above) → e.addr.toNat + offset.toNat = addr.toNat)
  | .under e distance => NoSymbolAt symbols addr ∧ IsUpper symbols addr e ∧ e.addr.toNat = addr.toNat + distance.toNat ∧
    ∃ below, IsLower symbols addr below ∧ ¬ below.Encloses addr ∧
      below.addr.toNat + below.size.toNat + distance.toNat < addr.toNat
  | .past e distance => NoSymbolAt symbols addr ∧ IsLower symbols addr e ∧ ¬ e.Encloses addr ∧
    e.addr.toNat + e.size.toNat + distance.toNat = addr.toNat ∧
    ∃ above, IsUpper symbols addr above ∧ addr.toNat + distance.toNat ≤ above.addr.toNat

theorem addr_lt (addr : MemAddr t) : addr.toNat < 2 ^ 64 := by
  have wide : 8 * t.sizeofInteger ≤ 64 := by cases t <;> decide
  exact addr.isLt.trans_le (Nat.pow_le_pow_right (by omega) wide)

theorem toNat_wide (addr : MemAddr t) : (addr.setWidth 64).toNat = addr.toNat := by
  rw [BitVec.toNat_setWidth, Nat.mod_eq_of_lt (addr_lt addr)]

/-- A table always is what has been added, in order, and remembers only what it would find out again. -/
structure Kept (symbols : List (Entry t)) (s : SymbolTable t) : Prop where
  perm : s.entries.Perm symbols
  sorted : Sorted s.entries
  cached : ∀ addr text, s.cache addr = some text → resolve s.entries addr = some text

theorem Kept.empty : Kept [] (.empty : SymbolTable t) := ⟨.refl _, .nil, fun _ _ found => (Option.some_ne_none _ found.symm).elim⟩

theorem Kept.addSymbol {symbols : List (Entry t)} {s : SymbolTable t} (kept : Kept symbols s) (addr : MemAddr t)
    (name : String) (size : BitVec 64) : Kept (symbols ++ [⟨addr, size, name⟩]) (s.addSymbol addr name size) := by
  refine ⟨(List.mergeSort_perm _ _).trans (kept.perm.append_right _), ?_, fun _ _ found => (Option.some_ne_none _ found.symm).elim⟩
  have sorted := @List.pairwise_mergeSort _ (fun a b : Entry t => decide (a.key ≤ b.key))
    (fun a b c left right => decide_eq_true (le_trans (of_decide_eq_true left) (of_decide_eq_true right)))
    (fun a b => by
      rw [Bool.or_eq_true, decide_eq_true_iff, decide_eq_true_iff]
      exact le_total _ _) (s.entries ++ [⟨addr, size, name⟩])
  exact sorted.imp fun less => of_decide_eq_true less

theorem Kept.index {symbols : List (Entry t)} {s s' : SymbolTable t} {addr : MemAddr t} {text : String}
    (kept : Kept symbols s) (looked : s.index addr = some (text, s')) : Kept symbols s' := by
  unfold SymbolTable.index at looked
  split at looked
  · cases looked
    exact kept
  · obtain ⟨found, resolved, same⟩ := Option.map_eq_some_iff.1 looked
    cases same
    refine ⟨kept.perm, kept.sorted, fun other text cached => ?_⟩
    change Function.update s.cache addr _ other = some text at cached
    by_cases here : other = addr
    · subst here
      rw [Function.update_self] at cached
      exact resolved.trans cached
    · rw [Function.update_of_ne here] at cached
      exact kept.cached other text cached

theorem Kept.run {symbols : List (Entry t)} {s s' : SymbolTable t} {uses : List (Use t)} (kept : Kept symbols s)
    (run : s.run uses = some s') : Kept (symbols ++ added uses) s' := by
  induction uses generalizing symbols s with
  | nil =>
    cases run
    rwa [added, List.filterMap_nil, List.append_nil]
  | cons use rest ih =>
    obtain ⟨next, step, run⟩ := Option.bind_eq_some_iff.1 run
    cases use with
    | add addr name size =>
      cases step
      have after := ih (kept.addSymbol addr name size) run
      rwa [List.append_assoc] at after
    | look addr =>
      obtain ⟨⟨text, last⟩, looked, same⟩ := Option.map_eq_some_iff.1 step
      cases same
      exact ih (kept.index looked) run

/-- What is remembered does not matter. -/
theorem Kept.lookUp {symbols : List (Entry t)} {s : SymbolTable t} (kept : Kept symbols s) (addr : MemAddr t) :
    s.lookUp addr = resolve s.entries addr ∧ (s.index addr).map Prod.fst = resolve s.entries addr := by
  unfold SymbolTable.lookUp SymbolTable.index
  cases found : s.cache addr with
  | some text => exact ⟨(kept.cached addr text found).symm, (kept.cached addr text found).symm⟩
  | none =>
    refine ⟨rfl, ?_⟩
    rw [Option.map_map]
    exact Option.map_id'

theorem Kept.isLower {symbols : List (Entry t)} {s : SymbolTable t} (kept : Kept symbols s) (addr : MemAddr t) :
    IsLower symbols addr ((lowers s.entries addr).getLast?.getD .simulated) := by
  have member : ∀ e, e ∈ lowers s.entries addr ↔ e ∈ symbols ∧ e.addr < addr := fun e => by
    rw [mem_lowers, kept.perm.mem_iff]
  rcases List.eq_nil_or_concat (lowers s.entries addr) with none | ⟨before, below, lows⟩
  · refine Or.inr ⟨by rw [none]; rfl, fun e symbol less => ?_⟩
    have low := (member e).2 ⟨symbol, less⟩
    rw [none] at low
    exact List.not_mem_nil low
  · rw [List.concat_eq_append] at lows
    have order : Sorted (lowers s.entries addr) := kept.sorted.sublist List.filter_sublist
    rw [lows] at order member ⊢
    rw [List.getLast?_concat]
    refine Or.inl ⟨((member below).1 (by simp)).1, ((member below).1 (by simp)).2, fun e symbol less => ?_⟩
    rcases List.mem_append.1 ((member e).2 ⟨symbol, less⟩) with earlier | same
    · exact (List.pairwise_append.1 order).2.2 e earlier below List.mem_cons_self
    · rw [List.mem_singleton.1 same]
      exact le_rfl

theorem Kept.isUpper {symbols : List (Entry t)} {s : SymbolTable t} (kept : Kept symbols s) {addr : MemAddr t}
    {above : Entry t} {rest : List (Entry t)} (next : uppers s.entries addr = above :: rest) :
    IsUpper symbols addr above := by
  have member : ∀ e, e ∈ uppers s.entries addr ↔ e ∈ symbols ∧ addr < e.addr := fun e => by
    rw [mem_uppers, kept.perm.mem_iff]
  have order : Sorted (uppers s.entries addr) := kept.sorted.sublist List.filter_sublist
  rw [next] at order member
  refine ⟨((member above).1 List.mem_cons_self).1, ((member above).1 List.mem_cons_self).2, fun e symbol higher => ?_⟩
  rcases List.mem_cons.1 ((member e).2 ⟨symbol, higher⟩) with same | later
  · rw [same]
  · exact (List.pairwise_cons.1 order).1 e later

/-- A lower neighbour ends where its numbers say. -/
theorem encloses_iff {symbols : List (Entry t)} {below : Entry t} {addr : MemAddr t} (lower : IsLower symbols addr below)
    (fits : below.addr.toNat + below.size.toNat < 2 ^ 64) :
    below.stop.toNat = below.addr.toNat + below.size.toNat ∧ below.addr.toNat ≤ addr.toNat ∧
      (addr.setWidth 64 < below.stop ↔ below.Encloses addr) := by
  have stop : below.stop.toNat = below.addr.toNat + below.size.toNat := by
    rw [Entry.stop, BitVec.toNat_add, toNat_wide, Nat.mod_eq_of_lt fits]
  have low : below.addr.toNat ≤ addr.toNat := by
    rcases lower with ⟨-, less, -⟩ | ⟨rfl, -⟩
    · exact Nat.le_of_lt less
    · simp [Entry.simulated]
  refine ⟨stop, low, ?_⟩
  rw [BitVec.lt_def, toNat_wide, stop, Entry.Encloses]
  omega

section Texts
variable {symbols : List (Entry t)} {s : SymbolTable t}

theorem Kept.tells_at (kept : Kept symbols s) {found : Entry t} {more : List (Entry t)}
    (here : sames s.entries addr = found :: more) : Tells symbols addr (.exactly found more) := by
  rw [Tells, ← here]
  exact kept.perm.filter _

theorem Kept.noSymbolAt (kept : Kept symbols s) (here : sames s.entries addr = []) : NoSymbolAt symbols addr := by
  intro e symbol same
  have member := mem_sames.2 ⟨kept.perm.mem_iff.2 symbol, same⟩
  rw [here] at member
  exact List.not_mem_nil member

theorem Kept.tells_past (kept : Kept symbols s) {last : Entry t} (here : sames s.entries addr = [])
    (above : uppers s.entries addr = []) (below : (lowers s.entries addr).getLast? = some last)
    (fits : last.addr.toNat + last.size.toNat < 2 ^ 64) : Tells symbols addr
      (if addr.setWidth 64 < last.stop then .inside last (last.stop - addr.setWidth 64) else .bare addr) := by
  have lower := kept.isLower addr
  rw [below, Option.getD_some] at lower
  obtain ⟨-, -, encloses⟩ := encloses_iff lower fits
  have noneAbove : ∀ e ∈ symbols, ¬ addr < e.addr := by
    intro e symbol higher
    have member := mem_uppers.2 ⟨kept.perm.mem_iff.2 symbol, higher⟩
    rw [above] at member
    exact List.not_mem_nil member
  split
  · next within =>
    refine ⟨kept.noSymbolAt here, lower, encloses.1 within, fun ⟨e, upper⟩ => ?_⟩
    exact (noneAbove e upper.1 upper.2.1).elim
  · next outside =>
    have member := mem_lowers.1 (List.mem_of_getLast? below)
    refine ⟨rfl, List.ne_nil_of_mem (kept.perm.mem_iff.1 member.1), fun e symbol => ?_, last, lower, mt encloses.2 outside⟩
    have distinct := kept.noSymbolAt here e symbol
    have low := noneAbove e symbol
    rw [BitVec.lt_def] at low ⊢
    rw [ne_eq, ← BitVec.toNat_inj] at distinct
    omega

theorem Kept.tells_between (kept : Kept symbols s) {above : Entry t} {rest : List (Entry t)} {below : Entry t}
    (here : sames s.entries addr = []) (next : uppers s.entries addr = above :: rest) (lower : IsLower symbols addr below)
    (fits : below.addr.toNat + below.size.toNat < 2 ^ 64) : Tells symbols addr
      (if addr.setWidth 64 < below.stop then .inside below ((addr - below.addr).setWidth 64)
        else if (above.addr - addr).setWidth 64 < addr.setWidth 64 - below.stop then
          .under above ((above.addr - addr).setWidth 64)
        else .past below (addr.setWidth 64 - below.stop)) := by
  have upper := kept.isUpper next
  obtain ⟨stop, low, encloses⟩ := encloses_iff lower fits
  have higher := upper.2.1
  rw [BitVec.lt_def] at higher
  have bound := addr_lt addr
  have offset : ((addr - below.addr).setWidth 64).toNat = addr.toNat - below.addr.toNat := by
    rw [toNat_wide, BitVec.toNat_sub_of_le low]
  have up : ((above.addr - addr).setWidth 64).toNat = above.addr.toNat - addr.toNat := by
    rw [toNat_wide, BitVec.toNat_sub_of_le (Nat.le_of_lt higher)]
  split
  · next within =>
    refine ⟨kept.noSymbolAt here, lower, encloses.1 within, fun _ => ?_⟩
    rw [offset]
    omega
  · next outside =>
    have notWithin := mt encloses.2 outside
    rw [BitVec.lt_def, toNat_wide, stop, Nat.not_lt] at outside
    have down : (addr.setWidth 64 - below.stop).toNat = addr.toNat - (below.addr.toNat + below.size.toNat) := by
      rw [BitVec.toNat_sub_of_le (by rw [BitVec.le_def, toNat_wide, stop]; exact outside), toNat_wide, stop]
    split
    · next nearer =>
      rw [BitVec.lt_def, up, down] at nearer
      refine ⟨kept.noSymbolAt here, upper, ?_, below, lower, notWithin, ?_⟩
      · rw [up]
        omega
      · rw [up]
        omega
    · next nearer =>
      rw [BitVec.lt_def, up, down] at nearer
      refine ⟨kept.noSymbolAt here, lower, notWithin, ?_, above, upper, ?_⟩
      · rw [down]
        omega
      · rw [down]
        omega

end Texts

/-- Where the text of an address can be relied on: the loop over the symbols at the address meets another one, and the
symbol below it ends within the address space of the host. -/
structure Covered (symbols : List (Entry t)) (addr : MemAddr t) : Prop where
  higher : (∃ e ∈ symbols, e.addr = addr) → ∃ e ∈ symbols, addr < e.addr
  fits : ∀ e, IsLower symbols addr e → e.addr.toNat + e.size.toNat < 2 ^ 64

theorem Kept.describe {symbols : List (Entry t)} {s : SymbolTable t} (kept : Kept symbols s) (covered : Covered symbols addr) :
    ∃ description, describe s.entries addr = some description ∧ Tells symbols addr description := by
  cases here : sames s.entries addr with
  | cons found more =>
    have member := mem_sames.1 (here ▸ List.mem_cons_self : found ∈ sames s.entries addr)
    obtain ⟨e, symbol, higher⟩ := covered.higher ⟨found, kept.perm.mem_iff.1 member.1, member.2⟩
    have above : uppers s.entries addr ≠ [] := List.ne_nil_of_mem (mem_uppers.2 ⟨kept.perm.mem_iff.2 symbol, higher⟩)
    refine ⟨_, (describe_at kept.sorted here).trans (if_neg above), kept.tells_at here⟩
  | nil =>
    cases next : uppers s.entries addr with
    | cons above rest =>
      have lower := kept.isLower addr
      exact ⟨_, describe_between kept.sorted here next, kept.tells_between here next lower (covered.fits _ lower)⟩
    | nil =>
      cases below : (lowers s.entries addr).getLast? with
      | some last =>
        have lower := kept.isLower addr
        rw [below, Option.getD_some] at lower
        exact ⟨_, describe_past kept.sorted here next below, kept.tells_past here next below (covered.fits _ lower)⟩
      | none =>
        have split := kept.sorted.split addr
        rw [here, next, List.getLast?_eq_none_iff.1 below] at split
        have none := kept.perm
        rw [split] at none
        refine ⟨.address addr, ?_, List.nil_perm.1 none, rfl⟩
        rw [Arch.describe, split]
        rfl

/-- Whatever has been added and looked up, the text of an address is the one that its description gives, the description
is right, and what is remembered agrees with it. -/
theorem symbols_resolve (t : Target) (uses : List (Use t)) (s : SymbolTable t) (run : SymbolTable.empty.run uses = some s)
    (addr : MemAddr t) :
    (Covered (added uses) addr → ∃ description, resolve s.entries addr = some ("<" ++ description.text ++ ">") ∧
      Tells (added uses) addr description) ∧
    s.lookUp addr = resolve s.entries addr ∧ (s.index addr).map Prod.fst = resolve s.entries addr := by
  have kept := Kept.empty.run run
  refine ⟨fun covered => ?_, kept.lookUp addr⟩
  obtain ⟨description, found, tells⟩ := kept.describe covered
  exact ⟨description, by rw [resolve, found]; rfl, tells⟩

/-- A table with one symbol. -/
theorem run_one (t : Target) (addr : MemAddr t) (name : String) (size : BitVec 64) :
    SymbolTable.empty.run [.add addr name size] = some ⟨[⟨addr, size, name⟩], fun _ => none⟩ := by
  simp [SymbolTable.run, SymbolTable.step, SymbolTable.addSymbol, SymbolTable.empty]

theorem symbols_resolve_under : ∃ description : Description .mips32,
    resolve [(⟨0x10, 0, "main"⟩ : Entry .mips32)] 0xC = some ("<" ++ description.text ++ ">") ∧
      Tells [⟨0x10, 0, "main"⟩] 0xC description := by
  refine (symbols_resolve .mips32 [.add 0x10 "main" 0] _ (run_one _ _ _ _) 0xC).1 ⟨?_, ?_⟩
  · rintro ⟨e, member, same⟩
    rw [List.mem_singleton.1 member] at same
    exact absurd same (by decide)
  · rintro e (⟨member, less, -⟩ | ⟨rfl, -⟩)
    · rw [List.mem_singleton.1 member] at less
      exact absurd less (by decide)
    · decide

/-- A description that names a symbol. -/
def Description.Names : Description t → Prop
  | .address _ | .bare _ => False
  | .exactly .. | .inside .. | .under .. | .past .. => True

/-- Behind the last symbol none is named. -/
theorem past_unnamed : ¬ ∀ (t : Target) (uses : List (Use t)) (s : SymbolTable t), SymbolTable.empty.run uses = some s →
    ∀ addr, ∃ description, describe s.entries addr = some description ∧ description.Names ∧
      Tells (added uses) addr description := by
  intro all
  obtain ⟨description, found, names, -⟩ := all .mips32 _ _ (run_one .mips32 0x10 "main" 0) 0x20
  have behind : describe [(⟨0x10, 0, "main"⟩ : Entry .mips32)] 0x20 = _ :=
    describe_past (List.pairwise_singleton _ _) rfl rfl rfl
  rw [if_neg (by decide)] at behind
  rw [behind, Option.some.injEq] at found
  rwa [← found] at names

end Mgsim.Arch
