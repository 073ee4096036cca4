import Mgsim.Drisc.WholeLines

namespace Mgsim.Drisc
open Mgsim.Lib Mgsim.Mmu

/-- The registers are accounted for: each is written back or in its place, and its
place is in the chain of its line, or of a queued write-back. -/
structure Chains (l : Ledger) (heads : Nat → Option RegAddr) (requests : List WritebackRequest) : Prop where
  once : ∀ reg, l.pushed.count reg =
    (l.written.map Writeback.reg).count reg + if l.place reg = .idle then 0 else 1
  hung : ∀ cid, ∃ regs, Chain l.next (heads cid) regs ∧ regs.Nodup ∧ ∀ reg, reg ∈ regs ↔ l.place reg = .line cid
  queued : ∃ chains, List.Forall₂ (fun request regs => Chain l.next (some request.waiting) regs ∧
      ∀ reg ∈ regs, request.data = l.value reg) requests chains ∧
    chains.flatten.Nodup ∧ ∀ reg, reg ∈ chains.flatten ↔ l.place reg = .queued

namespace Chains
variable {l : Ledger} {heads heads' : Nat → Option RegAddr} {requests : List WritebackRequest} {cid : Nat}

/-- A line with no chain has no register. -/
theorem not_at (chains : Chains l heads requests) (free : heads cid = none) (reg : RegAddr) :
    l.place reg ≠ .line cid := by
  intro place
  obtain ⟨regs, chain, _, members⟩ := chains.hung cid
  rw [free] at chain
  cases chain
  exact List.not_mem_nil ((members reg).mpr place)

/-- A register in a chain hangs on a line with a first register. -/
theorem isSome_of_at (chains : Chains l heads requests) {reg : RegAddr} (place : l.place reg = .line cid) :
    (heads cid).isSome := by
  by_contra absent
  exact chains.not_at (by simpa using absent) reg place

theorem mem_pushed (chains : Chains l heads requests) {reg : RegAddr} (busy : l.place reg ≠ .idle) : reg ∈ l.pushed := by
  have count := chains.once reg
  rw [if_neg busy] at count
  exact List.count_pos_iff.mp (by omega)

/-- A register that does not wait is put in front of the chain of a line. -/
theorem push (chains : Chains l heads requests) {reg : RegAddr} {wanted : Option Addr} (idle : l.place reg = .idle)
    (others : ∀ other ≠ cid, heads' other = heads other) (own : heads' cid = some reg) :
    Chains (l.push cid (some reg) (heads cid) wanted) heads' requests where
  once := by
    intro other
    have count := chains.once other
    by_cases same : other = reg
    · subst same
      rw [if_pos idle] at count
      simp [Ledger.push, count]
    · have unequal : ¬ reg = other := fun equal => same equal.symm
      simp [Ledger.push, Function.update_of_ne same, unequal, count]
  hung := by
    intro line
    obtain ⟨regs, chain, nodup, members⟩ := chains.hung line
    have fresh : reg ∉ regs := by
      intro member
      rw [members, idle] at member
      cases member
    by_cases same : line = cid
    · subst same
      rw [own]
      refine ⟨reg :: regs, chain.push fresh, List.nodup_cons.mpr ⟨fresh, nodup⟩, fun other => ?_⟩
      by_cases atReg : other = reg
      · subst atReg
        simp [Ledger.push]
      · simp [Ledger.push, atReg, members]
    · rw [others line same]
      refine ⟨regs, chain.update fresh, nodup, fun other => ?_⟩
      by_cases atReg : other = reg
      · subst atReg
        simp [Ledger.push, fresh, Ne.symm same]
      · simp [Ledger.push, Function.update_of_ne atReg, members]
  queued := by
    obtain ⟨lists, matched, nodup, members⟩ := chains.queued
    have fresh : reg ∉ lists.flatten := by
      intro member
      rw [members, idle] at member
      cases member
    refine ⟨lists, ?_, nodup, fun other => ?_⟩
    · refine List.forall₂_iff_zip.mpr ⟨matched.length_eq, fun {request regs} paired => ?_⟩
      obtain ⟨chain, data⟩ := (List.forall₂_iff_zip.mp matched).2 paired
      have inLists := (List.of_mem_zip paired).2
      exact ⟨chain.update fun member => fresh (List.mem_flatten_of_mem inLists member), data⟩
    · by_cases atReg : other = reg
      · subst atReg
        simp [Ledger.push, fresh]
      · simp [Ledger.push, Function.update_of_ne atReg, members]

/-- A load without register changes no chain. -/
theorem pushNone (chains : Chains l heads requests) {returned : Option RegAddr} {wanted : Option Addr}
    (same : heads' = heads) : Chains (l.push cid none returned wanted) heads' requests :=
  same ▸ ⟨chains.once, chains.hung, chains.queued⟩

/-- `PushRegister` on a line, which returns the first register of its chain. -/
theorem pushHook (chains : Chains l heads requests) {reg returned : Option RegAddr} {wanted : Option Addr} {hook : Hook}
    (free : l.Free reg) (old : hook.waiting = heads cid) (link : returned = reg.bind fun _ => heads cid)
    (others : ∀ other ≠ cid, heads' other = heads other) (own : heads' cid = (hook.push reg).waiting) :
    Chains (l.push cid reg returned wanted) heads' requests := by
  cases reg with
  | none =>
    refine chains.pushNone (funext fun line => ?_)
    by_cases same : line = cid
    · subst same
      exact own.trans old
    · exact others line same
  | some reg =>
    subst link
    exact chains.push free others own

theorem settle (chains : Chains l heads requests) (number : Addr) : Chains (l.settle cid number) heads requests :=
  ⟨chains.once, chains.hung, chains.queued⟩

/-- The chain of a line goes over to a line that has none. -/
theorem move (chains : Chains l heads requests) {other : Nat} (different : cid ≠ other) (free : heads other = none)
    (others : ∀ line, line ≠ cid → line ≠ other → heads' line = heads line) (given : heads' other = heads cid)
    (left : heads' cid = none) : Chains (l.move cid other) heads' requests where
  once := by
    intro reg
    have count := chains.once reg
    have idle : (if l.place reg = .line cid then .line other else l.place reg) = Place.idle ↔ l.place reg = .idle := by
      split <;> simp_all
    simp only [Ledger.move, idle]
    exact count
  hung := by
    intro line
    by_cases atCid : line = cid
    · subst atCid
      refine ⟨[], left ▸ .nil, List.nodup_nil, fun reg => ?_⟩
      simp only [Ledger.move, List.not_mem_nil, false_iff]
      split
      · exact fun same => different (Place.line.inj same).symm
      · assumption
    · by_cases atOther : line = other
      · subst atOther
        obtain ⟨regs, chain, nodup, members⟩ := chains.hung cid
        refine ⟨regs, given ▸ chain, nodup, fun reg => ?_⟩
        rw [members]
        simp only [Ledger.move]
        split
        · simp_all
        · rename_i elsewhere
          exact iff_of_false elsewhere (chains.not_at free reg)
      · obtain ⟨regs, chain, nodup, members⟩ := chains.hung line
        refine ⟨regs, others line atCid atOther ▸ chain, nodup, fun reg => ?_⟩
        rw [members]
        simp only [Ledger.move]
        split
        · rename_i atLine
          rw [atLine]
          exact iff_of_false (fun same => atCid (Place.line.inj same).symm) fun same => atOther (Place.line.inj same).symm
        · exact Iff.rfl
  queued := by
    obtain ⟨lists, matched, nodup, members⟩ := chains.queued
    refine ⟨lists, matched, nodup, fun reg => ?_⟩
    rw [members]
    simp only [Ledger.move]
    split <;> simp_all

/-- The chain of a line is queued for its write-back. -/
theorem queue (chains : Chains l heads requests) {create : Bool} (others : ∀ line ≠ cid, heads' line = heads line)
    (left : heads' cid = none) : Chains (l.queue cid create) heads'
      (requests ++ (heads cid).toList.map fun reg => ⟨(l.cache.lines cid).data, reg⟩) where
  once := by
    intro reg
    have count := chains.once reg
    have idle : (if l.place reg = .line cid then .queued else l.place reg) = Place.idle ↔ l.place reg = .idle := by
      split <;> simp_all
    simp only [Ledger.queue, idle]
    exact count
  hung := by
    intro line
    by_cases same : line = cid
    · subst same
      refine ⟨[], left ▸ .nil, List.nodup_nil, fun reg => ?_⟩
      simp only [Ledger.queue, List.not_mem_nil, false_iff]
      split
      · simp
      · assumption
    · obtain ⟨regs, chain, nodup, members⟩ := chains.hung line
      refine ⟨regs, others line same ▸ chain, nodup, fun reg => ?_⟩
      rw [members]
      simp only [Ledger.queue]
      split
      · rename_i atLine
        rw [atLine]
        exact iff_of_false (fun equal => same (Place.line.inj equal).symm) (by simp)
      · exact Iff.rfl
  queued := by
    obtain ⟨lists, matched, nodup, members⟩ := chains.queued
    obtain ⟨regs, chain, own, atLine⟩ := chains.hung cid
    have before : List.Forall₂ (fun request regs => Chain (l.queue cid create).next (some request.waiting) regs ∧
        ∀ reg ∈ regs, request.data = (l.queue cid create).value reg) requests lists := by
      refine List.forall₂_iff_zip.mpr ⟨matched.length_eq, fun {request regs} paired => ?_⟩
      obtain ⟨linked, data⟩ := (List.forall₂_iff_zip.mp matched).2 paired
      refine ⟨linked, fun reg member => ?_⟩
      have place := (members reg).mp (List.mem_flatten_of_mem (List.of_mem_zip paired).2 member)
      simp only [Ledger.queue, place, reduceCtorEq, if_false]
      exact data reg member
    cases head : heads cid with
    | none =>
      rw [head] at chain
      refine ⟨lists, by simpa using before, nodup, fun reg => ?_⟩
      rw [members]
      simp only [Ledger.queue, if_neg (chains.not_at head reg)]
    | some first =>
      rw [head] at chain
      refine ⟨lists ++ [regs], List.rel_append before (.cons ⟨chain, fun reg member => ?_⟩ .nil), ?_, fun reg => ?_⟩
      · have place := (atLine reg).mp member
        simp only [Ledger.queue, if_pos place]
      · rw [List.flatten_append, List.flatten_singleton]
        refine List.nodup_append.mpr ⟨nodup, own, fun first queued second hanging same => ?_⟩
        rw [members] at queued
        rw [atLine, ← same, queued] at hanging
        cases hanging
      · rw [List.flatten_append, List.flatten_singleton, List.mem_append, members, atLine]
        simp only [Ledger.queue]
        split <;> simp_all

/-- The front of the write-backs is followed to its end. -/
theorem follow_front {request : WritebackRequest} (chains : Chains l heads (request :: requests)) :
    ∃ regs lists, follow l.next l.pushed.length (some request.waiting) = regs ∧ List.Forall₂ (fun request regs =>
        Chain l.next (some request.waiting) regs ∧ ∀ reg ∈ regs, request.data = l.value reg) requests lists ∧
      (∀ reg ∈ regs, request.data = l.value reg) ∧ (regs ++ lists.flatten).Nodup ∧
      ∀ reg, reg ∈ regs ∨ reg ∈ lists.flatten ↔ l.place reg = .queued := by
  obtain ⟨lists, matched, nodup, members⟩ := chains.queued
  cases matched with
  | @cons _ regs _ lists front rest =>
    rw [List.flatten_cons] at nodup members
    refine ⟨regs, lists, front.1.follow_eq ?_, rest, front.2, nodup, fun reg => ?_⟩
    · have inside : regs ⊆ l.pushed := by
        intro reg member
        refine chains.mem_pushed ?_
        rw [(members reg).mp (List.mem_append_left _ member)]
        simp
      exact (List.subperm_of_subset (List.nodup_append.mp nodup).1 inside).length_le
    · rw [← members, List.mem_append]

/-- The registers of the front request are written. -/
theorem deliver {request : WritebackRequest} (chains : Chains l heads (request :: requests)) :
    Chains (l.deliver (follow l.next l.pushed.length (some request.waiting))) heads requests := by
  obtain ⟨regs, lists, followed, rest, _, nodup, members⟩ := chains.follow_front
  rw [followed]
  obtain ⟨own, _, apart⟩ := List.nodup_append.mp nodup
  refine ⟨fun reg => ?_, fun line => ?_, lists, rest, (List.nodup_append.mp nodup).2.1, fun reg => ?_⟩
  · have count := chains.once reg
    have names : (regs.map fun reg => (⟨reg, l.wanted reg, l.bound reg⟩ : Writeback)).map Writeback.reg = regs := by
      rw [List.map_map]
      exact List.map_id _
    simp only [Ledger.deliver, List.map_append, List.count_append, names]
    by_cases member : reg ∈ regs
    · have queued := (members reg).mp (Or.inl member)
      simp only [queued, reduceCtorEq, if_false] at count
      simp only [member, if_true, List.count_eq_one_of_mem own member, count]
      omega
    · simp only [member, if_false, List.count_eq_zero_of_not_mem member, Nat.zero_add]
      exact count
  · obtain ⟨hanging, chain, single, atLine⟩ := chains.hung line
    refine ⟨hanging, chain, single, fun reg => ?_⟩
    rw [atLine]
    simp only [Ledger.deliver]
    split
    · rename_i member
      rw [(members reg).mp (Or.inl member)]
      simp
    · exact Iff.rfl
  · simp only [Ledger.deliver]
    split
    · rename_i member
      refine iff_of_false (fun later => ?_) (by simp)
      exact apart reg member reg later rfl
    · rename_i outside
      rw [← members]
      exact ⟨Or.inr, fun place => place.resolve_left outside⟩

end Chains

end Mgsim.Drisc
