import Mgsim.Drisc.LineBytes

namespace Mgsim.Drisc
open Mgsim.Lib Mgsim.Mmu

/-- The address of a byte in the line of an address. -/
def lineByte (lineSize : Nat) (addr : Addr) (i : Nat) : Addr :=
  addr / BitVec.ofNat 64 lineSize * BitVec.ofNat 64 lineSize + BitVec.ofNat 64 i

/-- The address of a line. -/
def IsLine (lineSize : Nat) (addr : Addr) : Prop := lineByte lineSize addr 0 = addr

section Address
variable {lineSize : Nat} {addr addr' : Addr} {i i' : Nat}

theorem toNat_lineByte (power : ∃ k, lineSize = 2 ^ k) (bound : lineSize < 2 ^ 64) (inside : i < lineSize) :
    (lineByte lineSize addr i).toNat = addr.toNat / lineSize * lineSize + i := by
  obtain ⟨k, rfl⟩ := power
  have small : k < 64 := (Nat.pow_lt_pow_iff_right (by decide)).mp bound
  have split : (2 : Nat) ^ 64 = 2 ^ (64 - k) * 2 ^ k := by
    rw [← Nat.pow_add]
    congr 1
    omega
  have number : addr.toNat / 2 ^ k < 2 ^ (64 - k) := by
    rw [Nat.div_lt_iff_lt_mul (Nat.two_pow_pos k), ← split]
    exact addr.isLt
  have whole : addr.toNat / 2 ^ k * 2 ^ k + i < 2 ^ 64 := by
    rw [split]
    calc addr.toNat / 2 ^ k * 2 ^ k + i < addr.toNat / 2 ^ k * 2 ^ k + 2 ^ k := by omega
      _ = (addr.toNat / 2 ^ k + 1) * 2 ^ k := (Nat.succ_mul _ _).symm
      _ ≤ 2 ^ (64 - k) * 2 ^ k := Nat.mul_le_mul_right _ number
  simp only [lineByte, BitVec.toNat_add, BitVec.toNat_mul, BitVec.toNat_udiv, BitVec.toNat_ofNat,
    Nat.mod_eq_of_lt bound, Nat.mod_eq_of_lt (inside.trans bound)]
  rw [Nat.mod_eq_of_lt (a := addr.toNat / 2 ^ k * 2 ^ k) (by omega), Nat.mod_eq_of_lt whole]

/-- A byte belongs to one line. -/
theorem lineByte_inj (power : ∃ k, lineSize = 2 ^ k) (bound : lineSize < 2 ^ 64) (inside : i < lineSize)
    (inside' : i' < lineSize) (same : lineByte lineSize addr i = lineByte lineSize addr' i') :
    addr / BitVec.ofNat 64 lineSize = addr' / BitVec.ofNat 64 lineSize ∧ i = i' := by
  have values := congrArg BitVec.toNat same
  rw [toNat_lineByte power bound inside, toNat_lineByte power bound inside'] at values
  have positive : 0 < lineSize := by omega
  have numbers : addr.toNat / lineSize = addr'.toNat / lineSize := by
    have quotients := congrArg (· / lineSize) values
    simp only [Nat.mul_comm _ lineSize, Nat.mul_add_div positive, Nat.div_eq_of_lt inside, Nat.div_eq_of_lt inside',
      Nat.add_zero] at quotients
    exact quotients
  refine ⟨BitVec.eq_of_toNat_eq ?_, by rw [numbers] at values; omega⟩
  simp only [BitVec.toNat_udiv, BitVec.toNat_ofNat, Nat.mod_eq_of_lt bound, numbers]

theorem isLine_lineByte (power : ∃ k, lineSize = 2 ^ k) (bound : lineSize < 2 ^ 64) (addr : Addr) :
    IsLine lineSize (lineByte lineSize addr 0) := by
  have positive : 0 < lineSize := by
    obtain ⟨k, rfl⟩ := power
    exact Nat.two_pow_pos k
  apply BitVec.eq_of_toNat_eq
  rw [toNat_lineByte power bound positive, toNat_lineByte power bound positive, Nat.add_zero, Nat.add_zero,
    Nat.mul_div_cancel _ positive]

theorem IsLine.eq_of_number (line : IsLine lineSize addr) (line' : IsLine lineSize addr')
    (same : addr / BitVec.ofNat 64 lineSize = addr' / BitVec.ofNat 64 lineSize) : addr = addr' := by
  unfold IsLine lineByte at line line'
  rw [← line, ← line', same]

theorem IsLine.add (line : IsLine lineSize addr) (i : Nat) : addr + BitVec.ofNat 64 i = lineByte lineSize addr i := by
  have base : addr / BitVec.ofNat 64 lineSize * BitVec.ofNat 64 lineSize = addr := by
    simpa [IsLine, lineByte] using line
  rw [lineByte, base]

/-- What a store writes at a byte of its line. -/
theorem Request.patch_lineByte {request : Request} (line : IsLine lineSize request.address) (bound : lineSize < 2 ^ 64)
    (inside : i < lineSize) : request.patch lineSize (lineByte lineSize request.address i) = request.byte? i := by
  have offset : (lineByte lineSize request.address i - request.address).toNat = i := by
    rw [← line.add, BitVec.add_comm, BitVec.add_sub_cancel, BitVec.toNat_ofNat, Nat.mod_eq_of_lt (inside.trans bound)]
  rw [Request.patch, offset, if_pos inside]

/-- A store writes bytes of its own line only. -/
theorem Request.patch_eq_some {request : Request} (line : IsLine lineSize request.address) {a : Addr} {b : Byte}
    (value : request.patch lineSize a = some b) :
    ∃ i < lineSize, a = lineByte lineSize request.address i ∧ request.byte? i = some b := by
  unfold Request.patch at value
  split at value
  · rename_i inside
    refine ⟨_, inside, ?_, value⟩
    rw [← line.add, BitVec.ofNat_toNat, BitVec.setWidth_eq, BitVec.add_comm, BitVec.sub_add_cancel]
  · cases value

theorem Request.patch_of_read {request : Request} (read : request.write = false) (a : Addr) :
    request.patch lineSize a = none := by
  simp [Request.patch, Request.byte?, read]

end Address

/-- What holds of a cache in every run: its sets are in order, its full lines are
whole, and the size of its lines is a power of two. -/
structure Cached (sets : Nat) (t : Tracked) : Prop extends Sets sets t where
  whole : t.cache.WholeLines
  power : ∃ k, t.cache.lineSize = 2 ^ k

namespace Tracked

/-- The address of a byte in the cache. -/
def byteOf (t : Tracked) (addr : Addr) (i : Nat) : Addr := lineByte t.cache.lineSize addr i

/-- Every byte that one of these lines holds is the byte of an address, and meets a condition. A line that
waits for its translation holds none. -/
def Holds (t : Tracked) (among : Nat → Prop) (P : Addr → Byte → Prop) : Prop :=
  ∀ cid i b, among cid → i < t.cache.lineSize → (t.line cid).byte? i = some b →
    ∃ addr, t.cache.lineNumber addr ∈ t.content cid ∧ P (t.byteOf addr i) b

/-- A line that awaits the bytes of an address does not have one of them. -/
def Lacks (t : Tracked) (addr : Addr) (i : Nat) : Prop :=
  ∃ cid, t.Awaits cid ∧ t.cache.lineNumber addr ∈ t.content cid ∧ (t.line cid).byte? i = none

/-- The reads under way are for different lines, and a line awaits each of them. -/
structure Asks (t : Tracked) (reads : List Addr) : Prop where
  apart : (reads.map t.cache.lineNumber).Nodup
  awaited : ∀ addr ∈ reads, ∃ cid, t.Awaits cid ∧ t.cache.lineNumber addr ∈ t.content cid

end Tracked

theorem CacheLine.used_of_byte {line : CacheLine} {i : Nat} {b : Byte} (value : line.byte? i = some b) :
    line.state ≠ .empty := by
  intro empty
  simp [byte?, empty] at value

section Client
variable {sets : Nat} {t t' : Tracked} {e : Event} {among : Nat → Prop} {P P' : Addr → Byte → Prop}

theorem Sets.map_of_content (kept : Sets sets t) {cid : Nat} {addr : Addr} (used : (t.line cid).state ≠ .empty)
    (member : t.cache.lineNumber addr ∈ t.content cid) :
    t.cache.selector.map (t.cache.lineNumber addr) = ((t.line cid).tag, cid / t.cache.assoc) :=
  kept.order.identifies cid used _ member

theorem DCache.lineOf_eq_some {c : DCache} {addr : Addr} {cid : Nat} (positive : 0 < c.assoc)
    (found : c.lineOf addr = some cid) : (c.lines cid).state ≠ .empty ∧
      c.selector.map (c.lineNumber addr) = ((c.lines cid).tag, cid / c.assoc) := by
  obtain ⟨member, _, used, tag⟩ := c.findLine_eq_some found
  have place : cid / c.assoc = (c.selector.map (c.lineNumber addr)).2 := (DCache.mem_setLines positive).mp member
  exact ⟨used, Prod.ext tag.symm place.symm⟩

/-- The line that holds the bytes of an address is the line of the address, unless the
search finds a parked line. -/
theorem Sets.lineOf_of_content (kept : Sets sets t) {cid : Nat} {addr : Addr} (used : (t.line cid).state ≠ .empty)
    (member : t.cache.lineNumber addr ∈ t.content cid) (tagged : ∀ other ∈ t.cache.lineOf addr, t.content other ≠ []) :
    t.cache.lineOf addr = some cid := by
  have own := kept.map_of_content used member
  cases found : t.cache.lineOf addr with
  | none =>
    have place : cid / t.cache.assoc = (t.cache.splitAddress addr).2.1 := (congrArg Prod.snd own).symm
    exact absurd (congrArg Prod.fst own).symm
      (DCache.findLine_eq_none kept.assoc found cid place (by simp) used)
  | some other =>
    obtain ⟨otherUsed, otherMap⟩ := DCache.lineOf_eq_some kept.assoc found
    have same := own.symm.trans otherMap
    exact congrArg some (kept.order.unique other cid otherUsed (tagged other found) used
      (List.ne_nil_of_mem member) (congrArg Prod.snd same).symm (congrArg Prod.fst same).symm)

/-- All the numbers of a line in use are the same. -/
theorem Sets.number_of_lineOf (kept : Sets sets t) {cid : Nat} {addr addr' : Addr}
    (found : t.cache.lineOf addr = some cid) (member : t.cache.lineNumber addr' ∈ t.content cid) :
    t.cache.lineNumber addr' = t.cache.lineNumber addr := by
  obtain ⟨used, map⟩ := DCache.lineOf_eq_some kept.assoc found
  have same := (kept.map_of_content used member).trans map.symm
  rw [← kept.lawful.unmap (t.cache.lineNumber addr'), same, kept.lawful.unmap]

/-- Two lines in use do not hold bytes of one address. -/
theorem Sets.eq_of_number (kept : Sets sets t) {cid other : Nat} {addr : Addr}
    (used : (t.line cid).state ≠ .empty) (member : t.cache.lineNumber addr ∈ t.content cid)
    (used' : (t.line other).state ≠ .empty) (member' : t.cache.lineNumber addr ∈ t.content other) : cid = other := by
  have same := (kept.map_of_content used member).symm.trans (kept.map_of_content used' member')
  exact kept.order.unique cid other used (List.ne_nil_of_mem member) used' (List.ne_nil_of_mem member')
    (congrArg Prod.snd same) (congrArg Prod.fst same)

theorem mem_contentAfter {use : Use} {cid : Nat} (kept : use.cleared ≠ some cid) :
    t.content cid ⊆ t.contentAfter use cid := by
  intro number member
  cases use with
  | keep | join | finish | deliver => exact member
  | park other | request other | merge other =>
    have different : cid ≠ other := fun same => kept (congrArg some same.symm)
    simpa [Tracked.contentAfter, different] using member
  | resolve other | bytes other =>
    by_cases same : cid = other
    · subst same
      simp [Tracked.contentAfter, member]
    · simpa [Tracked.contentAfter, same] using member

theorem Cached.step (kept : Cached sets t) (allowed : SetGuard t e) (taken : t.step e = some t') : Cached sets t' := by
  have after := kept.toSets.step allowed taken
  obtain ⟨s', moved, rfl⟩ := Option.map_eq_some_iff.mp taken
  have geometry := (kept.toWaiting.setStep moved).geometry
  refine ⟨after, ?_, ?_⟩
  · exact System.wholeLines_step kept.whole (fun cid member => (kept.order.completed cid member).2.2) moved
  · obtain ⟨k, power⟩ := kept.power
    exact ⟨k, geometry.lineSize.trans power⟩

/-- Bytes that only go leave the condition alone. -/
theorem Tracked.Holds.loaded (holds : t.Holds among P) (geometry : t.cache.SameGeometry t'.cache) {use : Use}
    (content : t'.content = t.contentAfter use) (lines : ∀ cid, LineChange (t.line cid) (t'.line cid))
    (cleared : ∀ cid ∈ use.cleared, ∀ i, (t'.line cid).byte? i = none) : t'.Holds among P := by
  intro cid i b chosen inside value
  rw [geometry.lineSize] at inside
  have untaken : use.cleared ≠ some cid := by
    intro own
    rw [cleared cid own i] at value
    cases value
  have before : (t.line cid).byte? i = some b := by
    cases lines cid with
    | kept same => exact (congrFun same i).symm.trans value
    | cleared none _ =>
      rw [none i] at value
      cases value
  obtain ⟨addr, member, meets⟩ := holds cid i b chosen inside before
  refine ⟨addr, ?_, ?_⟩
  · rw [content, DCache.lineNumber, geometry.lineSize]
    exact mem_contentAfter untaken member
  · rwa [byteOf, geometry.lineSize]

/-- A store is written to the line of its address. -/
theorem Cached.holds_written (kept : Cached sets t) (holds : t.Holds among P) (geometry : t.cache.SameGeometry t'.cache)
    {request : Request} (line : IsLine t.cache.lineSize request.address)
    (lines : ∀ cid i, (t'.line cid).byte? i = if t.cache.lineOf request.address = some cid then
      (request.byte? i).or ((t.line cid).byte? i) else (t.line cid).byte? i)
    (content : ∀ cid, t.content cid ⊆ t'.content cid)
    (own : ∀ cid ∈ t.cache.lineOf request.address, t.cache.lineNumber request.address ∈ t'.content cid)
    (tagged : ∀ cid ∈ t.cache.lineOf request.address, t.content cid ≠ [])
    (old : ∀ a b, P a b → request.patch t.cache.lineSize a = none → P' a b)
    (new : ∀ cid ∈ t.cache.lineOf request.address, among cid → ∀ a b,
      request.patch t.cache.lineSize a = some b → P' a b) : t'.Holds among P' := by
  have bound := kept.lineSize.2
  have number (addr : Addr) : t'.cache.lineNumber addr = t.cache.lineNumber addr := by
    rw [DCache.lineNumber, geometry.lineSize]
    rfl
  have place (addr : Addr) (i : Nat) : t'.byteOf addr i = t.byteOf addr i := by
    rw [Tracked.byteOf, geometry.lineSize]
    rfl
  intro cid i b chosen inside value
  rw [geometry.lineSize] at inside
  rw [lines] at value
  by_cases found : t.cache.lineOf request.address = some cid
  · rw [if_pos found] at value
    have atByte : request.patch t.cache.lineSize (t.byteOf request.address i) = request.byte? i :=
      Request.patch_lineByte line bound inside
    cases written : request.byte? i with
    | some c =>
      rw [written, Option.some_or] at value
      refine ⟨request.address, number _ ▸ own cid found, ?_⟩
      rw [place]
      exact new cid found chosen _ _ (atByte.trans (written.trans value))
    | none =>
      rw [written, Option.none_or] at value
      obtain ⟨addr, member, meets⟩ := holds cid i b chosen inside value
      have same := kept.number_of_lineOf found member
      refine ⟨addr, number _ ▸ content cid member, ?_⟩
      rw [place]
      refine old _ _ meets ?_
      rw [Tracked.byteOf, lineByte, show addr / BitVec.ofNat 64 t.cache.lineSize = _ from same]
      exact atByte.trans written
  · rw [if_neg found] at value
    obtain ⟨addr, member, meets⟩ := holds cid i b chosen inside value
    refine ⟨addr, number _ ▸ content cid member, ?_⟩
    rw [place]
    refine old _ _ meets ?_
    cases overlap : request.patch t.cache.lineSize (t.byteOf addr i) with
    | none => rfl
    | some c =>
      obtain ⟨j, within, same, _⟩ := Request.patch_eq_some line overlap
      have numbers := (lineByte_inj kept.power bound inside within same).1
      have member' : t.cache.lineNumber request.address ∈ t.content cid := by
        rw [DCache.lineNumber, ← numbers]
        exact member
      exact absurd (kept.lineOf_of_content (CacheLine.used_of_byte value) member' tagged) found

theorem DCache.requestAddress_eq {c : DCache} {sets : Nat} (lawful : c.selector.Lawful sets) (pAddr : Addr) :
    c.requestAddress pAddr = lineByte c.lineSize pAddr 0 :=
  congrArg (· * BitVec.ofNat 64 c.lineSize + BitVec.ofNat 64 0) (lawful.unmap (c.lineNumber pAddr))

/-- What an event of the processor does to the bytes that the cache holds: it sends a
store and writes it, or adds no byte. -/
theorem Cached.holds_local (kept : Cached sets t) (isLocal : e.IsLocal = true) (taken : t.step e = some t') :
    (t.cache.outgoing.Gains t'.cache.outgoing (t.system.use e).requests ∧
      ∀ among P, t.Holds among P → t'.Holds among P) ∨
    ∃ request : Request, request.write = true ∧ IsLine t.cache.lineSize request.address ∧
      (t.system.use e).requests = [] ∧ t.cache.outgoing.Gains t'.cache.outgoing [request] ∧
      ∀ (among : Nat → Prop) (P P' : Addr → Byte → Prop), t.Holds among P →
        (∀ a b, P a b → request.patch t.cache.lineSize a = none → P' a b) →
        (∀ a b, request.patch t.cache.lineSize a = some b → P' a b) → t'.Holds among P' := by
  obtain ⟨s', moved, rfl⟩ := Option.map_eq_some_iff.mp taken
  have geometry := (kept.toWaiting.setStep moved).geometry
  cases System.bytes_step kept.assoc isLocal moved with
  | loaded outgoing lines cleared =>
    exact Or.inl ⟨outgoing, fun among P holds => holds.loaded geometry rfl lines cleared⟩
  | @stored pAddr data tid use outgoing lines full =>
    have sent : (t.cache.storeRequest pAddr data tid).address = lineByte t.cache.lineSize pAddr 0 :=
      DCache.requestAddress_eq kept.lawful pAddr
    have line := isLine_lineByte kept.power kept.lineSize.2 pAddr
    rw [← sent] at line
    have number : t.cache.lineNumber (t.cache.storeRequest pAddr data tid).address = t.cache.lineNumber pAddr :=
      DCache.lineNumber_requestAddress kept.lawful kept.lineSize.1 kept.lineSize.2 pAddr
    have search := DCache.lineOf_congr number
    have quiet : (t.system.use e).requests = [] := by
      rw [use]
      cases t.system.core.cache.lineOf pAddr <;> rfl
    refine Or.inr ⟨_, rfl, line, quiet, outgoing, fun among P P' holds old new =>
      kept.holds_written holds geometry line ?_ ?_ ?_ ?_ old fun _ _ _ => new⟩
    · intro cid i
      rw [search]
      exact lines cid i
    · intro cid
      refine mem_contentAfter ?_
      rw [use]
      cases t.cache.lineOf pAddr <;> simp [Use.cleared]
    · intro cid found
      have atLine : t.cache.lineOf pAddr = some cid := search.symm.trans found
      rw [number]
      simp [use, atLine, Tracked.contentAfter]
    · intro cid found blank
      have atLine : t.cache.lineOf pAddr = some cid := search.symm.trans found
      have used := (DCache.lineOf_eq_some kept.assoc atLine).1
      exact (kept.order.parked cid used blank).1 (full cid atLine)

/-- The bytes of the lines after a snoop. -/
theorem Tracked.byte?_snooped (positive : 0 < t.cache.assoc) {request : Request} (store : request.write = true)
    (cid i : Nat) : ((t.snooped request.address request.data request.mask).line cid).byte? i =
      if t.cache.lineOf request.address = some cid then (request.byte? i).or ((t.line cid).byte? i)
      else (t.line cid).byte? i := by
  have lookup : t.cache.lineOf request.address = t.cache.findLine (t.cache.splitAddress request.address).2.1
    (t.cache.splitAddress request.address).2.2 none := rfl
  simp only [snooped, line, cache, System.withCache, DCache.onMemorySnooped, ← lookup]
  cases found : t.system.core.cache.lineOf request.address with
  | none => simp
  | some other =>
    have used := (DCache.lineOf_eq_some positive found).1
    by_cases same : cid = other
    · subst same
      simp only [DCache.setLine, Function.update_self, CacheLine.byte?, Request.byte?, store, used, ne_eq,
        not_false_eq_true, true_and, if_true]
      by_cases inMask : request.mask i = true <;> simp [inMask]
    · have different : ¬ some other = some cid := fun eq => same (Option.some.inj eq).symm
      simp [DCache.setLine, same, different]

/-- The guard of a snoop: the line that it finds waits for no translation. -/
theorem tagged_of_snoopGuard {addr : Addr} {data : Nat → Byte} {mask : Nat → Bool}
    (allowed : SetGuard t (.snoop addr data mask)) : ∀ cid ∈ t.cache.lineOf addr, t.content cid ≠ [] := by
  intro cid found
  have use : t.system.use (.snoop addr data mask) = .bytes cid addr := by
    simp only [System.use, show t.system.core.cache.lineOf addr = some cid from found, Option.map_some, Option.getD_some]
  have allows : t.Allows (t.system.use (.snoop addr data mask)) := allowed
  rw [use] at allows
  exact allows

theorem Cached.holds_snooped (kept : Cached sets t) (holds : t.Holds among P) {request : Request} (store : request.write = true)
    (line : IsLine t.cache.lineSize request.address)
    (allowed : SetGuard t (.snoop request.address request.data request.mask))
    (old : ∀ a b, P a b → request.patch t.cache.lineSize a = none → P' a b)
    (new : ∀ cid ∈ t.cache.lineOf request.address, among cid → ∀ a b,
      request.patch t.cache.lineSize a = some b → P' a b) :
    (t.snooped request.address request.data request.mask).Holds among P' := by
  have geometry := (t.cache.onMemorySnooped_lines request.address request.data request.mask).1
  refine kept.holds_written holds geometry line (Tracked.byte?_snooped kept.assoc store) (fun cid => ?_) ?_
    (tagged_of_snoopGuard allowed) old new
  · refine mem_contentAfter ?_
    simp only [System.use]
    cases t.system.core.cache.lineOf request.address <;> simp [Use.cleared]
  · intro cid found
    have use : t.system.use (.snoop request.address request.data request.mask) = .bytes cid request.address := by
      simp only [System.use, show t.system.core.cache.lineOf request.address = some cid from found, Option.map_some,
        Option.getD_some]
    simp [Tracked.snooped, use, Tracked.contentAfter]

/-- The bytes of the lines after a read that has been accepted. -/
theorem Tracked.byte?_readCompleted {addr : Addr} {data : Nat → Byte} {cid : Nat}
    (found : t.cache.lineOf addr = some cid) (awaits : t.Awaits cid)
    (accepted : (t.readCompleted addr data).1 = true) :
    t.cache.fills addr = some cid ∧ (t.readCompleted addr data).2.cache.outgoing = t.cache.outgoing ∧
      ∀ other i, ((t.readCompleted addr data).2.line other).byte? i = if other = cid then
        ((t.line cid).byte? i).or (if i < t.cache.lineSize then some (t.cache.mergeWrites addr data i) else none)
        else (t.line other).byte? i := by
  obtain ⟨⟨used, _⟩, open', idle⟩ := awaits
  have lookup : t.cache.lineOf addr = t.cache.findLine (t.cache.splitAddress addr).2.1
    (t.cache.splitAddress addr).2.2 none := rfl
  have free : ¬ ((t.cache.lines cid).state = .full ∨ (t.cache.lines cid).processing = true) := by
    rintro (full | busy)
    · exact open' full
    · exact Bool.false_ne_true (idle.symm.trans busy)
  simp only [readCompleted, cache, DCache.onMemoryReadCompleted, ← lookup, found, if_neg free] at accepted ⊢
  cases pushed : t.system.core.cache.readResponses.push (BitVec.ofNat 32 cid) 1 with
  | none =>
    rw [pushed] at accepted
    cases accepted
  | some readResponses =>
    refine ⟨?_, rfl, fun other i => ?_⟩
    · have room := Buffer.hasRoom_of_push pushed
      rw [DCache.fills, found, Option.filter_some, if_pos (by simpa using ⟨open', idle, room⟩)]
    · by_cases same : other = cid
      · subst same
        have inUse : (t.system.core.cache.lines other).state ≠ .empty := used
        simp only [line, System.withCache, DCache.setLine, Function.update_self, CacheLine.byte?, inUse, ne_eq,
          not_false_eq_true, true_and, if_true]
        by_cases valid : (t.system.core.cache.lines other).valid i = true
        · simp [valid]
        · simp [valid]
      · simp [line, System.withCache, DCache.setLine, same]

/-- A store of the processor goes to a full line. -/
theorem System.full_of_use {s : System} {e : Event} (isLocal : e.IsLocal = true) {cid : Nat} {addr : Addr}
    (use : s.use e = .bytes cid addr) : (s.core.cache.lines cid).state = .full := by
  have ofStore {pAddr : Addr} (same : ((s.core.cache.stores pAddr).map fun cid => Use.bytes cid pAddr).getD .keep =
      .bytes cid addr) : (s.core.cache.lines cid).state = .full := by
    cases found : s.core.cache.stores pAddr with
    | none =>
      rw [found] at same
      cases same
    | some other =>
      rw [found] at same
      cases same
      obtain ⟨_, full⟩ := Option.filter_eq_some_iff.mp found
      exact (of_decide_eq_true full).1
  have plain {pAddr : Addr} {size : Nat} {reg : Option RegAddr} : s.core.cache.readUse pAddr size reg ≠ .bytes cid addr := by
    unfold DCache.readUse
    split
    · split <;> nofun
    · cases s.core.cache.takes pAddr <;> nofun
  cases e with
  | read contextId address size reg =>
    simp only [System.use, Core.readUse] at use
    split at use
    · cases use
    · split at use
      · cases use
      · cases found : s.core.cache.getEmptyLine (s.core.cache.splitAddress address).2.1 <;> rw [found] at use <;> cases use
      · exact absurd use plain
  | write id contextId address data tid =>
    simp only [System.use, Core.writeUse] at use
    split at use
    · cases use
    · split at use
      · exact ofStore use
      · cases use
  | lookupResponses =>
    simp only [System.use] at use
    split at use
    · simp only [Core.lookupUse] at use
      split at use
      · cases use
      · split at use
        · cases use
        · split at use
          · cases use
          · split at use
            · cases use
            · simp only [DCache.completionUse] at use
              split at use <;> cases use
    · cases use
  | readResponses =>
    simp only [System.use] at use
    split at use <;> cases use
  | writebacks =>
    simp only [System.use] at use
    cases found : s.core.cache.writebacks.take? <;> rw [found] at use <;> cases use
  | answer | invalidate | property | transmit | endCycle => cases use
  | memoryRead | snoop | memoryInvalidate | outgoing => cases isLocal

/-- A line that awaits bytes goes on awaiting them until they come. -/
theorem Cached.awaits_step (kept : Cached sets t) {use : Use} {lossless : Prop} {s' : System}
    (step : SetStep t.system use lossless s')
    (unfilled : ∀ cid addr, use = .bytes cid addr → (t.cache.shapes cid).state = .full ∨
      s'.core.cache.shapes cid = t.cache.shapes cid) {cid : Nat} (awaits : t.Awaits cid) :
    (⟨s', t.contentAfter use⟩ : Tracked).Awaits cid ∧ use.cleared ≠ some cid := by
  obtain ⟨⟨used, known⟩, waits, idle⟩ := awaits
  obtain ⟨_, lines, refers, _⟩ := step
  have state : (t.cache.shapes cid).state ≠ .full := waits
  have processing : (t.cache.shapes cid).processing = false := idle
  have same {use : Use} (kept : use.cleared ≠ some cid)
      (shape : s'.core.cache.shapes cid = t.cache.shapes cid) :
      (⟨s', t.contentAfter use⟩ : Tracked).Awaits cid ∧ use.cleared ≠ some cid := by
    have sameState : (s'.core.cache.lines cid).state = (t.cache.lines cid).state := congrArg Shape.state shape
    have sameProcessing : (s'.core.cache.lines cid).processing = (t.cache.lines cid).processing :=
      congrArg Shape.processing shape
    obtain ⟨number, member⟩ := List.exists_mem_of_ne_nil _ known
    refine ⟨⟨⟨?_, List.ne_nil_of_mem (mem_contentAfter kept member)⟩, ?_, ?_⟩, kept⟩
    · exact fun empty => used (sameState.symm.trans empty)
    · exact fun full => waits (sameState.symm.trans full)
    · exact sameProcessing.trans idle
  have view {after : CacheView} (whole : s'.core.cache.view = after) : s'.core.cache.shapes cid = after.shapes cid :=
    congrFun (congrArg CacheView.shapes whole) cid
  have untaken {other set : Nat} (empty : t.cache.getEmptyLine set = some other) : cid ≠ other := by
    rintro rfl
    rcases (DCache.getEmptyLine_spec kept.assoc empty).2 with none | full
    · exact used none
    · exact waits full
  cases lines with
  | kept whole => exact same (by simp [Use.cleared]) (view whole)
  | joined _ _ whole => exact same (by simp [Use.cleared]) (view whole)
  | @parked other _ _ empty whole =>
    have different := untaken empty
    refine same (by simp [Use.cleared, different.symm]) ((view whole).trans ?_)
    simp only [Function.update_of_ne different]
  | @requested other _ pAddr empty whole =>
    have different := untaken empty
    refine same (by simp [Use.cleared, different.symm]) ((view whole).trans ?_)
    simp only [Function.update_of_ne different]
  | @resolved other _ pAddr _ _ _ whole =>
    obtain ⟨reference, rfl, subperm⟩ := refers
    have different : cid ≠ reference.toNat := by
      rintro rfl
      exact known (kept.released subperm).1.2
    refine same (by simp [Use.cleared]) ((view whole).trans ?_)
    simp only [Function.update_of_ne different]
  | @merged other _ _ pAddr _ _ _ _ _ whole =>
    obtain ⟨reference, rfl, subperm⟩ := refers
    have different : cid ≠ reference.toNat := by
      rintro rfl
      exact known (kept.released subperm).1.2
    refine same (by simp [Use.cleared, different.symm]) ((view whole).trans ?_)
    simp only [Function.update_of_ne different]
  | touched _ whole => exact same (by simp [Use.cleared]) (view whole)
  | @filled other addr _ _ busy whole =>
    refine same (by simp [Use.cleared]) ?_
    by_cases own : cid = other
    · subst own
      exact (unfilled cid addr rfl).resolve_left state
    · exact (view whole).trans (by simp only [Function.update_of_ne own])
  | @finished done front whole =>
    have different : cid ≠ done.toNat := by
      rintro rfl
      have queued : done ∈ t.cache.readResponses.contents := by
        rw [front]
        exact List.mem_cons_self
      exact Bool.false_ne_true (processing.symm.trans (kept.order.completed done queued).2.2)
    refine same (by simp [Use.cleared]) ((view whole).trans ?_)
    simp only [Function.update_of_ne different]
  | delivered _ whole => exact same (by simp [Use.cleared]) (view whole)
  | @invalidated other full whole =>
    have different : cid ≠ other := by
      rintro rfl
      exact state full
    refine same (by simp [Use.cleared]) ((view whole).trans ?_)
    simp only [Function.update_of_ne different]
  | @doomed other loading whole =>
    have shape := view whole
    by_cases own : cid = other
    · subst own
      simp only [Function.update_self] at shape
      have newState : (s'.core.cache.lines cid).state = .invalid := congrArg Shape.state shape
      have newProcessing : (s'.core.cache.lines cid).processing = (t.cache.lines cid).processing :=
        congrArg Shape.processing shape
      refine ⟨⟨⟨?_, known⟩, ?_, newProcessing.trans idle⟩, by simp [Use.cleared]⟩
      · exact fun empty => by cases newState.symm.trans empty
      · exact fun full => by cases newState.symm.trans full
    · refine same (by simp [Use.cleared]) (shape.trans ?_)
      simp only [Function.update_of_ne own]

/-- The line that awaits a read is the one that lacks its bytes. -/
theorem Sets.lacks_iff (kept : Sets sets t) {cid : Nat} {addr : Addr} (awaits : t.Awaits cid)
    (member : t.cache.lineNumber addr ∈ t.content cid) (i : Nat) : t.Lacks addr i ↔ (t.line cid).byte? i = none := by
  refine ⟨?_, fun none => ⟨cid, awaits, member, none⟩⟩
  rintro ⟨other, awaits', member', none⟩
  have same := kept.eq_of_number awaits'.1.1 member' awaits.1.1 member
  rwa [same] at none

variable {reads : List Addr}

theorem Tracked.Asks.of_perm {reads' : List Addr} (asks : t.Asks reads) (perm : reads.Perm reads') : t.Asks reads' :=
  ⟨(perm.map _).nodup_iff.mp asks.apart, fun addr member => asks.awaited addr (perm.mem_iff.mpr member)⟩

/-- No read is under way for a line of which no tagged line is in use. -/
theorem Sets.asks_fresh (kept : Sets sets t) (asks : t.Asks reads) {addr : Addr}
    (absent : ∀ cid, (t.line cid).state ≠ .empty →
      t.cache.selector.map (t.cache.lineNumber addr) = ((t.line cid).tag, cid / t.cache.assoc) → t.content cid = []) :
    t.cache.lineNumber addr ∉ reads.map t.cache.lineNumber := by
  intro member
  obtain ⟨addr', old, same⟩ := List.mem_map.mp member
  obtain ⟨cid, awaits, own⟩ := asks.awaited addr' old
  have blank := absent cid awaits.1.1 (same ▸ kept.map_of_content awaits.1.1 own)
  exact List.not_mem_nil (blank ▸ own)

/-- The line of a new request to read awaits it, and it is the only request for its line. -/
theorem Cached.asks_request (kept : Cached sets t) {use : Use} {lossless : Prop} {s' : System}
    (step : SetStep t.system use lossless s') (allows : t.Allows use) (asks : t.Asks reads) {request : Request}
    (sent : request ∈ use.requests) : t.cache.lineNumber request.address ∉ reads.map t.cache.lineNumber ∧
      ∃ cid, (⟨s', t.contentAfter use⟩ : Tracked).Awaits cid ∧
        t.cache.lineNumber request.address ∈ t.contentAfter use cid := by
  obtain ⟨_, lines, refers, _⟩ := step
  have loading {cid : Nat} {tag : Addr} (shape : s'.core.cache.shapes cid = ⟨tag, .loading, false⟩)
      (known : t.contentAfter use cid ≠ []) : (⟨s', t.contentAfter use⟩ : Tracked).Awaits cid := by
    have state : (s'.core.cache.lines cid).state = .loading := congrArg Shape.state shape
    refine ⟨⟨fun empty => ?_, known⟩, fun full => ?_, congrArg Shape.processing shape⟩
    · cases state.symm.trans empty
    · cases state.symm.trans full
  cases use with
  | request cid reg addr =>
    cases List.mem_singleton.mp sent
    have own : t.cache.lineNumber addr ∈ t.contentAfter (.request cid reg addr) cid := by simp [Tracked.contentAfter]
    have absent : t.cache.lineOf addr = none := allows
    refine ⟨kept.asks_fresh asks fun other used map => ?_, cid, ?_, own⟩
    · exact absurd (congrArg Prod.fst map).symm
        (DCache.findLine_eq_none kept.assoc absent other (congrArg Prod.snd map).symm (by simp) used)
    · cases lines with
      | requested pAddr empty view =>
        have shape := congrFun (congrArg CacheView.shapes view) cid
        simp only [Function.update_self] at shape
        exact loading shape (List.ne_nil_of_mem own)
  | resolve cid tlbData addr =>
    cases List.mem_singleton.mp sent
    have own : t.cache.lineNumber addr ∈ t.contentAfter (.resolve cid tlbData addr) cid := by simp [Tracked.contentAfter]
    cases lines with
    | resolved tlbData pAddr formed _ absent view =>
      obtain ⟨reference, rfl, subperm⟩ := refers
      obtain ⟨used, blank⟩ := (kept.released subperm).1
      have idle := (kept.order.parked _ used blank).2.2
      have number := DCache.lineNumber_requestAddress kept.lawful kept.lineSize.1 kept.lineSize.2 pAddr
      refine ⟨kept.asks_fresh asks fun other used map => ?_, reference.toNat, ?_, own⟩
      · rw [show t.cache.lineNumber (readRequest (t.system.core.cache.requestAddress pAddr)).address = _ from number] at map
        by_cases same : other = reference.toNat
        · exact same ▸ blank
        · exact absurd (congrArg Prod.fst map).symm (DCache.findLine_eq_none kept.assoc absent other
            (congrArg Prod.snd map).symm (fun eq => same (Option.some.inj eq).symm) used)
      · have shape := congrFun (congrArg CacheView.shapes view) reference.toNat
        simp only [Function.update_self] at shape
        rw [show (t.system.core.cache.shapes reference.toNat).processing = false from idle] at shape
        exact loading shape (List.ne_nil_of_mem own)
  | keep | join | park | merge | bytes | finish | deliver => cases sent

theorem Use.requests_eq (use : Use) : use.requests = [] ∨ ∃ request, use.requests = [request] := by
  cases use with
  | request | resolve => exact Or.inr ⟨_, rfl⟩
  | keep | join | park | merge | bytes | finish | deliver => exact Or.inl rfl

/-- An event of the processor keeps the reads under way, and asks for at most one more. -/
theorem Cached.asks_local (kept : Cached sets t) (isLocal : e.IsLocal = true) (allowed : SetGuard t e)
    (taken : t.step e = some t') (asks : t.Asks reads) :
    t'.Asks (reads ++ (t.system.use e).requests.map Request.address) ∧
      ∀ addr ∈ reads, ∀ i, t'.Lacks addr i → t.Lacks addr i := by
  have after := kept.toSets.step allowed taken
  obtain ⟨s', moved, rfl⟩ := Option.map_eq_some_iff.mp taken
  have step := kept.toWaiting.setStep moved
  have number : (⟨s', t.contentAfter (t.system.use e)⟩ : Tracked).cache.lineNumber = t.cache.lineNumber := by
    funext addr
    rw [DCache.lineNumber, Tracked.cache, step.geometry.lineSize]
    rfl
  have old : ∀ addr ∈ reads, ∃ cid, t.Awaits cid ∧ t.cache.lineNumber addr ∈ t.content cid ∧
      (⟨s', t.contentAfter (t.system.use e)⟩ : Tracked).Awaits cid ∧
      t.cache.lineNumber addr ∈ t.contentAfter (t.system.use e) cid := by
    intro addr member
    obtain ⟨cid, awaits, own⟩ := asks.awaited addr member
    obtain ⟨still, uncleared⟩ :=
      kept.awaits_step step (fun cid addr use => Or.inl (System.full_of_use isLocal use)) awaits
    exact ⟨cid, awaits, own, still, mem_contentAfter uncleared own⟩
  have new (request : Request) (sent : request ∈ (t.system.use e).requests) :=
    kept.asks_request step allowed asks sent
  refine ⟨⟨?_, fun addr member => ?_⟩, fun addr member i lacks => ?_⟩
  · rw [number, List.map_append]
    rcases (t.system.use e).requests_eq with none | ⟨request, one⟩
    · simpa [none] using asks.apart
    · rw [one]
      exact List.nodup_append.mpr ⟨asks.apart, List.nodup_singleton _, fun first inOld second inNew same =>
        (new request (by simp [one])).1 (List.mem_singleton.mp inNew ▸ same ▸ inOld)⟩
  · rw [number]
    rcases List.mem_append.mp member with before | sent
    · obtain ⟨cid, _, _, still, own⟩ := old addr before
      exact ⟨cid, still, own⟩
    · obtain ⟨request, inUse, rfl⟩ := List.mem_map.mp sent
      exact (new request inUse).2
  · obtain ⟨cid, awaits, own, still, member'⟩ := old addr member
    rw [after.lacks_iff still (number ▸ member')] at lacks
    refine ⟨cid, awaits, own, ?_⟩
    cases System.bytes_step kept.assoc isLocal moved with
    | loaded _ lines _ =>
      cases lines cid with
      | kept same => exact (congrFun same i).symm.trans lacks
      | cleared _ free =>
        rcases free with empty | full | gone
        · exact absurd empty awaits.1.1
        · exact absurd full awaits.2.1
        · exact absurd gone still.1.1
    | @stored pAddr _ _ _ _ lines full =>
      have other : ¬ t.system.core.cache.lineOf pAddr = some cid := fun found => awaits.2.1 (full cid found)
      have same := lines cid i
      rw [if_neg other] at same
      exact same.symm.trans lacks

/-- A snoop brings its bytes to the line that awaits them. -/
theorem Cached.asks_snooped (kept : Cached sets t) {request : Request} (store : request.write = true)
    (line : IsLine t.cache.lineSize request.address)
    (allowed : SetGuard t (.snoop request.address request.data request.mask)) (asks : t.Asks reads) :
    (t.snooped request.address request.data request.mask).Asks reads ∧
      ∀ addr ∈ reads, ∀ i < t.cache.lineSize,
        (t.snooped request.address request.data request.mask).Lacks addr i →
          t.Lacks addr i ∧ request.patch t.cache.lineSize (t.byteOf addr i) = none := by
  have taken := t.step_snoop request.address request.data request.mask
  have after := kept.toSets.step allowed taken
  have moved : t.system.step (.snoop request.address request.data request.mask) =
      some (t.system.withCache (t.cache.onMemorySnooped request.address request.data request.mask)) := rfl
  have step := kept.toWaiting.setStep moved
  have view : ∀ cid, (t.cache.onMemorySnooped request.address request.data request.mask).shapes cid = t.cache.shapes cid := by
    intro cid
    simp only [DCache.onMemorySnooped]
    split
    · rfl
    · rename_i other _
      refine (congrFun (t.cache.shapes_setLine other _) cid).trans ?_
      exact congrFun (Function.update_eq_self other t.cache.shapes) cid
  have old : ∀ addr ∈ reads, ∃ cid, t.Awaits cid ∧ t.cache.lineNumber addr ∈ t.content cid ∧
      (t.snooped request.address request.data request.mask).Awaits cid ∧ t.cache.lineNumber addr ∈
        (t.snooped request.address request.data request.mask).content cid := by
    intro addr member
    obtain ⟨cid, awaits, own⟩ := asks.awaited addr member
    obtain ⟨still, uncleared⟩ := kept.awaits_step step (fun cid addr use => Or.inr (view cid)) awaits
    exact ⟨cid, awaits, own, still, mem_contentAfter uncleared own⟩
  have number : (t.snooped request.address request.data request.mask).cache.lineNumber = t.cache.lineNumber := by
    funext addr
    exact congrArg (fun size => addr / BitVec.ofNat 64 size) step.geometry.lineSize
  refine ⟨⟨number ▸ asks.apart, fun addr member => ?_⟩, fun addr member i inside lacks => ?_⟩
  · obtain ⟨cid, _, _, still, own⟩ := old addr member
    exact ⟨cid, still, number ▸ own⟩
  · obtain ⟨cid, awaits, own, still, member'⟩ := old addr member
    rw [after.lacks_iff still (number ▸ member'), Tracked.byte?_snooped kept.assoc store] at lacks
    by_cases found : t.cache.lineOf request.address = some cid
    · rw [if_pos found, Option.or_eq_none_iff] at lacks
      have same : addr / BitVec.ofNat 64 t.cache.lineSize = request.address / BitVec.ofNat 64 t.cache.lineSize :=
        kept.number_of_lineOf found own
      refine ⟨⟨cid, awaits, own, lacks.2⟩, ?_⟩
      rw [Tracked.byteOf, lineByte, same]
      exact (Request.patch_lineByte line kept.lineSize.2 inside).trans lacks.1
    · rw [if_neg found] at lacks
      refine ⟨⟨cid, awaits, own, lacks⟩, ?_⟩
      cases overlap : request.patch t.cache.lineSize (t.byteOf addr i) with
      | none => rfl
      | some b =>
        obtain ⟨j, within, same, _⟩ := Request.patch_eq_some line overlap
        have numbers := (lineByte_inj kept.power kept.lineSize.2 inside within same).1
        have own' : t.cache.lineNumber request.address ∈ t.content cid := by
          rw [DCache.lineNumber, ← numbers]
          exact own
        exact absurd (kept.lineOf_of_content awaits.1.1 own' (tagged_of_snoopGuard allowed)) found

/-- The read of a completion is done, and the others go on. -/
theorem Cached.readCompleted (kept : Cached sets t) {addr : Addr} {data : Nat → Byte}
    (asks : t.Asks (addr :: reads)) (accepted : (t.readCompleted addr data).1 = true) :
    SetGuard t (.memoryRead addr data) ∧ (t.readCompleted addr data).2.cache.outgoing = t.cache.outgoing ∧
      (t.readCompleted addr data).2.Asks reads ∧
      (∀ other ∈ reads, ∀ i, (t.readCompleted addr data).2.Lacks other i → t.Lacks other i) ∧
      ∀ among P, t.Holds among P → (∀ i < t.cache.lineSize, t.Lacks addr i → P (t.byteOf addr i) (t.cache.mergeWrites addr data i)) →
        (t.readCompleted addr data).2.Holds among P := by
  obtain ⟨cid, awaits, own⟩ := asks.awaited addr List.mem_cons_self
  have found : t.cache.lineOf addr = some cid := kept.toSets.integrity.finds cid awaits addr own
  obtain ⟨fills, outgoing, bytes⟩ := Tracked.byte?_readCompleted found awaits accepted
  have taken := t.step_memoryRead addr data
  have use : t.system.use (.memoryRead addr data) = .bytes cid addr := by
    simp only [System.use, show t.system.core.cache.fills addr = some cid from fills, Option.map_some, Option.getD_some]
  have allowed : SetGuard t (.memoryRead addr data) := by
    have allows : t.Allows (.bytes cid addr) := List.ne_nil_of_mem own
    rwa [SetGuard, use]
  have after := kept.toSets.step allowed taken
  have moved : t.system.step (.memoryRead addr data) =
      some (t.system.withCache (t.cache.onMemoryReadCompleted addr data).2) := rfl
  have geometry : t.cache.SameGeometry (t.readCompleted addr data).2.cache := (kept.toWaiting.setStep moved).geometry
  have content : (t.readCompleted addr data).2.content = t.contentAfter (.bytes cid addr) := congrArg t.contentAfter use
  have number : (t.readCompleted addr data).2.cache.lineNumber = t.cache.lineNumber := by
    funext addr'
    exact congrArg (fun size => addr' / BitVec.ofNat 64 size) geometry.lineSize
  have others {other : Nat} (different : other ≠ cid) :
      (t.readCompleted addr data).2.line other = t.line other ∧ (t.readCompleted addr data).2.content other = t.content other := by
    refine ⟨?_, by simp [content, Tracked.contentAfter, different]⟩
    simp only [Tracked.readCompleted, Tracked.line, Tracked.cache, System.withCache, DCache.onMemoryReadCompleted]
    split
    · rfl
    · rename_i atLine
      have same : some cid = some _ := found.symm.trans atLine
      cases same
      split
      · rfl
      · split
        · rfl
        · simp [DCache.setLine, different]
  have apart := List.nodup_cons.mp asks.apart
  have rest : ∀ addr' ∈ reads, ∃ other, t.Awaits other ∧ t.cache.lineNumber addr' ∈ t.content other ∧ other ≠ cid := by
    intro addr' member
    obtain ⟨other, waits, own'⟩ := asks.awaited addr' (List.mem_cons_of_mem _ member)
    refine ⟨other, waits, own', ?_⟩
    rintro rfl
    exact apart.1 (kept.number_of_lineOf found own' ▸ List.mem_map_of_mem member)
  have still {other : Nat} (waits : t.Awaits other) (different : other ≠ cid) :
      (t.readCompleted addr data).2.Awaits other := by
    obtain ⟨line, kept⟩ := others different
    rw [Tracked.Awaits, Tracked.Tagged, line, kept]
    exact waits
  refine ⟨allowed, outgoing, ⟨number ▸ apart.2, fun addr' member => ?_⟩, fun addr' member i lacks => ?_, ?_⟩
  · obtain ⟨other, waits, own', different⟩ := rest addr' member
    rw [number]
    exact ⟨other, still waits different, (others different).2 ▸ own'⟩
  · obtain ⟨other, waits, own', different⟩ := rest addr' member
    have member' : (t.readCompleted addr data).2.cache.lineNumber addr' ∈ (t.readCompleted addr data).2.content other := by
      rw [number, (others different).2]
      exact own'
    rw [after.lacks_iff (still waits different) member', (others different).1] at lacks
    exact ⟨other, waits, own', lacks⟩
  · intro among P holds fresh other i b chosen inside value
    rw [geometry.lineSize] at inside
    rw [bytes] at value
    have place (addr' : Addr) : (t.readCompleted addr data).2.byteOf addr' i = t.byteOf addr' i :=
      congrArg (fun size => lineByte size addr' i) geometry.lineSize
    have grows : t.content other ⊆ (t.readCompleted addr data).2.content other := by
      rw [content]
      exact mem_contentAfter (by simp [Use.cleared])
    by_cases same : other = cid
    · subst same
      rw [if_pos rfl, if_pos inside] at value
      cases before : (t.line other).byte? i with
      | some c =>
        rw [before, Option.some_or] at value
        obtain ⟨addr', member, meets⟩ := holds other i b chosen inside (before.trans value)
        refine ⟨addr', number ▸ grows member, ?_⟩
        rwa [place]
      | none =>
        rw [before, Option.none_or] at value
        refine ⟨addr, number ▸ grows own, ?_⟩
        rw [place, ← Option.some.inj value]
        exact fresh i inside ⟨other, awaits, own, before⟩
    · rw [if_neg same] at value
      obtain ⟨addr', member, meets⟩ := holds other i b chosen inside value
      refine ⟨addr', number ▸ grows member, ?_⟩
      rwa [place]

/-- A full line holds all the bytes of its address. -/
theorem Cached.holds_full (kept : Cached sets t) (holds : t.Holds among P) {cid i : Nat} (chosen : among cid) (full : (t.line cid).state = .full)
    (inside : i < t.cache.lineSize) :
    P (t.cache.unsplitAddress i (cid / t.cache.assoc) (t.line cid).tag) ((t.line cid).data i) := by
  have used : (t.line cid).state ≠ .empty := by simp [full]
  have valid := kept.whole cid (Or.inl full) i inside
  have value : (t.line cid).byte? i = some ((t.line cid).data i) := if_pos ⟨used, valid⟩
  obtain ⟨addr, member, meets⟩ := holds cid i _ chosen inside value
  have map := kept.map_of_content used member
  have number := kept.lawful.unmap (t.cache.lineNumber addr)
  rw [map] at number
  rwa [DCache.unsplitAddress, number]

end Client

end Mgsim.Drisc
