import Mgsim.Drisc.Coherence

namespace Mgsim.Drisc
open Mgsim.Lib Mgsim.Mmu

/-- Some store of a list writes a byte. -/
def Written (lineSize : Nat) (queued : List Request) (a : Addr) : Prop :=
  ∃ w ∈ queued, (w.patch lineSize a).isSome = true

/-- The addresses of the reads of a list. -/
def readsOf (queued : List Request) : List Addr := (queued.filter fun w => !w.write).map Request.address

theorem readsOf_append (first second : List Request) : readsOf (first ++ second) = readsOf first ++ readsOf second := by
  rw [readsOf, List.filter_append, List.map_append]
  rfl

/-- A cache is a client of a memory with such bytes: every byte that it holds is that of the memory, unless a
store to it is still queued, and a line awaits each of the reads that the memory has
and each of those that are queued. -/
structure Tracked.Follows (t : Tracked) (sets lineSize : Nat) (view : Addr → Byte) (reads : List Addr)
    (queued : List Request) : Prop where
  cached : Cached sets t
  size : t.cache.lineSize = lineSize
  lines : ∀ w ∈ queued, IsLine lineSize w.address
  holds : t.Holds (fun _ => True) fun a b => Written lineSize queued a ∨ b = view a
  asks : t.Asks (reads ++ readsOf queued)

/-- A store that has left the queue in this cycle has written its bytes to the lines that await reads. -/
def Tracked.Passed (t : Tracked) (lineSize : Nat) (reads : List Addr) : Prop :=
  t.cache.outgoing.popped = true → ∀ w ∈ t.cache.outgoing.data.head?, ∀ addr ∈ reads, ∀ i < lineSize,
    t.Lacks addr i → w.patch lineSize (lineByte lineSize addr i) = none

/-- The line of a new request to read is a line address. -/
theorem Cached.isLine_request {sets : Nat} {t : Tracked} {use : Use} {lossless : Prop} {s' : System}
    (kept : Cached sets t) (step : SetStep t.system use lossless s') {request : Request}
    (sent : request ∈ use.requests) : request.write = false ∧ IsLine t.cache.lineSize request.address := by
  have line (pAddr : Addr) : IsLine t.cache.lineSize (t.cache.requestAddress pAddr) := by
    rw [DCache.requestAddress_eq kept.lawful]
    exact isLine_lineByte kept.power kept.lineSize.2 pAddr
  obtain ⟨_, lines, _, _⟩ := step
  cases use with
  | request cid reg addr =>
    cases List.mem_singleton.mp sent
    cases lines with
    | requested pAddr empty view => exact ⟨rfl, line pAddr⟩
  | resolve cid tlbData addr =>
    cases List.mem_singleton.mp sent
    cases lines with
    | resolved tlbData pAddr formed _ absent view => exact ⟨rfl, line pAddr⟩
  | keep | join | park | merge | bytes | finish | deliver => cases sent

/-- The bytes of memory are replaced by those of the stores that are still in the buffer. -/
theorem DCache.mergeWrites_spec (c : DCache) (addr : Addr) (data : Nat → Byte) (i : Nat) :
    c.mergeWrites addr data i = data i ∨
      ∃ w ∈ c.outgoing.data, w.write = true ∧ w.address = addr ∧ w.mask i = true := by
  unfold mergeWrites
  induction c.outgoing.data generalizing data with
  | nil => exact Or.inl rfl
  | cons w rest ih =>
    rw [List.foldl_cons]
    rcases ih _ with same | ⟨other, member, found⟩
    · rw [same]
      split
      · rename_i hit
        by_cases inMask : w.mask i = true
        · exact Or.inr ⟨w, List.mem_cons_self, hit.1, hit.2, inMask⟩
        · exact Or.inl (if_neg inMask)
      · exact Or.inl rfl
    · exact Or.inr ⟨other, List.mem_cons_of_mem _ member, found⟩

namespace Tracked.Follows
variable {sets lineSize : Nat} {view view' : Addr → Byte} {reads : List Addr} {queued rest : List Request}
  {t t' : Tracked} {e : Event}

theorem of_perm {reads' : List Addr} (kept : t.Follows sets lineSize view reads queued) (perm : reads.Perm reads') :
    t.Follows sets lineSize view reads' queued :=
  ⟨kept.cached, kept.size, kept.lines, kept.holds, kept.asks.of_perm (perm.append_right _)⟩

/-- The events of the processor. -/
theorem local_step (kept : t.Follows sets lineSize view reads t.cache.outgoing.contents)
    (passed : t.Passed lineSize reads) (isLocal : e.IsLocal = true) (allowed : SetGuard t e)
    (taken : t.step e = some t') : t'.Follows sets lineSize view reads t'.cache.outgoing.contents ∧
      t'.Passed lineSize reads ∧ ∀ addr ∈ reads, ∀ i, t'.Lacks addr i → t.Lacks addr i := by
  obtain ⟨cached, rfl, lines, holds, asks⟩ := kept
  have after := cached.step allowed taken
  obtain ⟨asked, lacks⟩ := cached.asks_local isLocal allowed taken asks
  have lacks' (addr : Addr) (member : addr ∈ reads) := lacks addr (List.mem_append_left _ member)
  have effect := cached.holds_local isLocal taken
  obtain ⟨s', moved, rfl⟩ := Option.map_eq_some_iff.mp taken
  have step := cached.toWaiting.setStep moved
  have passes (items : List Request)
      (gains : t.cache.outgoing.Gains (⟨s', t.contentAfter (t.system.use e)⟩ : Tracked).cache.outgoing items) :
      (⟨s', t.contentAfter (t.system.use e)⟩ : Tracked).Passed t.cache.lineSize reads := by
    intro popped w front addr member i inside missing
    obtain ⟨before, data⟩ := gains.front popped
    exact passed before w (data ▸ front) addr member i inside (lacks' addr member i missing)
  rcases effect with ⟨gains, still⟩ | ⟨request, write, line, quiet, gains, still⟩
  · have reading : readsOf (t.system.use e).requests = (t.system.use e).requests.map Request.address := by
      rw [readsOf, List.filter_eq_self.mpr fun w sent => by simp [(cached.isLine_request step sent).1]]
    refine ⟨⟨after, step.geometry.lineSize, fun w member => ?_, fun cid i b chosen inside value => ?_, ?_⟩, passes _ gains, lacks'⟩
    · rw [gains.contents] at member
      rcases List.mem_append.mp member with old | new
      · exact lines w old
      · exact (cached.isLine_request step new).2
    · obtain ⟨addr, member, meets⟩ := still _ _ holds cid i b chosen inside value
      refine ⟨addr, member, meets.imp_left ?_⟩
      rintro ⟨w, old, patch⟩
      exact ⟨w, gains.contents ▸ List.mem_append_left _ old, patch⟩
    · rw [gains.contents, readsOf_append, reading, ← List.append_assoc]
      exact asked
  · refine ⟨⟨after, step.geometry.lineSize, fun w member => ?_, ?_, ?_⟩, passes _ gains, lacks'⟩
    · rw [gains.contents] at member
      rcases List.mem_append.mp member with old | new
      · exact lines w old
      · exact List.mem_singleton.mp new ▸ line
    · refine still _ _ _ holds (fun a b meets _ => meets.imp_left ?_) fun a b patch => Or.inl ?_
      · rintro ⟨w, old, patch⟩
        exact ⟨w, gains.contents ▸ List.mem_append_left _ old, patch⟩
      · exact ⟨request, gains.contents ▸ List.mem_append_right _ List.mem_cons_self, by simp [patch]⟩
    · have none : readsOf [request] = [] := by simp [readsOf, write]
      rw [gains.contents, readsOf_append, none, List.append_nil]
      simpa [quiet] using asked

/-- A store is snooped. Its own request may then leave the queue. -/
theorem snooped (kept : t.Follows sets lineSize view reads queued) {request : Request} (rest : List Request) (store : request.write = true)
    (line : IsLine lineSize request.address) (allowed : SetGuard t (.snoop request.address request.data request.mask))
    (shown : ∀ a, view' a = (request.patch lineSize a).getD (view a))
    (left : ∀ w ∈ queued, w = request ∨ w ∈ rest) (remain : ∀ w ∈ rest, w ∈ queued)
    (same : readsOf rest = readsOf queued) :
    (t.snooped request.address request.data request.mask).Follows sets lineSize view' reads rest ∧
      ∀ addr ∈ reads, ∀ i < lineSize, (t.snooped request.address request.data request.mask).Lacks addr i →
        t.Lacks addr i ∧ request.patch lineSize (lineByte lineSize addr i) = none := by
  obtain ⟨cached, rfl, lines, holds, asks⟩ := kept
  have taken := t.step_snoop request.address request.data request.mask
  have geometry := (t.cache.onMemorySnooped_lines request.address request.data request.mask).1
  obtain ⟨asked, lacks⟩ := cached.asks_snooped store line allowed asks
  refine ⟨⟨cached.step allowed taken, geometry.lineSize, fun w member => lines w (remain w member), ?_, same ▸ asked⟩,
    fun addr member i inside missing => lacks addr (List.mem_append_left _ member) i inside missing⟩
  refine cached.holds_snooped holds store line allowed (fun a b meets untouched => ?_) fun _ _ _ a b patch => Or.inr ?_
  · rw [shown, untouched, Option.getD_none]
    refine meets.imp_left ?_
    rintro ⟨w, member, patch⟩
    rcases left w member with rfl | stays
    · rw [untouched] at patch
      cases patch
    · exact ⟨w, stays, patch⟩
  · rw [shown, patch, Option.getD_some]

theorem outgoing_snooped (request : Request) :
    (t.snooped request.address request.data request.mask).cache.outgoing = t.cache.outgoing := by
  simp only [Tracked.snooped, Tracked.cache, System.withCache, DCache.onMemorySnooped]
  split <;> rfl

/-- A queued request to read goes to the memory. -/
theorem asked {w : Request} (kept : t.Follows sets lineSize view reads (w :: rest)) (read : w.write = false) :
    t.Follows sets lineSize view (reads ++ [w.address]) rest := by
  have first : readsOf (w :: rest) = w.address :: readsOf rest := by simp [readsOf, read]
  have asks := kept.asks
  rw [first] at asks
  refine ⟨kept.cached, kept.size, fun w member => kept.lines w (List.mem_cons_of_mem _ member),
    fun cid i b chosen inside value => ?_, by simpa using asks⟩
  obtain ⟨addr, member, meets⟩ := kept.holds cid i b chosen inside value
  refine ⟨addr, member, meets.imp_left ?_⟩
  rintro ⟨other, queued, patch⟩
  rcases List.mem_cons.mp queued with rfl | later
  · rw [Request.patch_of_read read] at patch
    cases patch
  · exact ⟨other, later, patch⟩

/-- The request in front leaves the queue. -/
theorem sent (kept : t.Follows sets lineSize view reads queued) {w : Request} {queue : Buffer Request}
    (taken : t.cache.outgoing.take? = some (w, queue))
    (written : ∀ addr ∈ reads, ∀ i < lineSize, t.Lacks addr i → w.patch lineSize (lineByte lineSize addr i) = none) :
    ∃ t', t.step .outgoing = some t' ∧ t'.cache.outgoing = queue ∧ t'.Follows sets lineSize view reads queued ∧
      t'.Passed lineSize reads ∧ ∀ addr i, t'.Lacks addr i ↔ t.Lacks addr i := by
  obtain ⟨cached, rfl, lines, holds, asks⟩ := kept
  have moved : t.system.step .outgoing = some (t.system.withCache { t.cache with outgoing := queue }) := by
    simp only [System.step, show t.system.core.cache.outgoing.take? = some (w, queue) from taken, Option.map_some]
  have stepped : t.step .outgoing = some ⟨t.system.withCache { t.cache with outgoing := queue }, t.content⟩ := by
    rw [step, moved]
    rfl
  have allowed : SetGuard t .outgoing := trivial
  refine ⟨_, stepped, rfl, ⟨cached.step allowed stepped, rfl, lines, holds, asks.apart, asks.awaited⟩, ?_, fun addr i => Iff.rfl⟩
  intro _ first front
  have same : some first = some w := Eq.trans (Eq.symm front) (Buffer.head?_of_take? taken)
  exact Option.some.inj same ▸ written

/-- A read of the memory is completed, and the bus is free for it. -/
theorem completed {addr : Addr} (kept : t.Follows sets lineSize view (addr :: reads) t.cache.outgoing.contents)
    (passed : t.Passed lineSize (addr :: reads)) (line : IsLine lineSize addr) {data : Nat → Byte}
    (fresh : ∀ i < lineSize, t.Lacks addr i → data i = view (lineByte lineSize addr i))
    (accepted : (t.readCompleted addr data).1 = true) :
    (t.readCompleted addr data).2.Follows sets lineSize view reads (t.readCompleted addr data).2.cache.outgoing.contents ∧
      (t.readCompleted addr data).2.Passed lineSize reads ∧
      ∀ other ∈ reads, ∀ i, (t.readCompleted addr data).2.Lacks other i → t.Lacks other i := by
  obtain ⟨cached, rfl, lines, holds, asks⟩ := kept
  have bound := cached.lineSize.2
  have taken := t.step_memoryRead addr data
  obtain ⟨allowed, outgoing, asked, lacks, meets⟩ := cached.readCompleted asks accepted
  have moved : t.system.step (.memoryRead addr data) =
      some (t.system.withCache (t.cache.onMemoryReadCompleted addr data).2) := rfl
  have size : (t.readCompleted addr data).2.cache.lineSize = t.cache.lineSize :=
    (cached.toWaiting.setStep moved).geometry.lineSize
  have lacks' (other : Addr) (member : other ∈ reads) := lacks other (List.mem_append_left _ member)
  refine ⟨⟨cached.step allowed taken, size, ?_, ?_, ?_⟩, fun popped w front other member i inside missing => ?_, lacks'⟩
  · rwa [outgoing]
  · rw [outgoing]
    refine meets _ _ holds fun i inside missing => ?_
    rcases t.cache.mergeWrites_spec addr data i with same | ⟨w, member, store, own, inMask⟩
    · exact Or.inr (same.trans (fresh i inside missing))
    · have patch : (w.patch t.cache.lineSize (t.byteOf addr i)).isSome = true := by
        rw [byteOf, ← own, Request.patch_lineByte (own ▸ line) bound inside, Request.byte?, if_pos ⟨store, inMask⟩]
        rfl
      rcases Buffer.mem_data member with queued | ⟨popped, front⟩
      · exact Or.inl ⟨w, queued, patch⟩
      · have none := passed popped w front addr List.mem_cons_self i inside missing
        rw [byteOf, none] at patch
        cases patch
  · rwa [outgoing]
  · rw [outgoing] at popped front
    exact passed popped w front other (List.mem_cons_of_mem _ member) i inside (lacks' other member i missing)

end Tracked.Follows

section Initial
variable {config : CacheConfig} {core : Core}

theorem DCache.configure_spec {cache : DCache} (done : configure config = .ok cache) :
    (∃ k, cache.lineSize = 2 ^ k) ∧ ∃ maxSize, cache.outgoing = .empty maxSize 1 := by
  simp only [configure, bind, Except.bind] at done
  split at done
  · cases done
  rename_i selector made
  rw [create] at done
  split_ifs at done with assoc sets lineSize
  cases done
  rw [not_or, not_not] at lineSize
  exact ⟨(Nat.and_sub_one_eq_zero_iff_isPowerOfTwo lineSize.1).mp lineSize.2, _, rfl⟩

theorem Started.cached (started : Started config core) (fits : config.Fits) :
    Cached config.sets (.initial core) ∧ core.cache.lineSize = config.lineSize ∧
      core.cache.outgoing.contents = [] ∧ ∀ cid i, (core.cache.lines cid).byte? i = none := by
  obtain ⟨_, _, _, _, lineSize, lines, completed, _⟩ := DCache.configure_eq_ok started.cache
  obtain ⟨power, _, outgoing⟩ := DCache.configure_spec started.cache
  refine ⟨⟨started.sets fits, fun cid used => ?_, power⟩, lineSize, outgoing ▸ rfl, fun cid i => ?_⟩
  · rw [show (Tracked.initial core).cache.lines = fun _ => CacheLine.initial from lines] at used
    rcases used with full | busy
    · cases full
    · cases busy
  · rw [lines]
    rfl

/-- A new cache holds no byte, and asks for none. -/
theorem Started.follows (started : Started config core) (fits : config.Fits) (view : Addr → Byte) :
    (Tracked.initial core).Follows config.sets config.lineSize view [] core.cache.outgoing.contents := by
  obtain ⟨cached, lineSize, outgoing, bytes⟩ := started.cached fits
  rw [outgoing]
  refine ⟨cached, lineSize, nofun, fun cid i b _ _ value => ?_, List.nodup_nil, nofun⟩
  cases (bytes cid i).symm.trans value

end Initial

end Mgsim.Drisc
