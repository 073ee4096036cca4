import Mgsim.Drisc.MemoryClient
import Mgsim.Memory.Service

namespace Mgsim.Memory
open Mgsim.Lib Mgsim.Mmu Mgsim.Drisc

/-- The addresses that a client reads in a list of requests. -/
def readsIn (id : Nat) (items : List ClientRequest) : List Addr :=
  (items.filter fun x => x.client = id ∧ x.request.write = false).map fun x => x.request.address

section Reads
variable {id : Nat} {items : List ClientRequest} {x : ClientRequest} {store : Store}

theorem readsIn_append (first second : List ClientRequest) :
    readsIn id (first ++ second) = readsIn id first ++ readsIn id second := by
  rw [readsIn, List.filter_append, List.map_append]
  rfl

theorem mem_readsIn (member : x ∈ items) (read : x.request.write = false) : x.request.address ∈ readsIn x.client items :=
  List.mem_map_of_mem (List.mem_filter.mpr ⟨member, by simp [read]⟩)

theorem readsIn_of_write (write : x.request.write = true) : readsIn id [x] = [] := by
  simp [readsIn, write]

theorem readsIn_of_other (other : x.client ≠ id) : readsIn id [x] = [] := by
  simp [readsIn, other]

theorem readsIn_of_read (read : x.request.write = false) : readsIn x.client [x] = [x.request.address] := by
  simp [readsIn, read]

theorem readsIn_carriedOut : readsIn id [x.carriedOut store] = readsIn id [x] := by
  cases kind : x.request.write with
  | true => simp [ClientRequest.carriedOut, kind]
  | false => by_cases own : x.client = id <;> simp [readsIn, ClientRequest.carriedOut, kind, own]

end Reads

theorem Store.after_eq_overlay (store : Store) (lineSize : Nat) (request : Request) :
    store.after lineSize request = overlay [request.patch lineSize] store := by
  funext a
  cases kind : request.write with
  | true =>
    simp only [after, kind, if_true, write, overlay, Request.patch, Request.byte?, true_and, List.filterMap_cons,
      List.filterMap_nil]
    generalize (a - request.address).toNat = offset
    by_cases inside : offset < lineSize
    · by_cases inMask : request.mask offset = true <;> simp [inside, inMask]
    · simp [inside]
  | false => simp [after, kind, overlay, Request.patch_of_read kind]

theorem storesTo_append (lineSize : Nat) (a : Addr) (first second : List Pending) :
    storesTo lineSize a (first ++ second) = storesTo lineSize a first ++ storesTo lineSize a second := by
  rw [storesTo, List.filter_append, List.map_append]
  rfl

theorem storesTo_eq_nil {lineSize : Nat} {a : Addr} {items : List Pending}
    (untouched : ∀ z ∈ items, z.request.patch lineSize a = none) : storesTo lineSize a items = [] := by
  rw [storesTo, List.filter_eq_nil_iff.mpr fun z member => by simp [untouched z member]]
  rfl

namespace FlatSystem
variable {s after : FlatSystem}

theorem deliver_setMemory {answer : Answer} (done : s.deliver answer = some after) (memory : FlatMemory) :
    after.memory = s.memory ∧ after.now = s.now ∧
      ({ s with memory := memory }).deliver answer = some { after with memory := memory } := by
  cases answer with
  | readCompleted id addr data =>
    obtain ⟨client, called, rfl⟩ := Option.map_eq_some_iff.mp done
    refine ⟨rfl, rfl, ?_⟩
    simp only [deliver, called, Option.map_some]
    rfl
  | writeCompleted id wid =>
    obtain ⟨client, called, rfl⟩ := Option.map_eq_some_iff.mp done
    refine ⟨rfl, rfl, ?_⟩
    simp only [deliver, called, Option.map_some]
    rfl

/-- A run of a process is finished when it is committed and the called client has taken the answer. -/
theorem runProcess_cases {process : MemoryProcess} {phase : Phase} {ran : Ran}
    (done : s.runProcess process phase = some ran) : ∃ out, s.memory.run s.now process = some out ∧
      (ran = ⟨out.serves, false, { s with memory := out.left }⟩ ∨
        out.success = true ∧ ∃ after : FlatSystem, ran = ⟨out.serves, true, { after with memory := out.committed }⟩ ∧
          (out.answer = none ∧ after = s ∨ ∃ answer, out.answer = some answer ∧ s.deliver answer = some after)) := by
  obtain ⟨out, runs, rfl⟩ := Option.map_eq_some_iff.mp done
  refine ⟨out, runs, ?_⟩
  dsimp only
  split
  · rename_i after called
    split
    · rename_i committed
      refine Or.inr ⟨committed.2, after, rfl, ?_⟩
      split at called
      · rename_i none
        exact Or.inl ⟨none, (Option.some.inj called).symm⟩
      · rename_i answer given
        exact Or.inr ⟨answer, given, called⟩
    · exact Or.inl rfl
  · exact Or.inl rfl

end FlatSystem

namespace Recorded

/-- The bytes of memory once all accepted stores have been carried out. -/
def view (r : Recorded) (lineSize : Nat) : Store :=
  overlay (r.pending.map fun x => x.request.patch lineSize) r.system.memory.store

/-- The reads that the memory has for a client. -/
def reads (r : Recorded) (answered : List ClientRequest) (id : Nat) : List Addr :=
  readsIn id (answered ++ r.pending.map Pending.toClientRequest)

/-- A request is carried out, which leaves some requests in the queues. -/
def serve (r : Recorded) (memory : FlatMemory) (x : Pending) (left : List Pending) : Recorded :=
  { r with
    system := { r.system with memory := memory }
    pending := left
    applied := r.applied ++ [x].filter fun x => x.request.write }

/-- The memory accepts a request. -/
def enqueue (r : Recorded) (clients : Nat → FlatClient) (memory : FlatMemory) (item : Pending) : Recorded :=
  { r with
    system := { r.system with clients := clients, memory := memory }
    pending := r.pending ++ [item]
    snooped := if item.request.write then r.snooped ++ [item] else r.snooped
    accepted := r.accepted + 1 }

/-- The requests before a request write none of the bytes that it is about. -/
def Settled (r : Recorded) (lineSize : Nat) (x : Pending) (before : List Pending) : Prop :=
  ∀ z ∈ before, ∀ i < lineSize, (x.request.byte? i).isSome = true ∨
    x.request.write = false ∧ (r.system.clients x.client).core.Lacks x.request.address i →
      z.request.patch lineSize (lineByte lineSize x.request.address i) = none

/-- The caches follow the memory, with the requests that it has carried out and not answered. A byte that a client
does not have yet is not written by the stores that were accepted after its read. -/
structure Coherent (r : Recorded) (n lineSize : Nat) (sets : Nat → Nat) (answered : List ClientRequest) : Prop where
  count : r.system.numClients = n
  clients : ∀ id < n, (r.system.clients id).core.Follows (sets id) lineSize (r.view lineSize) (r.reads answered id)
    (r.system.cache id).outgoing.contents
  passed : ∀ id < n, (r.system.clients id).core.Passed lineSize (r.reads answered id)
  owned : ∀ x ∈ r.pending, x.client < n
  lines : ∀ x ∈ answered ++ r.pending.map Pending.toClientRequest, IsLine lineSize x.request.address
  fresh : r.pending.Pairwise fun x z => x.request.write = false → ∀ i < lineSize,
    (r.system.clients x.client).core.Lacks x.request.address i →
      z.request.patch lineSize (lineByte lineSize x.request.address i) = none
  data : ∀ y ∈ answered, y.client < n → y.request.write = false → ∀ i < lineSize,
    (r.system.clients y.client).core.Lacks y.request.address i →
      y.request.data i = r.view lineSize (lineByte lineSize y.request.address i)
  order : ∀ a, (storesTo lineSize a (r.applied ++ r.pending)).destutter (· ≠ ·) = storesTo lineSize a r.snooped
  numbers : ∀ x ∈ r.applied ++ r.pending, x.number < r.accepted

namespace Coherent
variable {r : Recorded} {n lineSize : Nat} {sets : Nat → Nat} {answered : List ClientRequest}

theorem mem_reads {x : ClientRequest} (member : x ∈ answered ++ r.pending.map Pending.toClientRequest)
    (read : x.request.write = false) : x.request.address ∈ r.reads answered x.client := mem_readsIn member read

/-- One client changes, and may have taken an answer. -/
theorem setClient (kept : r.Coherent n lineSize sets answered) {id : Nat} {client : FlatClient}
    {left : List ClientRequest} (sub : left.Sublist answered) (others : ∀ other ≠ id, readsIn other left = readsIn other answered)
    (follows : id < n → client.core.Follows (sets id) lineSize (r.view lineSize) (r.reads left id)
      client.core.cache.outgoing.contents ∧ client.core.Passed lineSize (r.reads left id) ∧
      ∀ addr ∈ r.reads left id, ∀ i, client.core.Lacks addr i → (r.system.clients id).core.Lacks addr i) :
    ({ r with system := r.system.setClient id client }).Coherent n lineSize sets left := by
  have own : (r.system.setClient id client).clients id = client := Function.update_self ..
  have other {id' : Nat} (different : id' ≠ id) : (r.system.setClient id client).clients id' = r.system.clients id' :=
    Function.update_of_ne different ..
  have reads {id' : Nat} (different : id' ≠ id) : r.reads left id' = r.reads answered id' := by
    rw [Recorded.reads, readsIn_append, others id' different, ← readsIn_append]
    rfl
  have lacks {x : ClientRequest} (member : x ∈ left ++ r.pending.map Pending.toClientRequest) (inside : x.client < n)
      (read : x.request.write = false) {i : Nat}
      (missing : ((r.system.setClient id client).clients x.client).core.Lacks x.request.address i) :
      (r.system.clients x.client).core.Lacks x.request.address i := by
    by_cases same : x.client = id
    · have asked : x.request.address ∈ r.reads left x.client := mem_readsIn member read
      rw [same] at inside missing asked ⊢
      rw [own] at missing
      exact (follows inside).2.2 _ asked i missing
    · rwa [other same] at missing
  refine ⟨kept.count, fun id' inside => ?_, fun id' inside => ?_, kept.owned, fun x member => ?_, ?_,
    fun y member inside read i within missing => ?_, kept.order, kept.numbers⟩
  · by_cases same : id' = id
    · subst same
      simp only [FlatSystem.cache, own]
      exact (follows inside).1
    · simp only [FlatSystem.cache, other same]
      exact reads same ▸ kept.clients id' inside
  · by_cases same : id' = id
    · subst same
      simp only [own]
      exact (follows inside).2.1
    · simp only [other same]
      exact reads same ▸ kept.passed id' inside
  · refine kept.lines x ?_
    rcases List.mem_append.mp member with done | waits
    · exact List.mem_append_left _ (sub.subset done)
    · exact List.mem_append_right _ waits
  · refine kept.fresh.imp_of_mem fun {x z} member _ untouched read i within missing => ?_
    have inMemory := List.mem_append_right left (List.mem_map_of_mem (f := Pending.toClientRequest) member)
    exact untouched read i within (lacks inMemory (kept.owned x member) read missing)
  · exact kept.data y (sub.subset member) inside read i within (lacks (List.mem_append_left _ member) inside read missing)

/-- Bytes of a line that a request does not touch. -/
theorem untouched_of_ne (power : ∃ k, lineSize = 2 ^ k)
    (bound : lineSize < 2 ^ 64) {x z : Request} (line : IsLine lineSize x.address) (line' : IsLine lineSize z.address)
    (different : z.write = true → z.address ≠ x.address) {i : Nat} (inside : i < lineSize) :
    z.patch lineSize (lineByte lineSize x.address i) = none := by
  cases patch : z.patch lineSize (lineByte lineSize x.address i) with
  | none => rfl
  | some b =>
    obtain ⟨j, within, same, value⟩ := Request.patch_eq_some line' patch
    have write : z.write = true := by
      cases kind : z.write with
      | true => rfl
      | false => simp [Request.byte?, kind] at value
    have numbers := (lineByte_inj power bound inside within same).1
    exact absurd (line'.eq_of_number line numbers.symm) (different write)

/-- The memory changes and still shows the same bytes. -/
theorem setMemory (kept : r.Coherent n lineSize sets answered) {memory : FlatMemory} {now : Nat}
    (shown : overlay (r.pending.map fun x => x.request.patch lineSize) memory.store = r.view lineSize) :
    ({ r with system := { r.system with memory := memory, now := now } }).Coherent n lineSize sets answered := by
  have view : ({ r with system := { r.system with memory := memory, now := now } }).view lineSize = r.view lineSize := shown
  exact ⟨kept.count, fun id inside => view ▸ kept.clients id inside, kept.passed, kept.owned, kept.lines, kept.fresh,
    fun y member inside read i within missing => view ▸ kept.data y member inside read i within missing, kept.order,
    kept.numbers⟩

section Serve
variable {x : Pending} {before after : List Pending} {memory : FlatMemory}

/-- A store of a request is above those that are carried out later. -/
theorem before_untouched (kept : r.Coherent n lineSize sets answered) (split : r.pending = before ++ x :: after)
    (settled : r.Settled lineSize x before) {a : Addr} {b : Byte}
    (patch : x.request.patch lineSize a = some b) : ∀ z ∈ before, z.request.patch lineSize a = none := by
  have line : IsLine lineSize x.request.address := kept.lines x.toClientRequest (List.mem_append_right _
    (List.mem_map_of_mem (split ▸ List.mem_append_right _ List.mem_cons_self)))
  obtain ⟨i, inside, rfl, value⟩ := Request.patch_eq_some line patch
  exact fun z member => settled z member i inside (Or.inl (by simp [value]))

/-- The stores to a byte, when the store of a request is applied before it is taken from the queue or then. -/
theorem order_served (kept : r.Coherent n lineSize sets answered) (split : r.pending = before ++ x :: after)
    (settled : r.Settled lineSize x before) {left : List Pending}
    (taken : left = r.pending ∨ left = before ++ after) (a : Addr) :
    (storesTo lineSize a (r.applied ++ [x].filter (fun x => x.request.write) ++ left)).destutter (· ≠ ·) =
      storesTo lineSize a r.snooped := by
  rw [← kept.order a, split]
  simp only [storesTo_append]
  have single : storesTo lineSize a ([x].filter fun x => x.request.write) = storesTo lineSize a [x] := by
    cases kind : x.request.write with
    | true => simp [kind]
    | false => simp [storesTo, kind, Request.patch_of_read]
  have cons (items : List Pending) : storesTo lineSize a (x :: items) = storesTo lineSize a [x] ++ storesTo lineSize a items :=
    storesTo_append lineSize a [x] items
  cases patch : x.request.patch lineSize a with
  | none =>
    have none : storesTo lineSize a [x] = [] := storesTo_eq_nil (by simpa using patch)
    rcases taken with rfl | rfl <;> simp [single, none, split, storesTo_append, cons]
  | some b =>
    have ahead := storesTo_eq_nil (kept.before_untouched split settled patch)
    have one : storesTo lineSize a [x] = [x.number] := by simp [storesTo, patch]
    rcases taken with rfl | rfl
    · rw [split, storesTo_append, cons, single, ahead, one]
      simpa using destutter_repeat (storesTo lineSize a r.applied) (storesTo lineSize a after) x.number
    · rw [storesTo_append, cons, single, ahead, one]
      simp

/-- A store is applied, and its request stays in the queue. -/
theorem served (kept : r.Coherent n lineSize sets answered) (split : r.pending = before ++ x :: after)
    (settled : r.Settled lineSize x before)
    (store : memory.store = r.system.memory.store.after lineSize x.request) :
    (r.serve memory x r.pending).Coherent n lineSize sets answered := by
  have shown : overlay (r.pending.map fun x => x.request.patch lineSize) memory.store = r.view lineSize := by
    rw [Recorded.view, store, Store.after_eq_overlay, split, List.map_append, List.map_cons]
    exact overlay_settle_again
  have still : ({ r with system := { r.system with memory := memory } } : Recorded).Coherent n lineSize sets answered :=
    kept.setMemory shown
  refine ⟨still.count, still.clients, still.passed, still.owned, still.lines, still.fresh, still.data,
    kept.order_served split settled (Or.inl rfl), fun z member => ?_⟩
  have inside : x ∈ r.pending := split ▸ List.mem_append_right _ List.mem_cons_self
  replace member : z ∈ (r.applied ++ [x].filter fun x => x.request.write) ++ r.pending := member
  simp only [List.mem_append, List.mem_filter, List.mem_singleton] at member
  rcases member with (old | ⟨rfl, _⟩) | waits
  · exact kept.numbers z (List.mem_append_left _ old)
  · exact kept.numbers z (List.mem_append_right _ inside)
  · exact kept.numbers z (List.mem_append_right _ waits)

/-- A request is carried out, and waits to be answered. -/
theorem carriedOut (kept : r.Coherent n lineSize sets answered) (split : r.pending = before ++ x :: after)
    (settled : r.Settled lineSize x before)
    (store : memory.store = r.system.memory.store.after lineSize x.request) :
    (r.serve memory x (before ++ after)).Coherent n lineSize sets
      (answered ++ [x.toClientRequest.carriedOut r.system.memory.store]) := by
  have applied := kept.served split settled store
  have inside : x ∈ r.pending := split ▸ List.mem_append_right _ List.mem_cons_self
  have sub : (before ++ after).Sublist r.pending :=
    split ▸ (List.sublist_cons_self x after).append_left before
  have view : (r.serve memory x (before ++ after)).view lineSize = r.view lineSize := by
    rw [Recorded.view, Recorded.view, serve, store, Store.after_eq_overlay, split, List.map_append, List.map_append, List.map_cons]
    refine overlay_settle fun k b patch other member => ?_
    obtain ⟨z, waits, rfl⟩ := List.mem_map.mp member
    exact kept.before_untouched split settled patch z waits
  have reads (id : Nat) : (r.reads answered id).Perm ((r.serve memory x (before ++ after)).reads
      (answered ++ [x.toClientRequest.carriedOut r.system.memory.store]) id) := by
    have cons (items : List ClientRequest) :
        readsIn id (x.toClientRequest :: items) = readsIn id [x.toClientRequest] ++ readsIn id items := readsIn_append [_] items
    rw [Recorded.reads, Recorded.reads, serve, split, List.map_append, List.map_cons, readsIn_append, readsIn_append, cons, readsIn_append,
      readsIn_append answered, readsIn_carriedOut, List.map_append, readsIn_append, List.append_assoc]
    exact (List.perm_append_comm_assoc _ _ _).append_left _
  refine ⟨kept.count, fun id within => view ▸ (kept.clients id within).of_perm (reads id), ?_,
    fun z member => kept.owned z (sub.subset member), fun z member => ?_, kept.fresh.sublist sub, ?_,
    kept.order_served split settled (Or.inr rfl), fun z member => applied.numbers z ?_⟩
  · intro id within popped w front addr member
    exact kept.passed id within popped w front addr ((reads id).mem_iff.mpr member)
  · have line := kept.lines x.toClientRequest (List.mem_append_right _ (List.mem_map_of_mem inside))
    simp only [List.mem_append, List.mem_singleton] at member
    rcases member with (old | rfl) | waits
    · exact kept.lines z (List.mem_append_left _ old)
    · rwa [ClientRequest.address_carriedOut]
    · exact kept.lines z (List.mem_append_right _ (List.map_subset _ sub.subset waits))
  · intro y member within read i inLine missing
    rw [view]
    rcases List.mem_append.mp member with old | new
    · exact kept.data y old within read i inLine missing
    · cases List.mem_singleton.mp new
      have reads : x.request.write = false := ClientRequest.write_carriedOut.symm.trans read
      rw [ClientRequest.client_carriedOut, ClientRequest.address_carriedOut] at missing
      have line := kept.lines x.toClientRequest (List.mem_append_right _ (List.mem_map_of_mem inside))
      have later : ∀ z ∈ after, z.request.patch lineSize (lineByte lineSize x.request.address i) = none := by
        have fresh := kept.fresh
        rw [split] at fresh
        exact fun z member => (List.pairwise_cons.mp (List.pairwise_append.mp fresh).2.1).1 z member reads i inLine missing
      have untouched : ∀ patch ∈ r.pending.map fun x => x.request.patch lineSize,
          patch (lineByte lineSize x.request.address i) = none := by
        intro patch listed
        obtain ⟨z, waits, rfl⟩ := List.mem_map.mp listed
        rw [split, List.mem_append, List.mem_cons] at waits
        rcases waits with earlier | rfl | next
        · exact settled z earlier i inLine (Or.inr ⟨reads, missing⟩)
        · exact Request.patch_of_read reads _
        · exact later z next
      rw [ClientRequest.address_carriedOut, Recorded.view, overlay_untouched untouched, ← line.add]
      exact ClientRequest.data_carriedOut reads i
  · rcases List.mem_append.mp member with old | waits
    · exact List.mem_append_left _ old
    · exact List.mem_append_right _ (sub.subset waits)

end Serve

theorem readsIn_answered (y : ClientRequest) (before after rest : List ClientRequest) (id : Nat) : readsIn id (before ++ y :: after ++ rest) =
    readsIn id before ++ (readsIn id [y] ++ readsIn id (after ++ rest)) := by
  rw [List.append_assoc, readsIn_append, List.cons_append]
  exact congrArg _ (readsIn_append [y] (after ++ rest))

/-- An answer is given to a client. -/
theorem answered_step {y : ClientRequest} {before after : List ClientRequest}
    (kept : r.Coherent n lineSize sets (before ++ y :: after)) {system : FlatSystem}
    (done : r.system.deliver y.answer = some system) :
    ({ r with system := system }).Coherent n lineSize sets (before ++ after) := by
  have sub : (before ++ after).Sublist (before ++ y :: after) := (List.sublist_cons_self y after).append_left before
  have others (id : Nat) (none : readsIn id [y] = []) : readsIn id (before ++ after) = readsIn id (before ++ y :: after) := by
    have split := readsIn_answered y before after [] id
    rw [List.append_nil, List.append_nil, none, List.nil_append] at split
    rw [split, readsIn_append]
  cases kind : y.request.write with
  | true =>
    simp only [ClientRequest.answer, kind, if_true, FlatSystem.deliver] at done
    obtain ⟨client, called, rfl⟩ := Option.map_eq_some_iff.mp done
    have core : client.core = (r.system.clients y.client).core := by
      unfold FlatClient.onMemoryWriteCompleted at called
      split at called
      · obtain ⟨_, _, rfl⟩ := Option.map_eq_some_iff.mp called
        rfl
      · cases called
        rfl
    have reads : r.reads (before ++ after) y.client = r.reads (before ++ y :: after) y.client := by
      rw [Recorded.reads, readsIn_append, others _ (readsIn_of_write kind), ← readsIn_append]
      rfl
    refine kept.setClient sub (fun other _ => others other (readsIn_of_write kind)) fun inside => ?_
    rw [core, reads]
    exact ⟨kept.clients _ inside, kept.passed _ inside, fun _ _ _ missing => missing⟩
  | false =>
    simp only [ClientRequest.answer, kind, Bool.false_eq_true, if_false, FlatSystem.deliver] at done
    obtain ⟨client, called, rfl⟩ := Option.map_eq_some_iff.mp done
    unfold FlatClient.onMemoryReadCompleted at called
    dsimp only at called
    split at called
    · rename_i accepted
      cases called
      refine kept.setClient sub (fun other different => others other (readsIn_of_other (Ne.symm different)))
        fun inside => ?_
      have perm : (r.reads (before ++ y :: after) y.client).Perm (y.request.address :: r.reads (before ++ after) y.client) := by
        rw [Recorded.reads, Recorded.reads, readsIn_answered, readsIn_of_read kind, List.append_assoc before,
          readsIn_append before]
        exact List.perm_middle
      have line := kept.lines y (by simp)
      obtain ⟨follows, passed, lacks⟩ := ((kept.clients _ inside).of_perm perm).completed
        (fun popped w front addr member => kept.passed _ inside popped w front addr (perm.mem_iff.mpr member)) line
        (kept.data y (by simp) inside kind) accepted
      exact ⟨follows, passed, lacks⟩
    · cases called

section Enqueue
variable {item : Pending} {clients : Nat → FlatClient} {memory : FlatMemory}

theorem order_enqueued (kept : r.Coherent n lineSize sets answered) (number : item.number = r.accepted) (a : Addr) :
    (storesTo lineSize a (r.applied ++ (r.pending ++ [item]))).destutter (· ≠ ·) =
      storesTo lineSize a (if item.request.write then r.snooped ++ [item] else r.snooped) := by
  have late : item.number ∉ storesTo lineSize a (r.applied ++ r.pending) := by
    intro member
    obtain ⟨x, listed, same⟩ := List.mem_map.mp member
    have early := kept.numbers x (List.mem_filter.mp listed).1
    omega
  rw [← List.append_assoc, storesTo_append]
  cases patch : item.request.patch lineSize a with
  | none =>
    have none : storesTo lineSize a [item] = [] := storesTo_eq_nil (by simpa using patch)
    rw [none, List.append_nil, kept.order a]
    split
    · rw [storesTo_append, none, List.append_nil]
    · rfl
  | some b =>
    have one : storesTo lineSize a [item] = [item.number] := by simp [storesTo, patch]
    have write : item.request.write = true := by
      cases kind : item.request.write with
      | true => rfl
      | false => simp [Request.patch_of_read kind] at patch
    rw [if_pos write, storesTo_append lineSize a r.snooped, one, destutter_append_fresh late, kept.order a]

/-- The memory accepts a request, which all clients have seen. -/
theorem enqueued (kept : r.Coherent n lineSize sets answered) (number : item.number = r.accepted)
    (owner : item.client < n) (line : IsLine lineSize item.request.address)
    (store : memory.store = r.system.memory.store)
    (seen : ∀ id < n, (clients id).core.Follows (sets id) lineSize
        (fun a => (item.request.patch lineSize a).getD (r.view lineSize a))
        (r.reads answered id ++ readsIn id [item.toClientRequest]) (clients id).core.cache.outgoing.contents ∧
      (clients id).core.Passed lineSize (r.reads answered id ++ readsIn id [item.toClientRequest]) ∧
      ∀ addr ∈ r.reads answered id, ∀ i < lineSize, (clients id).core.Lacks addr i →
        (r.system.clients id).core.Lacks addr i ∧ item.request.patch lineSize (lineByte lineSize addr i) = none) :
    (r.enqueue clients memory item).Coherent n lineSize sets answered := by
  have view : (r.enqueue clients memory item).view lineSize =
      fun a => (item.request.patch lineSize a).getD (r.view lineSize a) := by
    funext a
    rw [Recorded.view, enqueue, List.map_append, List.map_singleton, overlay_append_one, store]
    rfl
  have reads (id : Nat) : (r.enqueue clients memory item).reads answered id =
      r.reads answered id ++ readsIn id [item.toClientRequest] := by
    rw [Recorded.reads, enqueue, List.map_append, ← List.append_assoc, readsIn_append]
    rfl
  have inMemory {x : Pending} (member : x ∈ r.pending) :=
    List.mem_append_right answered (List.mem_map_of_mem (f := Pending.toClientRequest) member)
  refine ⟨kept.count, fun id inside => ?_, fun id inside => ?_, fun x member => ?_, fun x member => ?_, ?_, ?_,
    kept.order_enqueued number, fun x member => ?_⟩
  · rw [view, reads]
    exact (seen id inside).1
  · rw [reads]
    exact (seen id inside).2.1
  · rcases List.mem_append.mp member with old | new
    · exact kept.owned x old
    · exact List.mem_singleton.mp new ▸ owner
  · rw [enqueue, List.map_append, ← List.append_assoc, List.mem_append] at member
    rcases member with old | new
    · exact kept.lines x old
    · exact List.mem_singleton.mp new ▸ line
  · refine List.pairwise_append.mpr ⟨?_, List.pairwise_singleton .., fun x member z new read i within missing => ?_⟩
    · refine kept.fresh.imp_of_mem fun {x z} member _ untouched read i within missing => ?_
      exact untouched read i within
        ((seen _ (kept.owned x member)).2.2 _ (mem_reads (inMemory member) read) i within missing).1
    · cases List.mem_singleton.mp new
      exact ((seen _ (kept.owned x member)).2.2 _ (mem_reads (inMemory member) read) i within missing).2
  · intro y member inside read i within missing
    obtain ⟨before, untouched⟩ := (seen _ inside).2.2 _ (mem_reads (List.mem_append_left _ member) read) i within missing
    rw [view]
    dsimp only
    rw [untouched]
    exact kept.data y member inside read i within before
  · rw [enqueue, ← List.append_assoc, List.mem_append] at member
    rcases member with old | new
    · exact Nat.lt_succ_of_lt (kept.numbers x old)
    · rw [List.mem_singleton.mp new, number]
      exact Nat.lt_succ_self _

end Enqueue

end Coherent

/-- What holds in every run: the caches follow the memory, whose queues hold the requests. -/
structure Kept (r : Recorded) (n lineSize : Nat) (sets : Nat → Nat) (answered : List ClientRequest) : Prop
    extends r.Coherent n lineSize sets answered where
  size : r.system.memory.lineSize = lineSize
  ports : r.system.memory.HasPorts n
  queues : r.system.memory.Represents r.pending answered

namespace Kept
variable {r r' : Recorded} {n lineSize : Nat} {sets : Nat → Nat} {answered : List ClientRequest}

theorem client_step (kept : r.Kept n lineSize sets answered) {id : Nat} {e : Event} (allowed : r.Guard (.client id e))
    (taken : r.step (.client id e) = some r') : r'.Kept n lineSize sets answered := by
  simp only [step] at taken
  split at taken
  · rename_i known
    obtain ⟨client, moved, rfl⟩ := Option.map_eq_some_iff.mp taken
    obtain ⟨core, stepped, rfl⟩ := Option.map_eq_some_iff.mp moved
    have inside : id < n := kept.count ▸ known.1
    have after := (kept.clients id inside).local_step (kept.passed id inside) known.2 allowed stepped
    exact ⟨kept.toCoherent.setClient (.refl _) (fun _ _ => rfl) fun _ => after, kept.size, kept.ports, kept.queues⟩
  · cases taken

theorem writeResponse_step (kept : r.Kept n lineSize sets answered) {id : Nat}
    (taken : r.step (.writeResponse id) = some r') : r'.Kept n lineSize sets answered := by
  obtain ⟨system, responds, rfl⟩ := Option.map_eq_some_iff.mp taken
  obtain ⟨⟨_, queue⟩, _, rfl⟩ := Option.map_eq_some_iff.mp responds
  exact ⟨kept.toCoherent.setClient (.refl _) (fun _ _ => rfl) fun inside =>
    ⟨kept.clients id inside, kept.passed id inside, fun _ _ _ missing => missing⟩, kept.size, kept.ports, kept.queues⟩

theorem endCycle_step (kept : r.Kept n lineSize sets answered) (taken : r.step .endCycle = some r') :
    r'.Kept n lineSize sets answered := by
  cases taken
  obtain ⟨⟨config, store⟩, queues⟩ := FlatMemory.update_spec kept.queues
  have shown : overlay (r.pending.map fun x => x.request.patch lineSize) r.system.memory.update.store =
      r.view lineSize := by
    rw [store]
    rfl
  exact ⟨kept.toCoherent.setMemory shown, config.lineSize.trans kept.size, config.hasPorts kept.ports, queues⟩

theorem write_sent (kept : r.Kept n lineSize sets answered) {id : Nat} (inside : id < n) (allowed : r.Guard (.send id))
    {request : Request} {queue : Buffer Request} {memory : FlatMemory} {client : FlatClient}
    (front : (r.system.cache id).outgoing.take? = some (request, queue)) (write : request.write = true)
    (accepted : r.system.memory.addRequest r.system.now id request = some memory)
    (moved : ((r.system.snoop request).clients id).step .outgoing = some client) :
    (r.enqueue (Function.update (r.system.snoop request).clients id client) memory
      ⟨⟨id, request⟩, r.accepted⟩).Kept n lineSize sets answered := by
  have contents := (Buffer.take?_eq_some front).1
  have line : IsLine lineSize request.address :=
    (kept.clients id inside).lines request (contents ▸ List.mem_cons_self)
  have sent : sentRequest request = request := if_pos write
  obtain ⟨⟨config, store⟩, queues⟩ := FlatMemory.addRequest_spec request r.accepted kept.queues
    (sent.symm ▸ accepted)
  have reads (id' : Nat) : readsIn id' [(⟨id, request⟩ : ClientRequest)] = [] := readsIn_of_write write
  have found : r.system.sends id = some request := by
    rw [FlatSystem.sends, front]
    rfl
  have guard {id' : Nat} (inside' : id' < n) := allowed request found write id' (kept.count.symm ▸ inside')
  have snooped {id' : Nat} (inside' : id' < n) : (r.system.snoop request).clients id' = { r.system.clients id' with
      core := (r.system.clients id').core.snooped request.address request.data request.mask } :=
    if_pos (kept.count.symm ▸ inside')
  refine ⟨kept.toCoherent.enqueued rfl inside line store fun id' inside' => ?_, config.lineSize.trans kept.size,
    config.hasPorts kept.ports, queues⟩
  rw [reads, List.append_nil]
  have own := kept.clients id' inside'
  by_cases same : id' = id
  · subst same
    rw [FlatSystem.cache] at contents
    rw [FlatSystem.cache, contents] at own
    rw [snooped inside] at moved
    obtain ⟨core, stepped, rfl⟩ := Option.map_eq_some_iff.mp moved
    obtain ⟨follows, lacks⟩ := own.snooped queue.contents write line (guard inside) (fun _ => rfl)
      (fun w member => List.mem_cons.mp member) (fun w member => List.mem_cons_of_mem _ member) (by simp [readsOf, write])
    have taken := (congrArg Buffer.take? (Tracked.Follows.outgoing_snooped request)).trans front
    obtain ⟨core', stepped', outgoing, after, passed, same⟩ := follows.sent taken fun addr member i within missing =>
      (lacks addr member i within missing).2
    cases Option.some.inj (stepped.symm.trans stepped')
    rw [Function.update_self]
    refine ⟨?_, passed, fun addr member i within missing => lacks addr member i within ((same addr i).mp missing)⟩
    rw [outgoing]
    exact after
  · rw [Function.update_of_ne same, snooped inside']
    obtain ⟨follows, lacks⟩ := own.snooped _ write line (guard inside') (fun _ => rfl) (fun w member => Or.inr member)
      (fun w member => member) rfl
    have outgoing := Tracked.Follows.outgoing_snooped (t := (r.system.clients id').core) request
    refine ⟨?_, ?_, lacks⟩
    · rw [outgoing]
      exact follows
    · intro popped w head addr member i within missing
      rw [outgoing] at popped head
      exact kept.passed id' inside' popped w head addr member i within (lacks addr member i within missing).1

theorem read_sent (kept : r.Kept n lineSize sets answered) {id : Nat} (inside : id < n)
    {request : Request} {queue : Buffer Request} {memory : FlatMemory} {client : FlatClient}
    (front : (r.system.cache id).outgoing.take? = some (request, queue)) (read : request.write = false)
    (accepted : r.system.memory.addRequest r.system.now id (readRequest request.address) = some memory)
    (moved : (r.system.clients id).step .outgoing = some client) :
    (r.enqueue (Function.update r.system.clients id client) memory
      ⟨⟨id, request⟩, r.accepted⟩).Kept n lineSize sets answered := by
  have contents := (Buffer.take?_eq_some front).1
  have line : IsLine lineSize request.address :=
    (kept.clients id inside).lines request (contents ▸ List.mem_cons_self)
  have sent : sentRequest request = readRequest request.address := if_neg (by simp [read])
  obtain ⟨⟨config, store⟩, queues⟩ := FlatMemory.addRequest_spec request r.accepted kept.queues
    (sent.symm ▸ accepted)
  have untouched (a : Addr) : request.patch lineSize a = none := Request.patch_of_read read a
  have shown : (fun a => (request.patch lineSize a).getD (r.view lineSize a)) = r.view lineSize := by
    funext a
    rw [untouched, Option.getD_none]
  refine ⟨kept.toCoherent.enqueued rfl inside line store fun id' inside' => ?_, config.lineSize.trans kept.size,
    config.hasPorts kept.ports, queues⟩
  rw [shown]
  have own := kept.clients id' inside'
  by_cases same : id' = id
  · subst same
    rw [FlatSystem.cache] at contents
    rw [FlatSystem.cache, contents] at own
    obtain ⟨core, stepped, rfl⟩ := Option.map_eq_some_iff.mp moved
    obtain ⟨core', stepped', outgoing, after, passed, same⟩ := (own.asked read).sent front fun addr _ i _ _ => untouched _
    cases Option.some.inj (stepped.symm.trans stepped')
    rw [Function.update_self, readsIn_of_read (x := ⟨id', request⟩) read]
    refine ⟨?_, passed, fun addr _ i _ missing => ⟨(same addr i).mp missing, untouched _⟩⟩
    rw [outgoing]
    exact after
  · rw [Function.update_of_ne same, readsIn_of_other (x := ⟨id, request⟩) (Ne.symm same), List.append_nil]
    exact ⟨own, kept.passed id' inside', fun addr _ i _ missing => ⟨missing, untouched _⟩⟩

/-- The requests that a request overtakes do not write its bytes. -/
theorem settled (kept : r.Kept n lineSize sets answered) {process : MemoryProcess} {x : Pending}
    {before after : List Pending} (inOrder : r.InOrder process) (split : r.pending = before ++ x :: after)
    (first : r.next process = some x) (overtaken : ∀ z ∈ before, r.system.memory.lane process z = false) :
    r.Settled lineSize x before := by
  intro z member i inside concerned
  have own : r.system.memory.lane process x = true := List.find?_some first
  have waits : z ∈ r.pending := split ▸ List.mem_append_left _ member
  have inPending : x ∈ r.pending := split ▸ List.mem_append_right _ List.mem_cons_self
  have follows := kept.clients x.client (kept.owned x inPending)
  have line (y : Pending) (listed : y ∈ r.pending) : IsLine lineSize y.request.address :=
    kept.lines y.toClientRequest (List.mem_append_right _ (List.mem_map_of_mem listed))
  have skipped := overtaken z member
  cases found : r.system.memory with
  | serial m =>
    rw [found] at skipped
    cases skipped
  | parallel m =>
    have size : m.lineSize = lineSize := (congrArg FlatMemory.lineSize found).symm.trans kept.size
    simp only [InOrder, found, size] at inOrder
    rw [← (line x inPending).add]
    refine inOrder x first z ?_ i inside ?_
    · rw [split, List.takeWhile_append_of_pos fun y listed => by simpa [found] using overtaken y listed]
      exact List.mem_append_left _ member
    · rcases concerned with written | ⟨read, cid, awaits, asked, missing⟩
      · have write : x.request.write = true := by
          cases kind : x.request.write with
          | true => rfl
          | false => simp [Request.byte?, kind] at written
        rw [concerns, if_pos write, written]
      · have atLine : (r.system.cache x.client).lineOf x.request.address = some cid :=
          follows.cached.toSets.integrity.finds cid awaits x.request.address asked
        have lacking : ((r.system.cache x.client).lines cid).byte? i = none := missing
        simp [concerns, read, atLine, lacking]
  | banked m =>
    rw [found] at skipped own
    refine Coherent.untouched_of_ne (follows.size ▸ follows.cached.power) (follows.size ▸ follows.cached.lineSize.2)
      (line x inPending) (line z waits) (fun _ same => ?_) inside
    cases process with
    | bank b =>
      simp only [FlatMemory.lane, decide_eq_true_eq, decide_eq_false_iff_not] at own skipped
      exact skipped (same ▸ own)
    | requests | incoming | outgoing => cases own

/-- The memory changes, and keeps its bytes. -/
theorem setMemory (kept : r.Kept n lineSize sets answered) {system : FlatSystem} {memory : FlatMemory}
    {left : List ClientRequest} (coherent : ({ r with system := system }).Coherent n lineSize sets left)
    (own : system.memory = r.system.memory) (same : r.system.memory.SameStore memory)
    (queues : memory.Represents r.pending left) :
    ({ r with system := { system with memory := memory } }).Kept n lineSize sets left := by
  have shown : overlay (r.pending.map fun x => x.request.patch lineSize) memory.store =
      ({ r with system := system } : Recorded).view lineSize := by
    rw [same.2, ← own]
    rfl
  exact ⟨coherent.setMemory shown, same.1.lineSize.trans kept.size, same.1.hasPorts kept.ports, queues⟩

theorem process_step (kept : r.Kept n lineSize sets answered) {process : MemoryProcess} {phase : Phase}
    (allowed : r.Guard (.process process phase)) (taken : r.step (.process process phase) = some r') :
    ∃ answered', r'.Kept n lineSize sets answered' := by
  obtain ⟨ran, done, rfl⟩ := Option.map_eq_some_iff.mp taken
  obtain ⟨out, runs, result⟩ := FlatSystem.runProcess_cases done
  have serves : ran.serves = out.serves := by
    rcases result with rfl | ⟨_, _, rfl, _⟩ <;> rfl
  cases FlatMemory.run_spec kept.queues runs with
  | quiet idle silent left committed queues queues' =>
    simp only [serves, idle, Bool.false_eq_true, false_and, if_false, List.filter_nil, List.append_nil]
    rcases result with rfl | ⟨_, after, rfl, ⟨_, rfl⟩ | ⟨answer, given, _⟩⟩
    · exact ⟨answered, kept.setMemory kept.toCoherent rfl left queues⟩
    · exact ⟨answered, kept.setMemory kept.toCoherent rfl committed queues'⟩
    · cases silent.symm.trans given
  | answers idle given split left committed queues queues' =>
    simp only [serves, idle, Bool.false_eq_true, false_and, if_false, List.filter_nil, List.append_nil]
    rcases result with rfl | ⟨_, after, rfl, ⟨silent, _⟩ | ⟨answer, same, called⟩⟩
    · exact ⟨answered, kept.setMemory kept.toCoherent rfl left queues⟩
    · cases silent.symm.trans given
    · cases Option.some.inj (same.symm.trans given)
      have coherent := split ▸ kept.toCoherent
      exact ⟨_, kept.setMemory (coherent.answered_step called) (FlatSystem.deliver_setMemory called r.system.memory).1
        committed queues'⟩
  | @serves x before after works split first erased overtaken config store queues finished =>
    have next : r.next process = some x := first
    have settled := kept.settled (allowed ran done (serves.trans works)) split next overtaken
    rw [kept.size] at store
    simp only [serves, works, if_true, true_and, next, Option.toList_some]
    rcases result with rfl | ⟨success, after, rfl, result⟩
    · exact ⟨answered, kept.toCoherent.served split settled store, config.lineSize.trans kept.size,
        config.hasPorts kept.ports, queues⟩
    · obtain ⟨same, answers⟩ := finished success
      have stored : out.committed.store = r.system.memory.store.after lineSize x.request := same.2.trans store
      have carried := kept.toCoherent.carriedOut split settled stored
      have size := same.1.lineSize.trans (config.lineSize.trans kept.size)
      have ports := same.1.hasPorts (config.hasPorts kept.ports)
      rw [erased]
      rcases answers with ⟨given, queues'⟩ | ⟨silent, queues'⟩
      · rcases result with ⟨silent, _⟩ | ⟨answer, gives, called⟩
        · cases silent.symm.trans given
        · cases Option.some.inj (gives.symm.trans given)
          have coherent := carried.answered_step (FlatSystem.deliver_setMemory called out.committed).2.2
          rw [List.append_nil] at coherent
          exact ⟨answered, coherent, size, ports, queues'⟩
      · rcases result with ⟨_, rfl⟩ | ⟨answer, gives, _⟩
        · exact ⟨_, carried, size, ports, queues'⟩
        · cases silent.symm.trans gives

theorem send_step (kept : r.Kept n lineSize sets answered) {id : Nat} (allowed : r.Guard (.send id))
    (taken : r.step (.send id) = some r') : r'.Kept n lineSize sets answered := by
  simp only [step] at taken
  split at taken
  · rename_i known
    have inside : id < n := kept.count ▸ known
    obtain ⟨request, sends, rest⟩ := Option.bind_eq_some_iff.mp taken
    obtain ⟨system, outgoing, rfl⟩ := Option.map_eq_some_iff.mp rest
    obtain ⟨same, sends', rest⟩ := Option.bind_eq_some_iff.mp outgoing
    cases Option.some.inj (sends.symm.trans sends')
    obtain ⟨between, access, rest⟩ := Option.bind_eq_some_iff.mp rest
    obtain ⟨client, moved, rfl⟩ := Option.map_eq_some_iff.mp rest
    obtain ⟨⟨request, queue⟩, front, rfl⟩ := Option.map_eq_some_iff.mp sends
    rcases Bool.eq_false_or_eq_true request.write with write | read
    · rw [FlatSystem.access, if_pos write] at access
      obtain ⟨memory, accepted, rfl⟩ := Option.map_eq_some_iff.mp access
      exact kept.write_sent inside allowed front write accepted moved
    · rw [FlatSystem.access, if_neg (by simp [read])] at access
      obtain ⟨memory, accepted, rfl⟩ := Option.map_eq_some_iff.mp access
      exact kept.read_sent inside front read accepted moved
  · cases taken

theorem step (kept : r.Kept n lineSize sets answered) {e : FlatEvent} (allowed : r.Guard e)
    (taken : r.step e = some r') : ∃ answered', r'.Kept n lineSize sets answered' := by
  cases e with
  | client id e => exact ⟨answered, kept.client_step allowed taken⟩
  | send id => exact ⟨answered, kept.send_step allowed taken⟩
  | writeResponse id => exact ⟨answered, kept.writeResponse_step taken⟩
  | process process phase => exact kept.process_step allowed taken
  | endCycle => exact ⟨answered, kept.endCycle_step taken⟩

/-- The caches agree with the backing store. -/
theorem agreement (kept : r.Kept n lineSize sets answered) : Agreement r := by
  refine ⟨fun a => ?_, fun idle id inside cid full i within valid => ?_⟩
  · rw [kept.size]
    exact kept.order a
  · rw [kept.size] at within
    have inside : id < n := kept.count ▸ inside
    have follows := kept.clients id inside
    obtain ⟨none, _⟩ := FlatMemory.eq_nil_of_idle kept.queues idle.2 kept.ports kept.owned
    have meets := follows.cached.holds_full follows.holds trivial
      (show ((r.system.clients id).core.line cid).state = .full from full) (follows.size.symm ▸ within)
    rw [idle.1 id (kept.count.symm ▸ inside)] at meets
    rcases meets with ⟨w, member, _⟩ | same
    · cases member
    · rw [Recorded.view, none] at same
      exact same

end Kept

end Recorded

section Run
variable {n : Nat} {configs : Nat → CacheConfig} {cores : Nat → Core} {config : MemoryConfig} {store : Store}
  {memory : FlatMemory} {bufferSize : Option Nat} {events : List FlatEvent} {r : Recorded}

theorem Recorded.kept_initial (fits : ∀ id < n, (configs id).Fits)
    (sizes : ∀ id < n, (configs id).lineSize = config.lineSize) (started : ∀ id < n, Started (configs id) (cores id))
    (made : FlatMemory.create config n store = .ok memory) :
    (initial n cores bufferSize memory).Kept n config.lineSize (fun id => (configs id).sets) [] := by
  obtain ⟨queues, _, size, ports⟩ := FlatMemory.create_spec made
  refine ⟨⟨rfl, fun id inside => ?_, fun id inside popped w _ addr member => (List.not_mem_nil member).elim, nofun, nofun,
    List.Pairwise.nil, nofun, fun a => rfl, nofun⟩, size, ports, queues⟩
  exact sizes id inside ▸ (started id inside).follows (fits id inside) _

/-- In every run in which the sets of the caches stay in order, and no port of a parallel memory
overtakes a store to the bytes of its request, the stores to a byte are applied in the order in which they are
snooped, and the full lines hold the bytes of an idle memory. -/
theorem flat_agreement (fits : ∀ id < n, (configs id).Fits)
    (sizes : ∀ id < n, (configs id).lineSize = config.lineSize) (started : ∀ id < n, Started (configs id) (cores id))
    (made : FlatMemory.create config n store = .ok memory)
    (run : Run Recorded.step Recorded.Guard (.initial n cores bufferSize memory) events r) : Agreement r := by
  have kept := run.invariant
    (I := fun r : Recorded => ∃ answered, r.Kept n config.lineSize (fun id => (configs id).sets) answered)
    ⟨[], Recorded.kept_initial fits sizes started made⟩
    fun _ _ _ ⟨_, kept⟩ allowed taken => kept.step allowed taken
  obtain ⟨_, kept⟩ := kept
  exact kept.agreement

end Run

section TwoClients

/-- A parallel memory with a port for each of two clients. -/
def twoPorts : MemoryConfig := ⟨.parallel, 64, 1, 1, some 2, 1, "DIRECT"⟩

def twoClients : Except Fault Recorded := do
  let core ← smallCore
  let memory ← FlatMemory.create twoPorts 2 fun _ => 0
  return .initial 2 (fun _ => core) (some 2) memory

theorem twoClients_eq {start : Recorded} (made : twoClients = .ok start) : ∃ core memory, smallCore = .ok core ∧
    FlatMemory.create twoPorts 2 (fun _ => 0) = .ok memory ∧ start = .initial 2 (fun _ => core) (some 2) memory := by
  obtain ⟨core, small, rest⟩ := bind_ok made
  obtain ⟨memory, created, same⟩ := bind_ok rest
  exact ⟨core, memory, small, created, (Except.ok.inj same).symm⟩

def cycle (events : List FlatEvent) : List FlatEvent :=
  events ++ [.client 0 .endCycle, .client 1 .endCycle, .endCycle]

def bothPorts : List FlatEvent := [.process (.requests 0) .commit, .process (.requests 1) .commit]

/-- Both clients load the line 0x1000. -/
def loadBoth : List FlatEvent :=
  cycle [.client 0 (.read 0 0x1000 8 none), .client 1 (.read 0 0x1000 8 none)] ++ cycle [.send 0, .send 1] ++
    cycle bothPorts ++ cycle bothPorts ++ cycle bothPorts ++
    cycle [.client 0 .readResponses, .client 1 .readResponses]

/-- Both clients store to its first byte. -/
def storeBoth : List FlatEvent :=
  loadBoth ++ cycle [.client 0 (.write 1 0 0x1000 [1] 1)] ++ cycle [.send 0, .client 1 (.write 2 0 0x1000 [2] 2)] ++
    cycle [.send 1, .process (.requests 0) .commit] ++ cycle bothPorts ++ cycle bothPorts ++
    cycle [.writeResponse 0, .process (.requests 1) .commit] ++ cycle [.writeResponse 1]

/-- The first client has another load in its port when they store. -/
def storeBehindLoad : List FlatEvent :=
  loadBoth ++ cycle [.client 0 (.read 0 0x2000 8 none)] ++ cycle [.send 0, .client 0 (.write 1 0 0x1000 [1] 1)] ++
    cycle [.send 0, .client 1 (.write 2 0 0x1000 [2] 2), .process (.requests 0) .commit] ++
    cycle [.send 1, .process (.requests 0) .commit] ++ cycle bothPorts ++ cycle bothPorts ++ cycle bothPorts ++
    cycle [.process (.requests 0) .commit]

/-- The full lines of the clients, and the byte of memory. -/
def Recorded.firstBytes (r : Recorded) : List Byte :=
  [((r.system.cache 0).lines 0).data 0, ((r.system.cache 1).lines 0).data 0, r.system.memory.store 0x1000]

theorem flat_agreement_storeBoth : ∃ start r, twoClients = .ok start ∧ execute Recorded.step start storeBoth = some r ∧
    r.firstBytes = [2, 2, 2] ∧ Agreement r := by
  have whole : (twoClients.toOption.bind fun start =>
      (execute (checked (fun r e => decide (r.Guard e)) Recorded.step) start storeBoth).map Recorded.firstBytes) =
        some [2, 2, 2] := by
    decide +kernel
  cases made : twoClients with
  | error fault =>
    rw [made] at whole
    cases whole
  | ok start =>
    rw [made] at whole
    obtain ⟨r, done, seen⟩ := Option.map_eq_some_iff.mp whole
    obtain ⟨core, memory, small, created, rfl⟩ := twoClients_eq made
    have run : Run Recorded.step Recorded.Guard (.initial 2 (fun _ => core) (some 2) memory) storeBoth r :=
      run_of_checked (fun _ _ => of_decide_eq_true) done
    exact ⟨_, r, rfl, execute_of_run run, seen, @flat_agreement 2 (fun _ => smallConfig) _ _ _ _ _ _ _
      (fun _ _ => ⟨by decide, by decide⟩) (fun _ _ => rfl) (fun _ _ => started_of_smallCore small) created run⟩

/-- The second store has overtaken the first one. -/
theorem store_overtaken : ∃ start r, twoClients = .ok start ∧ execute Recorded.step start storeBehindLoad = some r ∧
    r.firstBytes = [2, 2, 1] ∧ ¬ Agreement r := by
  have whole : (twoClients.toOption.bind fun start => (execute Recorded.step start storeBehindLoad).map fun r =>
      (r.firstBytes, storesTo r.system.memory.lineSize 0x1000 (r.applied ++ r.pending),
        storesTo r.system.memory.lineSize 0x1000 r.snooped)) = some ([2, 2, 1], [4, 3], [3, 4]) := by
    decide +kernel
  cases made : twoClients with
  | error fault =>
    rw [made] at whole
    cases whole
  | ok start =>
    rw [made] at whole
    obtain ⟨r, done, seen⟩ := Option.map_eq_some_iff.mp whole
    obtain ⟨bytes, orders⟩ := Prod.mk.inj seen
    obtain ⟨applied, snooped⟩ := Prod.mk.inj orders
    refine ⟨start, r, rfl, done, bytes, fun agreement => ?_⟩
    have order := agreement.order 0x1000
    rw [applied, snooped] at order
    exact absurd order (by decide)

end TwoClients

end Mgsim.Memory
