import Mgsim.Memory.Agreement
import Mgsim.Memory.DDRMemory

namespace Mgsim.Memory
open Mgsim.Lib Mgsim.Mmu Mgsim.Drisc

/-- The interface of a request. -/
def DDRParams.place (params : DDRParams) (x : Pending) : Nat :=
  if x.request.write then params.writeInterface x.request.address else params.readInterface x.request.address

namespace DDRRecord

/-- The store after some requests have been handled. -/
def storeAfter (r : DDRRecord) (handled : List (Nat × Pending)) : Store :=
  overlay (handled.map fun h => h.2.request.patch r.memory.params.lineSize) r.initial

/-- A read that has read the store after it has been handled. -/
def Served (r : DDRRecord) (y : Pending) : Prop :=
  ∃ seen i x, seen <+: r.handled ∧ (i, x) ∈ seen ∧ x.request.write = false ∧
    y = { x with request := { x.request with data := (r.storeAfter seen).read x.request.address } }

/-- The requests that an interface has handled. -/
def handledBy (r : DDRRecord) (i : Nat) : List Pending := (r.handled.filter fun h => h.1 = i).map Prod.snd

end DDRRecord

/-- What `DoRequests` does to a memory. -/
structure Handles (m : DDRMemory) (i : Nat) (x : Pending) (m' : DDRMemory) : Prop where
  params : m'.params = m.params
  store : m'.store = m.store.after m.params.lineSize x.request
  others : ∀ j, j ≠ i → m'.interfaces j = m.interfaces j
  requests : (m.interfaces i).requests.contents = x :: (m'.interfaces i).requests.contents
  responses : (m'.interfaces i).responses = (m.interfaces i).responses
  active : ∀ y ∈ (m'.interfaces i).activeRequests, y ∈ (m.interfaces i).activeRequests ∨ y = x ∧ x.request.write = false

theorem DDRMemory.doRequests_spec {m m' : DDRMemory} {i : Nat} {x : Pending} (called : m.doRequests i = some (x, m')) :
    Handles m i x m' := by
  obtain ⟨⟨first, requests⟩, taken, rest⟩ := Option.bind_eq_some_iff.mp called
  obtain ⟨channel, _, same⟩ := Option.map_eq_some_iff.mp rest
  obtain ⟨front, -⟩ := Buffer.take?_eq_some taken
  cases kind : first.request.write with
  | true =>
    rw [if_pos kind] at same
    cases same
    have own : (m.setInterface i { m.interfaces i with requests := requests, channel := channel }).interfaces i =
        { m.interfaces i with requests := requests, channel := channel } := Function.update_self ..
    refine ⟨rfl, ?_, fun j other => Function.update_of_ne other .., ?_, ?_, fun y member => ?_⟩
    · exact (if_pos kind).symm
    · rw [front, own]
    · rw [own]
    · rw [own] at member
      exact Or.inl member
  | false =>
    rw [kind, if_neg Bool.false_ne_true] at same
    cases same
    have own : (m.setInterface i { m.interfaces i with
        requests := requests, channel := channel, activeRequests := (m.interfaces i).activeRequests ++ [x] }).interfaces i =
          { m.interfaces i with
            requests := requests, channel := channel, activeRequests := (m.interfaces i).activeRequests ++ [x] } :=
      Function.update_self ..
    refine ⟨rfl, ?_, fun j other => Function.update_of_ne other .., ?_, ?_, fun y member => ?_⟩
    · exact (if_neg (by rw [kind]; exact Bool.false_ne_true)).symm
    · rw [front, own]
    · rw [own]
    · rw [own] at member
      exact (List.mem_append.mp member).imp_right fun last => ⟨List.mem_singleton.mp last, kind⟩

/-- What holds in every run in which the lines that are read and written have one interface. -/
structure Ordered (r : DDRRecord) : Prop where
  numbers : ∀ x ∈ r.issued, x.number < r.issued.length
  sorted : r.issued.Pairwise fun x y => x.number < y.number
  positive : r.issued ≠ [] → 0 < r.memory.params.lineSize
  together : ∀ x ∈ r.issued, ∀ w ∈ r.issued, x.request.write = false → w.request.write = true →
    DDRRecord.Overlap r.memory.params.lineSize x.request.address w.request.address →
      r.memory.params.readInterface x.request.address = r.memory.params.writeInterface w.request.address
  lanes : ∀ i, r.issued.filter (fun x => r.memory.params.place x = i) =
    r.handledBy i ++ (r.memory.interfaces i).requests.contents
  store : r.memory.store = r.storeAfter r.handled
  active : ∀ i, ∀ x ∈ (r.memory.interfaces i).activeRequests, (i, x) ∈ r.handled ∧ x.request.write = false
  responses : ∀ i, ∀ y ∈ (r.memory.interfaces i).responses.contents, r.Served y
  completed : ∀ y ∈ r.completed, r.Served y

namespace Ordered
variable {r r' : DDRRecord} {memory : DDRMemory} {i : Nat} {x : Pending}

theorem start (idle : ∀ i, (memory.interfaces i).requests.contents = [] ∧ (memory.interfaces i).responses.contents = [] ∧
    (memory.interfaces i).activeRequests = []) : Ordered (.start memory) where
  numbers := nofun
  sorted := .nil
  positive := fun some => absurd rfl some
  together := nofun
  lanes := fun i => (idle i).1.symm
  store := rfl
  active := by
    intro i x (member : x ∈ (memory.interfaces i).activeRequests)
    rw [(idle i).2.2] at member
    cases member
  responses := by
    intro i y (member : y ∈ (memory.interfaces i).responses.contents)
    rw [(idle i).2.1] at member
    cases member
  completed := nofun

/-- A step that handles no request. -/
theorem keep (kept : Ordered r) (issued : r'.issued = r.issued) (handled : r'.handled = r.handled)
    (initial : r'.initial = r.initial) (params : r'.memory.params = r.memory.params) (store : r'.memory.store = r.memory.store)
    (requests : ∀ i, (r'.memory.interfaces i).requests.contents = (r.memory.interfaces i).requests.contents)
    (active : ∀ i, ∀ x ∈ (r'.memory.interfaces i).activeRequests, x ∈ (r.memory.interfaces i).activeRequests)
    (responses : ∀ i, ∀ y ∈ (r'.memory.interfaces i).responses.contents,
      y ∈ (r.memory.interfaces i).responses.contents ∨ r.Served y)
    (completed : ∀ y ∈ r'.completed, y ∈ r.completed ∨ r.Served y) : Ordered r' := by
  have after (some : List (Nat × Pending)) : r'.storeAfter some = r.storeAfter some := by
    unfold DDRRecord.storeAfter
    rw [params, initial]
  have served (y : Pending) (before : r.Served y) : r'.Served y := by
    unfold DDRRecord.Served at before ⊢
    simp only [after, handled]
    exact before
  constructor
  · rw [issued]
    exact kept.numbers
  · rw [issued]
    exact kept.sorted
  · rw [issued, params]
    exact kept.positive
  · rw [issued, params]
    exact kept.together
  · intro i
    unfold DDRRecord.handledBy
    rw [issued, params, handled, requests]
    exact kept.lanes i
  · rw [store, after, handled]
    exact kept.store
  · intro i x member
    rw [handled]
    exact kept.active i x (active i x member)
  · exact fun i y member => served y ((responses i y member).elim (kept.responses i y) id)
  · exact fun y member => served y ((completed y member).elim (kept.completed y) id)

/-- A request is accepted by its interface. -/
theorem send (kept : Ordered r) (positive : 0 < r.memory.params.lineSize) (number : x.number = r.issued.length)
    (called : r.memory.addIncomingRequest (r.memory.params.place x) x = some memory)
    (readAfter : x.request.write = false → ∀ w ∈ r.issued, w.request.write = true →
      DDRRecord.Overlap r.memory.params.lineSize x.request.address w.request.address →
        r.memory.params.readInterface x.request.address = r.memory.params.writeInterface w.request.address)
    (writeAfter : x.request.write = true → ∀ y ∈ r.issued, y.request.write = false →
      DDRRecord.Overlap r.memory.params.lineSize y.request.address x.request.address →
        r.memory.params.readInterface y.request.address = r.memory.params.writeInterface x.request.address) :
    Ordered { r with memory := memory, issued := r.issued ++ [x] } := by
  unfold DDRMemory.addIncomingRequest at called
  split at called
  swap
  · cases called
  obtain ⟨requests, pushed, rfl⟩ := Option.map_eq_some_iff.mp called
  have other (j : Nat) (apart : j ≠ r.memory.params.place x) :
      (r.memory.setInterface (r.memory.params.place x) { r.memory.interfaces (r.memory.params.place x) with
        requests := requests }).interfaces j = r.memory.interfaces j := Function.update_of_ne apart ..
  have own : (r.memory.setInterface (r.memory.params.place x) { r.memory.interfaces (r.memory.params.place x) with
      requests := requests }).interfaces (r.memory.params.place x) =
        { r.memory.interfaces (r.memory.params.place x) with requests := requests } := Function.update_self ..
  constructor
  · intro y member
    dsimp only
    rw [List.length_append, List.length_singleton]
    rcases List.mem_append.mp member with earlier | last
    · exact Nat.lt_succ_of_lt (kept.numbers y earlier)
    · rw [List.mem_singleton.mp last, number]
      exact Nat.lt_succ_self _
  · refine List.pairwise_append.mpr ⟨kept.sorted, List.pairwise_singleton .., fun y earlier z last => ?_⟩
    rw [List.mem_singleton.mp last, number]
    exact kept.numbers y earlier
  · exact fun _ => positive
  · intro y first w second read write overlap
    rcases List.mem_append.mp first with first | first
    · rcases List.mem_append.mp second with second | second
      · exact kept.together y first w second read write overlap
      · cases List.mem_singleton.mp second
        exact writeAfter write y first read overlap
    · cases List.mem_singleton.mp first
      rcases List.mem_append.mp second with second | second
      · exact readAfter read w second write overlap
      · cases List.mem_singleton.mp second
        cases read.symm.trans write
  · intro j
    rw [List.filter_append]
    by_cases here : j = r.memory.params.place x
    · subst here
      dsimp only
      rw [own, Buffer.contents_push pushed, ← List.append_assoc]
      refine congrArg₂ _ (kept.lanes _) ?_
      exact List.filter_cons_of_pos (decide_eq_true rfl)
    · dsimp only
      rw [other j here]
      refine Eq.trans (congrArg₂ _ (kept.lanes j) ?_) (List.append_nil _)
      exact List.filter_cons_of_neg fun same => here (of_decide_eq_true same).symm
  · exact kept.store
  · intro j y member
    by_cases here : j = r.memory.params.place x
    · subst here
      rw [own] at member
      exact kept.active _ y member
    · rw [other j here] at member
      exact kept.active j y member
  · intro j y member
    by_cases here : j = r.memory.params.place x
    · subst here
      rw [own] at member
      exact kept.responses _ y member
    · rw [other j here] at member
      exact kept.responses j y member
  · exact kept.completed

/-- An interface handles its first request. -/
theorem handle (kept : Ordered r) (called : r.memory.doRequests i = some (x, memory)) :
    Ordered { r with memory := memory, handled := r.handled ++ [(i, x)] } := by
  have handles := DDRMemory.doRequests_spec called
  have after (some : List (Nat × Pending)) :
      DDRRecord.storeAfter { r with memory := memory, handled := r.handled ++ [(i, x)] } some = r.storeAfter some := by
    unfold DDRRecord.storeAfter
    rw [handles.params]
  have served (y : Pending) (before : r.Served y) :
      DDRRecord.Served { r with memory := memory, handled := r.handled ++ [(i, x)] } y := by
    obtain ⟨seen, j, z, early, member, reads, rfl⟩ := before
    refine ⟨seen, j, z, early.trans (List.prefix_append ..), member, reads, ?_⟩
    rw [after]
  refine ⟨kept.numbers, kept.sorted, ?_, ?_, fun j => ?_, ?_, fun j y member => ?_, fun j y member => ?_,
    fun y member => served y (kept.completed y member)⟩
  · dsimp only
    rw [handles.params]
    exact kept.positive
  · dsimp only
    rw [handles.params]
    exact kept.together
  · unfold DDRRecord.handledBy
    dsimp only
    rw [handles.params, List.filter_append, List.map_append, kept.lanes j]
    by_cases here : j = i
    · have one : List.filter (fun h : Nat × Pending => h.1 = j) [(i, x)] = [(i, x)] :=
        List.filter_cons_of_pos (decide_eq_true here.symm)
      rw [one, here, handles.requests, List.append_assoc]
      rfl
    · have none : List.filter (fun h : Nat × Pending => h.1 = j) [(i, x)] = [] :=
        List.filter_cons_of_neg fun same => here (of_decide_eq_true same).symm
      rw [none, handles.others j here, List.map_nil, List.append_nil]
      rfl
  · rw [after]
    dsimp only
    rw [handles.store, Store.after_eq_overlay, kept.store]
    unfold DDRRecord.storeAfter
    rw [List.map_append, List.map_singleton, overlay_snoc]
  · by_cases here : j = i
    · subst here
      rcases handles.active y member with before | ⟨rfl, reads⟩
      · obtain ⟨known, reads⟩ := kept.active j y before
        exact ⟨List.mem_append_left _ known, reads⟩
      · exact ⟨List.mem_append_right _ List.mem_cons_self, reads⟩
    · dsimp only at member
      rw [handles.others j here] at member
      obtain ⟨known, reads⟩ := kept.active j y member
      exact ⟨List.mem_append_left _ known, reads⟩
  · refine served y (kept.responses j y ?_)
    by_cases here : j = i
    · subst here
      rw [← handles.responses]
      exact member
    · rw [← handles.others j here]
      exact member

/-- A channel has read a line from the store. -/
theorem pipeline {now : Nat} (kept : Ordered r) (called : r.memory.doPipeline i now = some memory) :
    Ordered { r with memory := memory } := by
  obtain ⟨⟨request, pipeline⟩, _, rest⟩ := Option.bind_eq_some_iff.mp called
  dsimp only at rest
  split at rest
  swap
  · cases rest
    exact kept
  obtain ⟨middle, read, rfl⟩ := Option.map_eq_some_iff.mp rest
  unfold DDRMemory.onReadCompleted at read
  dsimp only at read
  split at read
  · cases read
  rename_i first others found
  obtain ⟨responses, pushed, rfl⟩ := Option.map_eq_some_iff.mp read
  obtain ⟨known, reads⟩ := kept.active i first (by rw [found]; exact List.mem_cons_self)
  let last := { r.memory.interfaces i with
    responses := responses, activeRequests := others, channel := { (r.memory.interfaces i).channel with pipeline := pipeline } }
  have settled : (r.memory.setInterface i { r.memory.interfaces i with
      responses := responses, activeRequests := others }).setInterface i
        { (r.memory.setInterface i { r.memory.interfaces i with
            responses := responses, activeRequests := others }).interfaces i with
          channel := { (r.memory.interfaces i).channel with pipeline := pipeline } } = r.memory.setInterface i last := by
    unfold DDRMemory.setInterface
    dsimp only
    rw [Function.update_idem, Function.update_self]
  rw [settled]
  have own : (r.memory.setInterface i last).interfaces i = last := Function.update_self ..
  have apart (j : Nat) (other : j ≠ i) : (r.memory.setInterface i last).interfaces j = r.memory.interfaces j :=
    Function.update_of_ne other ..
  refine kept.keep rfl rfl rfl rfl rfl (fun j => ?_) (fun j y member => ?_) (fun j y member => ?_)
    fun y member => Or.inl member
  · by_cases here : j = i
    · rw [here]
      exact congrArg (fun iface => iface.requests.contents) own
    · exact congrArg (fun iface => iface.requests.contents) (apart j here)
  · by_cases here : j = i
    · subst here
      dsimp only at member
      rw [own] at member
      rw [found]
      exact List.mem_cons_of_mem _ member
    · dsimp only at member
      rw [apart j here] at member
      exact member
  · by_cases here : j = i
    · subst here
      dsimp only at member
      rw [own, show last.responses = responses from rfl, Buffer.contents_push pushed] at member
      refine (List.mem_append.mp member).imp_right fun new => ?_
      rw [List.mem_singleton.mp new, kept.store]
      exact ⟨r.handled, j, first, List.prefix_rfl, known, reads, rfl⟩
    · dsimp only at member
      rw [apart j here] at member
      exact Or.inl member

/-- A step that only changes how an interface times its requests. -/
theorem retime (kept : Ordered r) (i : Nat) (iface : DDRInterface) (requests : iface.requests = (r.memory.interfaces i).requests)
    (responses : ∀ y ∈ iface.responses.contents, y ∈ (r.memory.interfaces i).responses.contents)
    (active : iface.activeRequests = (r.memory.interfaces i).activeRequests) (completed : List Pending)
    (served : ∀ y ∈ completed, y ∈ r.completed ∨ r.Served y) :
    Ordered { r with memory := r.memory.setInterface i iface, completed := completed } := by
  have own : (r.memory.setInterface i iface).interfaces i = iface := Function.update_self ..
  have apart (j : Nat) (other : j ≠ i) : (r.memory.setInterface i iface).interfaces j = r.memory.interfaces j :=
    Function.update_of_ne other ..
  refine kept.keep rfl rfl rfl rfl rfl (fun j => ?_) (fun j y member => ?_) (fun j y member => Or.inl ?_) served
  · by_cases here : j = i
    · rw [here]
      dsimp only
      rw [own, requests]
    · exact congrArg (fun iface => iface.requests.contents) (apart j here)
  · by_cases here : j = i
    · subst here
      dsimp only at member
      rw [own, active] at member
      exact member
    · dsimp only at member
      rw [apart j here] at member
      exact member
  · by_cases here : j = i
    · subst here
      dsimp only at member
      rw [own] at member
      exact responses y member
    · dsimp only at member
      rw [apart j here] at member
      exact member

theorem step {e : DDREvent} (kept : Ordered r) (allowed : r.Guard e) (called : r.step e = some r') : Ordered r' := by
  cases e with
  | read id address =>
    obtain ⟨memory, accepted, rfl⟩ := Option.map_eq_some_iff.mp called
    unfold DDRMemory.read at accepted
    split at accepted
    · rename_i accepts
      exact kept.send (Nat.pos_of_ne_zero accepts.1) rfl accepted (fun _ => allowed) nofun
    · cases accepted
  | write id address data mask wid =>
    obtain ⟨memory, accepted, rfl⟩ := Option.map_eq_some_iff.mp called
    unfold DDRMemory.write at accepted
    split at accepted
    · rename_i accepts
      exact kept.send (Nat.pos_of_ne_zero accepts.1) rfl accepted nofun fun _ => allowed
    · cases accepted
  | requests i =>
    obtain ⟨⟨x, memory⟩, handled, rfl⟩ := Option.map_eq_some_iff.mp called
    exact kept.handle handled
  | channelRequest i now =>
    obtain ⟨memory, timed, rfl⟩ := Option.map_eq_some_iff.mp called
    obtain ⟨channel, _, rfl⟩ := Option.map_eq_some_iff.mp timed
    exact kept.retime i { r.memory.interfaces i with channel := channel } rfl (fun _ => id) rfl r.completed fun _ => Or.inl
  | channelPipeline i now =>
    obtain ⟨memory, read, rfl⟩ := Option.map_eq_some_iff.mp called
    exact kept.pipeline read
  | responses i =>
    obtain ⟨⟨x, memory⟩, answered, rfl⟩ := Option.map_eq_some_iff.mp called
    obtain ⟨⟨first, responses⟩, taken, same⟩ := Option.map_eq_some_iff.mp answered
    cases same
    obtain ⟨front, -⟩ := Buffer.take?_eq_some taken
    refine kept.retime i { r.memory.interfaces i with responses := responses } rfl (fun y member => ?_) rfl
      (r.completed ++ [x]) fun y member => ?_
    · rw [front]
      exact List.mem_cons_of_mem _ member
    · refine (List.mem_append.mp member).imp_right fun last => ?_
      rw [List.mem_singleton.mp last]
      refine kept.responses i x ?_
      rw [front]
      exact List.mem_cons_self
  | update =>
    cases called
    refine kept.keep rfl rfl rfl rfl rfl (fun j => ?_) (fun _ _ => id) (fun j y member => Or.inl ?_) fun _ => Or.inl
    · exact Buffer.contents_update _
    · have same : y ∈ (r.memory.interfaces j).responses.update.contents := member
      rwa [Buffer.contents_update] at same
  | updateChannel i =>
    cases called
    exact kept.retime i { r.memory.interfaces i with channel := (r.memory.interfaces i).channel.update } rfl (fun _ => id) rfl
      r.completed fun _ => Or.inl

section Memory
variable {h : Nat × Pending} {y w : Pending}

theorem mem_handledBy (member : (i, x) ∈ r.handled) : x ∈ r.handledBy i :=
  List.mem_map_of_mem (f := Prod.snd) (List.mem_filter.mpr ⟨member, decide_eq_true rfl⟩)

/-- A request is handled by its interface. -/
theorem place_of_handled (kept : Ordered r) (member : h ∈ r.handled) :
    h.2 ∈ r.issued ∧ r.memory.params.place h.2 = h.1 := by
  have lane : h.2 ∈ r.issued.filter fun x => r.memory.params.place x = h.1 := by
    rw [kept.lanes]
    exact List.mem_append_left _ (mem_handledBy member)
  obtain ⟨issued, place⟩ := List.mem_filter.mp lane
  exact ⟨issued, of_decide_eq_true place⟩

/-- Requests of one line address have one interface. -/
theorem samePlace (kept : Ordered r) (first : x ∈ r.issued) (second : y ∈ r.issued)
    (same : x.request.address = y.request.address) : r.memory.params.place x = r.memory.params.place y := by
  have overlap : DDRRecord.Overlap r.memory.params.lineSize x.request.address x.request.address := by
    refine ⟨0, kept.positive (List.ne_nil_of_mem first), ?_⟩
    simpa using kept.positive (List.ne_nil_of_mem first)
  unfold DDRParams.place
  cases write : x.request.write <;> cases write' : y.request.write
  · rw [if_neg Bool.false_ne_true, same]
    rfl
  · exact kept.together x first y second write write' (same ▸ overlap)
  · exact (kept.together y second x first write' write (same ▸ overlap)).symm
  · rw [if_pos rfl, same]
    rfl

theorem inOrder (kept : Ordered r) (address : Addr) :
    (r.handled.map Prod.snd).filter (fun x => x.request.address = address) <+:
      r.issued.filter fun x => x.request.address = address := by
  by_cases some : ∃ z ∈ r.issued, z.request.address = address
  · obtain ⟨z, issued, atAddress⟩ := some
    have own (y : Pending) (member : y ∈ r.issued) (same : y.request.address = address) :
        r.memory.params.place y = r.memory.params.place z := kept.samePlace member issued (same.trans atAddress.symm)
    have lane : r.issued.filter (fun x => x.request.address = address) = (r.issued.filter fun x =>
        r.memory.params.place x = r.memory.params.place z).filter fun x => x.request.address = address := by
      rw [List.filter_filter]
      refine List.filter_congr fun y member => ?_
      by_cases same : y.request.address = address
      · simp [same, own y member same]
      · simp [same]
    have handled : (r.handled.map Prod.snd).filter (fun x => x.request.address = address) =
        (r.handledBy (r.memory.params.place z)).filter fun x => x.request.address = address := by
      unfold DDRRecord.handledBy
      rw [List.filter_map, List.filter_map, List.filter_filter]
      refine congrArg (List.map Prod.snd) (List.filter_congr fun h member => ?_)
      obtain ⟨known, place⟩ := kept.place_of_handled member
      by_cases same : h.2.request.address = address
      · simp [same, ← place, own h.2 known same]
      · simp [same]
    rw [lane, kept.lanes, List.filter_append, handled]
    exact List.prefix_append ..
  · have none : (r.handled.map Prod.snd).filter (fun x => x.request.address = address) = [] := by
      refine List.filter_eq_nil_iff.mpr fun y member same => some ⟨y, ?_, of_decide_eq_true same⟩
      obtain ⟨h, known, rfl⟩ := List.mem_map.mp member
      exact (kept.place_of_handled known).1
    rw [none]
    exact List.nil_prefix

/-- When a read is handled, the earlier writes to its bytes have been handled. -/
theorem handled_before (kept : Ordered r) {seen : List (Nat × Pending)} (early : seen <+: r.handled) (member : (i, x) ∈ seen)
    (reads : x.request.write = false) (issued : w ∈ r.issued) (writes : w.request.write = true)
    (earlier : w.number < x.number)
    (overlap : DDRRecord.Overlap r.memory.params.lineSize x.request.address w.request.address) : (i, w) ∈ seen := by
  obtain ⟨known, place⟩ := kept.place_of_handled (early.subset member)
  have samePlace : r.memory.params.place w = i := by
    refine Eq.trans ?_ place
    unfold DDRParams.place
    rw [if_pos writes, reads, if_neg Bool.false_ne_true]
    exact (kept.together x known w issued reads writes overlap).symm
  obtain ⟨rest, split⟩ := early
  have lane : w ∈ r.issued.filter fun x => r.memory.params.place x = i :=
    List.mem_filter.mpr ⟨issued, decide_eq_true samePlace⟩
  have sorted := kept.sorted.filter fun x => r.memory.params.place x = i
  have inLane : x ∈ (seen.filter fun h => h.1 = i).map Prod.snd :=
    List.mem_map_of_mem (f := Prod.snd) (List.mem_filter.mpr ⟨member, decide_eq_true rfl⟩)
  rw [kept.lanes] at lane sorted
  unfold DDRRecord.handledBy at lane sorted
  rw [← split, List.filter_append, List.map_append, List.append_assoc] at lane sorted
  rcases List.mem_append.mp lane with before | after
  · obtain ⟨h, inSeen, rfl⟩ := List.mem_map.mp before
    obtain ⟨inSeen, here⟩ := List.mem_filter.mp inSeen
    rw [← of_decide_eq_true here]
    exact inSeen
  · have later := (List.pairwise_append.mp sorted).2.2 x inLane w after
    exact absurd later (Nat.lt_asymm earlier)

theorem fresh (kept : Ordered r) (served : r.Served y) (k : Nat) (inside : k < r.memory.params.lineSize) : r.Fresh y k := by
  obtain ⟨seen, i, x, early, member, reads, rfl⟩ := served
  let a := x.request.address + BitVec.ofNat 64 k
  intro w issued client earlier (writes : (w.request.patch r.memory.params.lineSize a).isSome) _
  have write : w.request.write = true := by
    cases kind : w.request.write with
    | true => rfl
    | false =>
      rw [Request.patch_of_read kind] at writes
      cases writes
  have overlap : DDRRecord.Overlap r.memory.params.lineSize x.request.address w.request.address := by
    refine ⟨k, inside, ?_⟩
    unfold Request.patch at writes
    split at writes
    · assumption
    · cases writes
  have known := kept.handled_before early member reads issued write earlier overlap
  obtain ⟨front, v, back, split, order, shown⟩ := overlay_last r.initial
    (fun h : Nat × Pending => h.2.request.patch r.memory.params.lineSize) a known writes
  have vWrites : v.2.request.write = true := by
    cases kind : v.2.request.write with
    | true => rfl
    | false =>
      rw [Request.patch_of_read kind] at shown
      cases shown
  obtain ⟨rest, split'⟩ := early
  refine ⟨(front.map Prod.snd).filter fun x => x.request.write, v.2,
    ((back ++ rest).map Prod.snd).filter fun x => x.request.write, ?_, ?_, shown⟩
  · unfold DDRRecord.applied
    rw [← split', split, List.append_assoc, List.cons_append, List.map_append, List.map_cons, List.filter_append]
    exact congrArg _ (List.filter_cons_of_pos (p := fun x : Pending => x.request.write) vWrites)
  · refine order.imp (congrArg Prod.snd) fun before => ?_
    exact List.mem_filter.mpr ⟨List.mem_map_of_mem (f := Prod.snd) before, write⟩

theorem isMemory (kept : Ordered r) : IsMemory r where
  sameInterface := by
    intro x first y second same
    obtain ⟨issued, place⟩ := kept.place_of_handled first
    obtain ⟨issued', place'⟩ := kept.place_of_handled second
    rw [← place, ← place']
    exact kept.samePlace issued issued' same
  inOrder := kept.inOrder
  answers := by
    intro y member
    obtain ⟨seen, i, x, early, inSeen, reads, rfl⟩ := kept.completed y member
    exact ⟨x, (kept.place_of_handled (early.subset inSeen)).1, reads, rfl, rfl, rfl⟩
  fresh := fun y member k inside => kept.fresh (kept.completed y member) k inside

end Memory

end Ordered

/-- In every run in which each line that is both read and written has one interface on both paths, the memory is a
memory. -/
theorem ddr_isMemory {numClients numInterfaces lineSize : Nat} {selector : String} {outputQueueSize inputQueueSize : Option Nat}
    {channels : Nat → DDRConfig} {store : Store} {memory : DDRMemory} {r : DDRRecord} {events : List DDREvent}
    (created : DDRMemory.create numClients numInterfaces lineSize selector outputQueueSize inputQueueSize channels store =
      .ok memory)
    (run : Run DDRRecord.step DDRRecord.Guard (.start memory) events r) : IsMemory r := by
  have idle (i : Nat) : (memory.interfaces i).requests.contents = [] ∧ (memory.interfaces i).responses.contents = [] ∧
      (memory.interfaces i).activeRequests = [] := by
    unfold DDRMemory.create at created
    cases made : BankSelector.makeSelector selector numInterfaces with
    | error fault =>
      rw [made] at created
      cases created
    | ok selector =>
      rw [made] at created
      cases created
      exact ⟨rfl, rfl, rfl⟩
  exact (run.invariant (Ordered.start idle) fun _ _ _ kept allowed taken => kept.step allowed taken).isMemory

section Examples

/-- A channel in which everything takes one cycle. -/
def quickChannel : DDRConfig := ⟨1, 1, 1, 1, 1, 1, 1, 8, 3, 0, 14, 10⟩

/-- Two interfaces with the selector that is the default one. -/
def twoInterfaces : Except Fault DDRMemory :=
  DDRMemory.create 1 2 64 "DIRECT" (some 2) (some 2) (fun _ => quickChannel) fun _ => 0

/-- The events by which an interface completes a read. -/
def completeRead (i : Nat) : List DDREvent :=
  [.update, .requests i, .updateChannel i, .channelRequest i 0, .channelRequest i 1, .updateChannel i,
    .channelPipeline i 2, .update, .responses i]

/-- A line of which both parts are on one interface. -/
def readWritten : List DDREvent :=
  [.write 0 0 (fun _ => 1) (fun _ => true) 0, .update, .requests 0, .updateChannel 0, .channelRequest 0 0,
    .channelRequest 0 1, .updateChannel 0, .read 0 0, .update, .requests 0, .updateChannel 0, .channelRequest 0 2,
    .updateChannel 0, .channelPipeline 0 3, .update, .responses 0]

theorem ddr_isMemory_readWritten : ∃ memory r, twoInterfaces = .ok memory ∧
    execute DDRRecord.step (.start memory) readWritten = some r ∧
      r.completed.map (fun x => x.request.data 5) = [1] ∧ IsMemory r := by
  obtain ⟨memory, created⟩ : ∃ memory, twoInterfaces = .ok memory := ⟨_, rfl⟩
  have done : twoInterfaces.toOption.bind (fun memory => (execute (checked (fun (r : DDRRecord) e => decide (r.Guard e))
      DDRRecord.step) (.start memory) readWritten).map fun r => r.completed.map fun x => x.request.data 5) = some [1] := by
    decide +kernel
  rw [created] at done
  obtain ⟨r, executed, seen⟩ := Option.map_eq_some_iff.mp done
  have run : Run DDRRecord.step DDRRecord.Guard (.start memory) readWritten r :=
    run_of_checked (fun _ _ => of_decide_eq_true) executed
  exact ⟨memory, r, created, execute_of_run run, seen, ddr_isMemory created run⟩

/-- The second line is written through the second interface and read through the first one. -/
def readOvertakes : List DDREvent := [.write 0 64 (fun _ => 1) (fun _ => true) 0, .read 0 64] ++ completeRead 0

/-- The read is completed while the write still waits. -/
theorem read_overtakes_write : ∃ memory r, twoInterfaces = .ok memory ∧
    execute DDRRecord.step (.start memory) readOvertakes = some r ∧
      r.completed.map (fun x => x.request.data 5) = [0] ∧ ¬ IsMemory r := by
  obtain ⟨memory, created⟩ : ∃ memory, twoInterfaces = .ok memory := ⟨_, rfl⟩
  have done : twoInterfaces.toOption.bind (fun memory => (execute DDRRecord.step (.start memory) readOvertakes).map fun r =>
      decide (r.completed.map (fun x => x.request.data 5) = [0] ∧ r.applied.length = 0 ∧ r.memory.params.lineSize = 64 ∧
        r.completed.map (fun x => (x.client, x.number, x.request.address)) = [(0, 1, 64)] ∧
        r.issued.map (fun x => (x.client, x.number, x.request.address, x.request.write, x.request.mask 5)) =
          [(0, 0, 64, true, true), (0, 1, 64, false, false)])) = some true := by
    decide +kernel
  rw [created] at done
  obtain ⟨r, executed, seen⟩ := Option.map_eq_some_iff.mp done
  obtain ⟨data, none, size, completed, issued⟩ := of_decide_eq_true seen
  refine ⟨memory, r, created, executed, data, fun isMemory => ?_⟩
  obtain ⟨y, others, onlyRead, atRead, rest⟩ := List.map_eq_cons_iff.mp completed
  cases List.map_eq_nil_iff.mp rest
  obtain ⟨w, others, allIssued, atWrite, rest⟩ := List.map_eq_cons_iff.mp issued
  obtain ⟨x, others, later, atIssued, rest⟩ := List.map_eq_cons_iff.mp rest
  cases List.map_eq_nil_iff.mp rest
  obtain ⟨client, number, address⟩ : y.client = 0 ∧ y.number = 1 ∧ y.request.address = 64 := by simpa using atRead
  obtain ⟨client', number', address', write, mask⟩ : w.client = 0 ∧ w.number = 0 ∧ w.request.address = 64 ∧
      w.request.write = true ∧ w.request.mask 5 = true := by simpa using atWrite
  obtain ⟨numberRead, reads⟩ : x.number = 1 ∧ x.request.write = false := by
    have fields : x.client = 0 ∧ x.number = 1 ∧ x.request.address = 64 ∧ x.request.write = false ∧
      x.request.mask 5 = false := by simpa using atIssued
    exact ⟨fields.2.1, fields.2.2.2.1⟩
  have covers : (w.request.patch 64 (y.request.address + BitVec.ofNat 64 5)).isSome := by
    rw [address]
    unfold Request.patch Request.byte?
    rw [address', show ((64 : Addr) + BitVec.ofNat 64 5 - 64).toNat = 5 from rfl, if_pos (by decide), if_pos ⟨write, mask⟩]
    rfl
  have fresh := isMemory.fresh y (onlyRead ▸ List.mem_cons_self) 5 (size ▸ by decide) w (allIssued ▸ List.mem_cons_self)
    (client'.trans client.symm) (by rw [number, number']; decide) (by rw [size]; exact covers) fun other member _ earlier _ => by
      rw [allIssued, later] at member
      rcases List.mem_cons.mp member with rfl | member
      · exact le_rfl
      · rw [List.mem_singleton.mp member, numberRead, number] at earlier
        exact absurd earlier (Nat.lt_irrefl 1)
  obtain ⟨before, v, after, applied, -⟩ := fresh
  rw [List.length_eq_zero_iff.mp none] at applied
  exact absurd applied (by simp)

end Examples

end Mgsim.Memory
