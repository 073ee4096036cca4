import Mgsim.Lib.Checked
import Mgsim.Lib.Lanes
import Mgsim.Memory.FlatSystem

namespace Mgsim.Memory
open Mgsim.Lib Mgsim.Mmu Mgsim.Drisc

/-- A request as the memory builds it: a read has only its address. -/
def sentRequest (request : Request) : Request := if request.write then request else readRequest request.address

theorem sentRequest_eq {first second : Request} (same : sentRequest first = sentRequest second) :
    first.write = second.write ∧ first.address = second.address ∧ (second.write = true → first = second) := by
  unfold sentRequest at same
  split at same
  · rename_i write
    split at same
    · subst same
      exact ⟨rfl, rfl, fun _ => rfl⟩
    · rw [same] at write
      cases write
  · rename_i read
    split at same
    · rename_i write
      rw [← same] at write
      cases write
    · rename_i read'
      rw [Bool.not_eq_true] at read read'
      refine ⟨read.trans read'.symm, ?_, fun write => ?_⟩
      · simpa [readRequest] using same
      rw [read'] at write
      cases write

@[simp] theorem address_sentRequest (request : Request) : (sentRequest request).address = request.address := by
  unfold sentRequest
  split <;> rfl

namespace ClientRequest

def bare (x : ClientRequest) : ClientRequest := ⟨x.client, sentRequest x.request⟩

/-- A request that has been carried out: a read has its data. -/
def carriedOut (x : ClientRequest) (store : Store) : ClientRequest :=
  if x.request.write then x else ⟨x.client, { x.request with data := store.read x.request.address }⟩

/-- The call by which a request is answered. -/
def answer (x : ClientRequest) : Answer :=
  if x.request.write then .writeCompleted x.client x.request.wid
  else .readCompleted x.client x.request.address x.request.data

variable {x y : ClientRequest} {store : Store}

@[simp] theorem bare_bare (x : ClientRequest) : x.bare.bare = x.bare := by
  obtain ⟨client, request⟩ := x
  cases kind : request.write <;> simp [bare, sentRequest, kind, readRequest]

theorem bare_eq (same : x.bare = y.bare) : x.client = y.client ∧ sentRequest x.request = sentRequest y.request := by
  simpa [bare] using same

theorem answer_carriedOut (same : x.bare = y.bare) : (x.carriedOut store).answer = (y.carriedOut store).answer := by
  obtain ⟨client, sent⟩ := bare_eq same
  obtain ⟨write, address, whole⟩ := sentRequest_eq sent
  cases kind : y.request.write with
  | true =>
    have whole : x = y := by
      cases x
      cases y
      exact congrArg₂ ClientRequest.mk client (whole kind)
    rw [whole]
  | false => simp [carriedOut, answer, kind, write.trans kind, client, address]

/-- The call that answers a request is that of the request in the queue. -/
theorem answer_served (store : Store) (same : x.bare = y.bare) : (x.carriedOut store).answer =
    if y.request.write then .writeCompleted y.client y.request.wid
    else .readCompleted y.client y.request.address (store.read y.request.address) := by
  rw [answer_carriedOut same]
  cases kind : y.request.write <;> simp [answer, carriedOut, kind]

theorem client_carriedOut : (x.carriedOut store).client = x.client := by
  unfold carriedOut
  split <;> rfl

theorem write_carriedOut : (x.carriedOut store).request.write = x.request.write := by
  unfold carriedOut
  split <;> rfl

theorem data_carriedOut (read : x.request.write = false) (i : Nat) :
    (x.carriedOut store).request.data i = store (x.request.address + BitVec.ofNat 64 i) := by
  simp [carriedOut, read, Store.read]

theorem address_carriedOut : (x.carriedOut store).request.address = x.request.address := by
  unfold carriedOut
  split <;> rfl

theorem bare_carriedOut : (x.carriedOut store).bare = x.bare := by
  unfold carriedOut
  split
  · rfl
  · rename_i read
    simp [bare, sentRequest, read]

end ClientRequest

/-- The backing store after a request. -/
def Store.after (store : Store) (lineSize : Nat) (request : Request) : Store :=
  if request.write then store.write request.address request.data request.mask lineSize else store

theorem Store.after_sent {first second : Request} (same : sentRequest first = sentRequest second) (store : Store)
    (lineSize : Nat) : store.after lineSize first = store.after lineSize second := by
  obtain ⟨write, _, whole⟩ := sentRequest_eq same
  cases kind : second.write with
  | true => rw [whole kind]
  | false => simp [after, kind, write.trans kind]

namespace FlatMemory

def SameConfig : FlatMemory → FlatMemory → Prop
  | .serial m, .serial m' => m'.lineSize = m.lineSize
  | .parallel m, .parallel m' => m'.lineSize = m.lineSize ∧ m'.numPorts = m.numPorts
  | .banked m, .banked m' => m'.lineSize = m.lineSize ∧ m'.selector = m.selector
  | _, _ => False

/-- A port for each of the clients. -/
def HasPorts (n : Nat) : FlatMemory → Prop
  | .parallel m => m.numPorts = n
  | _ => True

theorem SameConfig.lineSize {m m' : FlatMemory} (same : m.SameConfig m') : m'.lineSize = m.lineSize := by
  cases m <;> cases m'
  case serial.serial => exact same
  case parallel.parallel => exact same.1
  case banked.banked => exact same.1
  all_goals cases same

theorem SameConfig.hasPorts {m m' : FlatMemory} (same : m.SameConfig m') {n : Nat} (ports : m.HasPorts n) :
    m'.HasPorts n := by
  cases m <;> cases m'
  case serial.serial => trivial
  case parallel.parallel => exact same.2.trans ports
  case banked.banked => trivial
  all_goals cases same

/-- The requests that a bank has not carried out. -/
def bankQueue (bank : Bank) : List ClientRequest :=
  (if bank.busy.new then [bank.request.toClientRequest.bare] else []) ++
    bank.incoming.contents.map BankRequest.toClientRequest

/-- The flag of a bank that has not changed tells what the bank does, and a bank
that has been given work in this cycle takes no more. -/
def BankOrder (bank : Bank) : Prop :=
  (bank.busy.updated = false → bank.busy.new = bank.busy.isSet) ∧
    (bank.busy.updated = true → bank.busy.isSet = false → bank.incoming.popped = true)

/-- The queues of a memory hold these requests in this order, and give these answers. -/
def Represents (pending : List Pending) (answered : List ClientRequest) : FlatMemory → Prop
  | .serial m => Lanes (fun _ => ()) (fun x => x.toClientRequest.bare) (fun _ => m.requests.contents) pending ∧
      answered = []
  | .parallel m => Lanes (fun x => x.client) (fun x => x.toClientRequest.bare)
      (fun p => (m.ports p).requests.contents.map fun request => ⟨p, request⟩) pending ∧ answered = []
  | .banked m => Lanes (fun x => m.bankIndex x.request.address) (fun x => x.toClientRequest.bare)
        (fun b => bankQueue (m.banks b)) pending ∧
      Lanes (fun y => m.bankIndex y.request.address) ClientRequest.answer
        (fun b => (m.banks b).outgoing.contents.map fun y => y.toClientRequest.answer) answered ∧
      ∀ b, BankOrder (m.banks b)

/-- One bank is replaced. -/
theorem represents_setBank {m : BankedMemory} {b : Nat} {bank : Bank} (store : Store) {pending : List Pending}
    {answered : List ClientRequest}
    (lanes : Lanes (fun x : Pending => m.bankIndex x.request.address) (fun x => x.toClientRequest.bare)
      (Function.update (fun i => bankQueue (m.banks i)) b (bankQueue bank)) pending)
    (outgoing : Lanes (fun y : ClientRequest => m.bankIndex y.request.address) ClientRequest.answer
      (Function.update (fun i => (m.banks i).outgoing.contents.map fun y => y.toClientRequest.answer) b
        (bank.outgoing.contents.map fun y => y.toClientRequest.answer)) answered)
    (order : BankOrder bank) (orders : ∀ i, BankOrder (m.banks i)) :
    (FlatMemory.banked ({ m with store := store }.setBank b bank)).Represents pending answered := by
  refine ⟨lanes.congr fun i => ?_, outgoing.congr fun i => ?_, fun i => ?_⟩ <;> by_cases own : i = b
  · subst own
    simp only [BankedMemory.setBank, Function.update_self]
  · simp only [BankedMemory.setBank, Function.update_of_ne own]
  · subst own
    simp only [BankedMemory.setBank, Function.update_self]
  · simp only [BankedMemory.setBank, Function.update_of_ne own]
  · subst own
    simpa only [BankedMemory.setBank, Function.update_self] using order
  · simpa only [BankedMemory.setBank, Function.update_of_ne own] using orders i

section Spec
variable {m m' : FlatMemory} {pending : List Pending} {answered : List ClientRequest}

/-- `SameConfig` with the same store. -/
def SameStore (m m' : FlatMemory) : Prop := m.SameConfig m' ∧ m'.store = m.store

theorem addRequest_spec {now id : Nat} (request : Request) (number : Nat) (held : m.Represents pending answered)
    (done : m.addRequest now id (sentRequest request) = some m') :
    m.SameStore m' ∧ m'.Represents (pending ++ [⟨⟨id, request⟩, number⟩]) answered := by
  cases m with
  | serial m =>
    obtain ⟨lanes, rfl⟩ := held
    obtain ⟨after, added, rfl⟩ := Option.map_eq_some_iff.mp done
    obtain ⟨requests, pushed, rfl⟩ := Option.map_eq_some_iff.mp added
    refine ⟨⟨rfl, rfl⟩, (lanes.push ⟨⟨id, request⟩, number⟩ (i := ()) rfl).congr fun i => ?_, rfl⟩
    rw [Function.update_self]
    exact Buffer.contents_push pushed
  | parallel m =>
    obtain ⟨lanes, rfl⟩ := held
    obtain ⟨after, added, rfl⟩ := Option.map_eq_some_iff.mp done
    obtain ⟨requests, pushed, rfl⟩ := Option.map_eq_some_iff.mp added
    refine ⟨⟨⟨rfl, rfl⟩, rfl⟩, (lanes.push ⟨⟨id, request⟩, number⟩ (i := id) rfl).congr fun p => ?_, rfl⟩
    by_cases same : p = id
    · subst same
      simp only [ParallelMemory.setPort, Function.update_self, Buffer.contents_push pushed, List.map_append,
        List.map_cons, List.map_nil]
      rfl
    · simp only [ParallelMemory.setPort, Function.update_of_ne same]
  | banked m =>
    obtain ⟨lanes, outgoing, orders⟩ := held
    obtain ⟨after, added, rfl⟩ := Option.map_eq_some_iff.mp done
    obtain ⟨incoming, pushed, rfl⟩ := Option.map_eq_some_iff.mp added
    rw [address_sentRequest] at pushed ⊢
    have queue : bankQueue { m.banks (m.bankIndex request.address) with incoming := incoming } =
        bankQueue (m.banks (m.bankIndex request.address)) ++ [(⟨id, request⟩ : ClientRequest).bare] := by
      simp only [bankQueue, Buffer.contents_push pushed, List.map_append, List.map_cons, List.map_nil, List.append_assoc]
      rfl
    refine ⟨⟨⟨rfl, rfl⟩, rfl⟩, represents_setBank m.store ?_ ?_ ⟨(orders _).1, fun updated clear => ?_⟩ orders⟩
    · rw [queue]
      exact lanes.push ⟨⟨id, request⟩, number⟩ rfl
    · exact outgoing.congr fun i => congrFun (Function.update_eq_self _ _) i
    · exact (Buffer.popped_push pushed).trans ((orders _).2 updated clear)

end Spec

/-- What a run of a process does, for the requests and the answers in the queues: nothing; or it gives the
answer of a request that has been carried out; or it carries out the first request of
its lane, which is then answered, or waits to be answered. -/
inductive RunEffect (m : FlatMemory) (lane : Pending → Bool) (pending : List Pending) (answered : List ClientRequest)
    (out : Outcome FlatMemory) : Prop
  | quiet : out.serves = false → out.answer = none → m.SameStore out.left → m.SameStore out.committed →
      out.left.Represents pending answered → out.committed.Represents pending answered →
      RunEffect m lane pending answered out
  | answers {y : ClientRequest} {before after : List ClientRequest} : out.serves = false → out.answer = some y.answer →
      answered = before ++ y :: after → m.SameStore out.left → m.SameStore out.committed →
      out.left.Represents pending answered → out.committed.Represents pending (before ++ after) →
      RunEffect m lane pending answered out
  | serves {x : Pending} {before after : List Pending} : out.serves = true → pending = before ++ x :: after →
      pending.find? lane = some x → pending.eraseP lane = before ++ after → (∀ z ∈ before, lane z = false) →
      m.SameConfig out.left → out.left.store = m.store.after m.lineSize x.request →
      out.left.Represents pending answered → (out.success = true → out.left.SameStore out.committed ∧
        (out.answer = some (x.toClientRequest.carriedOut m.store).answer ∧
            out.committed.Represents (before ++ after) answered ∨
          out.answer = none ∧
            out.committed.Represents (before ++ after) (answered ++ [x.toClientRequest.carriedOut m.store]))) →
      RunEffect m lane pending answered out

section Run
variable {pending : List Pending} {answered : List ClientRequest} {now : Nat}

theorem serial_spec {m : SerialMemory} {out : Outcome SerialMemory}
    (held : (FlatMemory.serial m).Represents pending answered) (done : m.doRequests now = some out) :
    RunEffect (.serial m) (fun _ => true) pending answered (out.map .serial) := by
  obtain ⟨lanes, rfl⟩ := held
  obtain ⟨⟨⟨client, request⟩, requests⟩, taken, rfl⟩ := Option.map_eq_some_iff.mp done
  have found := (Buffer.take?_eq_some taken).1
  obtain ⟨x, before, after, split, first, erased, content, _, outside, rest⟩ := lanes.front (i := ()) found
  have held : (FlatMemory.serial m).Represents pending [] := ⟨lanes, rfl⟩
  have rest' (store : Store) : (FlatMemory.serial { m with store := store, requests := requests, nextdone := 0 }).Represents
      (before ++ after) [] := ⟨rest.congr fun _ => by simp, rfl⟩
  have same : x.toClientRequest.bare = (⟨client, request⟩ : ClientRequest).bare := by
    rw [← content, ClientRequest.bare_bare]
  have stored : m.store.after m.lineSize x.request =
      if request.write then m.store.write request.address request.data request.mask m.lineSize else m.store :=
    Store.after_sent (ClientRequest.bare_eq same).2 m.store m.lineSize
  have answer := ClientRequest.answer_served m.store same
  dsimp only
  split
  · split
    · split
      · rename_i write
        rw [if_pos write] at answer
        rw [if_pos write] at stored
        exact .serves rfl split first erased (fun z member => absurd rfl (outside z member)) rfl stored.symm
          ⟨lanes, rfl⟩ fun _ => ⟨⟨rfl, rfl⟩, Or.inl ⟨congrArg some answer.symm, rest' _⟩⟩
      · rename_i read
        rw [if_neg read] at answer
        rw [if_neg read] at stored
        exact .serves rfl split first erased (fun z member => absurd rfl (outside z member)) rfl stored.symm
          held fun _ => ⟨⟨rfl, rfl⟩, Or.inl ⟨congrArg some answer.symm, rest' _⟩⟩
    · exact .quiet rfl rfl ⟨rfl, rfl⟩ ⟨rfl, rfl⟩ held held
  · exact .quiet rfl rfl ⟨rfl, rfl⟩ ⟨rfl, rfl⟩ held held

theorem parallel_spec {m : ParallelMemory} {out : Outcome ParallelMemory} {p : Nat}
    (held : (FlatMemory.parallel m).Represents pending answered) (done : m.doRequests now p = some out) :
    RunEffect (.parallel m) (fun x => x.client = p) pending answered (out.map .parallel) := by
  obtain ⟨lanes, rfl⟩ := held
  obtain ⟨⟨request, requests⟩, taken, rfl⟩ := Option.map_eq_some_iff.mp done
  have found : (m.ports p).requests.contents.map (fun request => (⟨p, request⟩ : ClientRequest)) =
      ⟨p, request⟩ :: requests.contents.map fun request => ⟨p, request⟩ := by
    rw [(Buffer.take?_eq_some taken).1]
    rfl
  obtain ⟨x, before, after, split, first, erased, content, _, outside, rest⟩ := lanes.front (i := p) found
  have held : (FlatMemory.parallel m).Represents pending [] := ⟨lanes, rfl⟩
  have ports (store : Store) (port : ParallelPort) (same : port.requests.contents = (m.ports p).requests.contents) :
      (FlatMemory.parallel ({ m with store := store }.setPort p port)).Represents pending [] := by
    refine ⟨lanes.congr fun i => ?_, rfl⟩
    by_cases own : i = p
    · subst own
      simp only [ParallelMemory.setPort, Function.update_self, same]
    · simp only [ParallelMemory.setPort, Function.update_of_ne own]
  have rest' (store : Store) : (FlatMemory.parallel ({ m with store := store }.setPort p ⟨requests, 0⟩)).Represents
      (before ++ after) [] := by
    refine ⟨rest.congr fun i => ?_, rfl⟩
    by_cases own : i = p
    · subst own
      simp only [ParallelMemory.setPort, Function.update_self]
    · simp only [ParallelMemory.setPort, Function.update_of_ne own]
  have same : x.toClientRequest.bare = (⟨p, request⟩ : ClientRequest).bare := by
    rw [← content, ClientRequest.bare_bare]
  have stored : m.store.after m.lineSize x.request =
      if request.write then m.store.write request.address request.data request.mask m.lineSize else m.store :=
    Store.after_sent (ClientRequest.bare_eq same).2 m.store m.lineSize
  have answer := ClientRequest.answer_served m.store same
  have other (z : Pending) (member : z ∈ before) : decide (z.client = p) = false := decide_eq_false (outside z member)
  dsimp only
  split
  · exact .quiet rfl rfl ⟨⟨rfl, rfl⟩, rfl⟩ ⟨⟨rfl, rfl⟩, rfl⟩ held (ports m.store _ rfl)
  · split
    · split
      · rename_i write
        rw [if_pos write] at answer
        rw [if_pos write] at stored
        exact .serves rfl split first erased other ⟨rfl, rfl⟩ stored.symm ⟨lanes, rfl⟩
          fun _ => ⟨⟨⟨rfl, rfl⟩, rfl⟩, Or.inl ⟨congrArg some answer.symm, rest' _⟩⟩
      · rename_i read
        rw [if_neg read] at answer
        rw [if_neg read] at stored
        exact .serves rfl split first erased other ⟨rfl, rfl⟩ stored.symm held
          fun _ => ⟨⟨⟨rfl, rfl⟩, rfl⟩, Or.inl ⟨congrArg some answer.symm, rest' _⟩⟩
    · exact .quiet rfl rfl ⟨⟨rfl, rfl⟩, rfl⟩ ⟨⟨rfl, rfl⟩, rfl⟩ held held

section Bank
variable {m : BankedMemory} {lane : Pending → Bool} {b : Nat} {out : Outcome BankedMemory}

theorem incoming_spec (held : (FlatMemory.banked m).Represents pending answered)
    (done : m.doIncoming now b = some out) : RunEffect (.banked m) lane pending answered (out.map .banked) := by
  have same := held
  obtain ⟨lanes, outgoing, orders⟩ := held
  obtain ⟨⟨request, incoming⟩, taken, rfl⟩ := Option.map_eq_some_iff.mp done
  have found := (Buffer.take?_eq_some taken).1
  obtain ⟨fresh, popped⟩ := Buffer.popped_of_take? taken
  dsimp only
  split
  · split
    · exact .quiet rfl rfl ⟨⟨rfl, rfl⟩, rfl⟩ ⟨⟨rfl, rfl⟩, rfl⟩ same same
    · rename_i clear
      rw [Bool.not_eq_true] at clear
      have unchanged : (m.banks b).busy.updated = false := by
        cases updated : (m.banks b).busy.updated with
        | false => rfl
        | true => exact absurd (fresh.symm.trans ((orders b).2 updated clear)) Bool.false_ne_true
      have free : (m.banks b).busy.new = false := ((orders b).1 unchanged).trans clear
      have bare : request.toClientRequest.bare = request.toClientRequest := by
        have own := lanes b
        simp only [bankQueue, free, Bool.false_eq_true, if_false, List.nil_append, found, List.map_cons] at own
        obtain ⟨x, _, _, content, _⟩ := List.map_eq_cons_iff.mp own.symm
        rw [← content, ClientRequest.bare_bare]
      generalize finished : ({ request with done := now + m.getMemoryDelay m.lineSize } : BankRequest) = next
      have nextBare : next.toClientRequest.bare = request.toClientRequest := by
        rw [← finished]
        exact bare
      have left : (FlatMemory.banked (m.setBank b { m.banks b with request := next })).Represents pending answered := by
        refine represents_setBank m.store (lanes.congr fun i => ?_) (outgoing.congr fun i => ?_) (orders b)
          orders
        · refine congrFun ((congrArg (Function.update _ b) ?_).trans (Function.update_eq_self b _)) i
          simp [bankQueue, free]
        · exact congrFun (Function.update_eq_self b _) i
      split
      · exact .quiet rfl rfl ⟨⟨rfl, rfl⟩, rfl⟩ ⟨⟨rfl, rfl⟩, rfl⟩ left left
      · rename_i busy set
        obtain ⟨_, rfl⟩ := Flag.assign_eq_some set
        refine .quiet rfl rfl ⟨⟨rfl, rfl⟩, rfl⟩ ⟨⟨rfl, rfl⟩, rfl⟩ left ?_
        refine represents_setBank m.store (lanes.congr fun i => ?_) (outgoing.congr fun i => ?_)
          ⟨nofun, fun _ _ => popped⟩ orders
        · refine congrFun ((congrArg (Function.update _ b) ?_).trans (Function.update_eq_self b _)) i
          simp [bankQueue, free, found, nextBare]
        · exact congrFun (Function.update_eq_self b _) i
  · exact .quiet rfl rfl ⟨⟨rfl, rfl⟩, rfl⟩ ⟨⟨rfl, rfl⟩, rfl⟩ same same

theorem outgoing_spec (held : (FlatMemory.banked m).Represents pending answered)
    (done : m.doOutgoing now b = some out) : RunEffect (.banked m) lane pending answered (out.map .banked) := by
  have same := held
  obtain ⟨lanes, outgoing, orders⟩ := held
  obtain ⟨⟨⟨⟨client, request⟩, finished⟩, queue⟩, taken, rfl⟩ := Option.map_eq_some_iff.mp done
  have found : (m.banks b).outgoing.contents.map (fun y => y.toClientRequest.answer) =
      (⟨client, request⟩ : ClientRequest).answer :: queue.contents.map fun y => y.toClientRequest.answer := by
    rw [(Buffer.take?_eq_some taken).1]
    rfl
  obtain ⟨y, before, after, split, _, _, answer, _, _, rest⟩ := outgoing.front (i := b) found
  dsimp only
  split
  · refine .answers rfl (congrArg some answer.symm) split ⟨⟨rfl, rfl⟩, rfl⟩ ⟨⟨rfl, rfl⟩, rfl⟩ same ?_
    exact represents_setBank m.store (lanes.congr fun i => congrFun (Function.update_eq_self b _) i) rest
      (orders b) orders
  · exact .quiet rfl rfl ⟨⟨rfl, rfl⟩, rfl⟩ ⟨⟨rfl, rfl⟩, rfl⟩ same same

theorem access_eq (m : BankedMemory) (b : Nat) : ∃ request : BankRequest,
    request.toClientRequest = (m.banks b).request.toClientRequest.carriedOut m.store ∧
      m.access b = { m with store := m.store.after m.lineSize (m.banks b).request.request }.setBank b
        { m.banks b with request := request } := by
  cases kind : (m.banks b).request.request.write with
  | true =>
    refine ⟨(m.banks b).request, by simp [ClientRequest.carriedOut, kind], ?_⟩
    simp only [BankedMemory.access, Store.after, BankedMemory.setBank, kind, if_true, Function.update_eq_self]
  | false =>
    refine ⟨{ (m.banks b).request with request := { (m.banks b).request.request with
      data := m.store.read (m.banks b).request.request.address } }, by simp [ClientRequest.carriedOut, kind], ?_⟩
    simp only [BankedMemory.access, Store.after, BankedMemory.setBank, kind, Bool.false_eq_true, if_false]

theorem addToQueue_eq_some {queue queue' : Buffer BankRequest} {request : ClientRequest} {data : Bool}
    (done : m.addToQueue now queue request data = some queue') : ∃ item : BankRequest,
      item.toClientRequest = request ∧ queue'.contents = queue.contents ++ [item] :=
  ⟨_, rfl, Buffer.contents_push done⟩

/-- A bank carries out the request that it works on. -/
theorem request_spec (held : (FlatMemory.banked m).Represents pending answered) (done : m.doRequest now b = some out) :
    RunEffect (.banked m) (fun x => m.bankIndex x.request.address = b) pending answered (out.map .banked) := by
  have same := held
  obtain ⟨lanes, outgoing, orders⟩ := held
  simp only [BankedMemory.doRequest] at done
  split at done
  · cases done
  rename_i works
  rw [not_or, not_not, Bool.not_eq_true] at works
  obtain ⟨set, unchanged⟩ := works
  split at done
  · have busy : (m.banks b).busy.new = true := ((orders b).1 unchanged).trans set
    have found : bankQueue (m.banks b) = (m.banks b).request.toClientRequest.bare ::
        (m.banks b).incoming.contents.map BankRequest.toClientRequest := by
      rw [bankQueue, if_pos busy]
      rfl
    obtain ⟨x, before, after, whole, first, erased, content, own, outside, rest⟩ := lanes.front (i := b) found
    obtain ⟨request, carried, access⟩ := access_eq m b
    have stored := Store.after_sent (ClientRequest.bare_eq content).2 m.store m.lineSize
    have bare : request.toClientRequest.bare = (m.banks b).request.toClientRequest.bare := by
      rw [carried, ClientRequest.bare_carriedOut]
    have answer : (x.toClientRequest.carriedOut m.store).answer = request.toClientRequest.answer := by
      rw [carried, ClientRequest.answer_carriedOut content]
    have place : m.bankIndex (x.toClientRequest.carriedOut m.store).request.address = b := by
      rw [ClientRequest.address_carriedOut]
      exact own
    have other (z : Pending) (member : z ∈ before) : decide (m.bankIndex z.request.address = b) = false :=
      decide_eq_false (outside z member)
    have left : (FlatMemory.banked (m.access b)).Represents pending answered := by
      rw [access]
      refine represents_setBank _ (lanes.congr fun i => ?_) (outgoing.congr fun i => ?_) (orders b) orders
      · refine congrFun ((congrArg (Function.update _ b) ?_).trans (Function.update_eq_self b _)) i
        simp [bankQueue, bare]
      · exact congrFun (Function.update_eq_self b _) i
    have config : (FlatMemory.banked m).SameConfig (.banked (m.access b)) := by
      rw [access]
      exact ⟨rfl, rfl⟩
    have store : (m.access b).store = m.store.after m.lineSize x.request := by
      rw [access]
      exact stored.symm
    have bank : (m.access b).banks b = { m.banks b with request := request } := by
      rw [access]
      exact Function.update_self b _ _
    split at done
    · rename_i queue busy' pushed cleared
      cases done
      refine .serves rfl whole first erased other config store left fun _ => ⟨⟨⟨rfl, rfl⟩, rfl⟩, Or.inr ⟨rfl, ?_⟩⟩
      rw [bank] at pushed cleared
      obtain ⟨item, answers, contents⟩ := addToQueue_eq_some pushed
      obtain ⟨_, rfl⟩ := Flag.assign_eq_some cleared
      simp only [bank]
      rw [access, BankedMemory.setBank, BankedMemory.setBank]
      simp only [Function.update_idem]
      refine represents_setBank _ rest ?_ ⟨nofun, fun _ clear => absurd (set.symm.trans clear) (by decide)⟩ orders
      have queued : queue.contents.map (fun y => y.toClientRequest.answer) =
          (m.banks b).outgoing.contents.map (fun y => y.toClientRequest.answer) ++
            [(x.toClientRequest.carriedOut m.store).answer] := by
        rw [contents, List.map_append, List.map_singleton, answers, answer]
      simp only [queued]
      exact outgoing.push _ place
    · cases done
      exact .serves rfl whole first erased other config store left nofun
  · cases done
    exact .quiet rfl rfl ⟨⟨rfl, rfl⟩, rfl⟩ ⟨⟨rfl, rfl⟩, rfl⟩ same same

end Bank

theorem run_spec {m : FlatMemory} {process : MemoryProcess} {out : Outcome FlatMemory}
    (held : m.Represents pending answered) (done : m.run now process = some out) :
    RunEffect m (m.lane process) pending answered out := by
  cases m with
  | serial m =>
    cases process with
    | requests port =>
      cases port with
      | zero =>
        obtain ⟨result, runs, rfl⟩ := Option.map_eq_some_iff.mp done
        exact serial_spec held runs
      | succ => cases done
    | incoming | bank | outgoing => cases done
  | parallel m =>
    cases process with
    | requests port =>
      obtain ⟨result, runs, rfl⟩ := Option.map_eq_some_iff.mp done
      exact parallel_spec held runs
    | incoming | bank | outgoing => cases done
  | banked m =>
    cases process with
    | requests port => cases port <;> cases done
    | incoming b =>
      obtain ⟨result, runs, rfl⟩ := Option.map_eq_some_iff.mp done
      exact incoming_spec held runs
    | bank b =>
      obtain ⟨result, runs, rfl⟩ := Option.map_eq_some_iff.mp done
      exact request_spec held runs
    | outgoing b =>
      obtain ⟨result, runs, rfl⟩ := Option.map_eq_some_iff.mp done
      exact outgoing_spec held runs

/-- The end of a cycle does not change what is in the queues. -/
theorem update_spec {m : FlatMemory} (held : m.Represents pending answered) :
    m.SameStore m.update ∧ m.update.Represents pending answered := by
  cases m with
  | serial m =>
    obtain ⟨lanes, rfl⟩ := held
    exact ⟨⟨rfl, rfl⟩, lanes.congr fun _ => Buffer.contents_update _, rfl⟩
  | parallel m =>
    obtain ⟨lanes, rfl⟩ := held
    refine ⟨⟨⟨rfl, rfl⟩, rfl⟩, lanes.congr fun p => ?_, rfl⟩
    exact congrArg (List.map _) (Buffer.contents_update _)
  | banked m =>
    obtain ⟨lanes, outgoing, orders⟩ := held
    refine ⟨⟨⟨rfl, rfl⟩, rfl⟩, lanes.congr fun b => ?_, outgoing.congr fun b => ?_, fun b => ⟨fun _ => rfl, nofun⟩⟩
    · exact congrArg (_ ++ List.map _ ·) (Buffer.contents_update _)
    · exact congrArg (List.map _) (Buffer.contents_update _)

theorem create_spec {config : MemoryConfig} {numClients : Nat} {store : Store} {m : FlatMemory}
    (made : FlatMemory.create config numClients store = .ok m) :
    m.Represents [] [] ∧ m.store = store ∧ m.lineSize = config.lineSize ∧ m.HasPorts numClients := by
  unfold create at made
  split at made
  · cases made
    exact ⟨⟨fun _ => rfl, rfl⟩, rfl, rfl, trivial⟩
  · cases made
    exact ⟨⟨fun _ => rfl, rfl⟩, rfl, rfl, rfl⟩
  · obtain ⟨selector, _, built⟩ := bind_ok made
    cases built
    exact ⟨⟨fun _ => rfl, fun _ => rfl, fun _ => ⟨fun _ => rfl, nofun⟩⟩, rfl, rfl, trivial⟩

/-- An idle memory holds nothing. -/
theorem eq_nil_of_idle {m : FlatMemory} (held : m.Represents pending answered) (idle : m.Idle)
    {n : Nat} (ports : m.HasPorts n) (owned : ∀ x ∈ pending, x.client < n) : pending = [] ∧ answered = [] := by
  cases m with
  | serial m =>
    obtain ⟨lanes, rfl⟩ := held
    exact ⟨lanes.eq_nil fun _ _ => idle, rfl⟩
  | parallel m =>
    obtain ⟨lanes, rfl⟩ := held
    refine ⟨lanes.eq_nil fun x member => ?_, rfl⟩
    rw [idle x.client (ports.symm ▸ owned x member)]
    rfl
  | banked m =>
    obtain ⟨lanes, outgoing, _⟩ := held
    refine ⟨lanes.eq_nil fun x _ => ?_, outgoing.eq_nil fun y _ => ?_⟩
    · obtain ⟨incoming, free, _⟩ := idle (m.bankIndex x.request.address)
      simp [bankQueue, incoming, free]
    · obtain ⟨_, _, none⟩ := idle (m.bankIndex y.request.address)
      rw [none]
      rfl

end Run

end FlatMemory

end Mgsim.Memory
