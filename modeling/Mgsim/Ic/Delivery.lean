import Mgsim.Ic.Interconnect

namespace Mgsim.Ic
open Mgsim.Lib
variable {M : Type}

/-- The receivers of a message. -/
def Stack.targets (stack : Stack) (m : OutgoingMessage M) : List Nat := if m.broadcast then stack.bcastReceivers else [m.dst]

theorem Stack.addressed_iff {stack : Stack} {m : OutgoingMessage M} {t : Nat} :
    stack.addressed t m = true ↔ t ∈ stack.targets m := by
  unfold addressed targets
  split
  · exact decide_eq_true_iff
  · rw [decide_eq_true_iff, List.mem_singleton]

theorem Stack.nodup_targets (stack : Stack) (m : OutgoingMessage M) : (stack.targets m).Nodup := by
  unfold targets
  split
  · exact List.nodup_range.filter _
  · exact List.nodup_cons.mpr ⟨List.not_mem_nil, .nil⟩

/-- What a receiver has taken, and what waits for it. -/
def Interconnect.held (ic : Interconnect M) (t : Nat) : List (Message M) := ic.received t ++ (ic.destinations t).contents

/-- A message has been delivered to some receivers. -/
structure Gets (ic ic' : Interconnect M) (msg : Message M) (receivers : List Nat) : Prop where
  stack : ic'.stack = ic.stack
  sources : ic'.sources = ic.sources
  ports : ic'.ports = ic.ports
  unbuffered : ∀ t, ic.stack.destinationBuffered t = false → ic'.destinations t = ic.destinations t
  others : ∀ t, t ∉ receivers → ic'.destinations t = ic.destinations t
  sizes : ∀ t, (ic'.destinations t).maxPushes = (ic.destinations t).maxPushes ∧
    (ic'.destinations t).maxSize = (ic.destinations t).maxSize
  held : (∀ t, ic.stack.destinationBuffered t = false → (ic.destinations t).contents = []) →
    ∀ t, ic'.held t = ic.held t ++ if t ∈ receivers then [msg] else []

namespace Interconnect
variable {ic ic' : Interconnect M} {accepts : Nat → Bool} {msg : Message M} {m : OutgoingMessage M} {s t : Nat} {done : Bool}

theorem setSource_self (ic : Interconnect M) (s : Nat) : ic.setSource s (ic.sources s) = ic := by
  unfold setSource
  rw [Function.update_eq_self]

theorem setDestination_self (ic : Interconnect M) (t : Nat) : ic.setDestination t (ic.destinations t) = ic := by
  unfold setDestination
  rw [Function.update_eq_self]

theorem deliver_check (called : ic.deliver .check accepts msg t = some (done, ic')) : ic' = ic := by
  unfold deliver at called
  split at called
  · obtain ⟨⟨done', b⟩, pushed, same⟩ := Option.map_eq_some_iff.mp called
    cases same
    rw [Buffer.pushIn_check pushed, setDestination_self]
  · cases called
    rfl

theorem deliverAll_check {list : List Nat} (called : deliverAll .check accepts msg list ic = some (done, ic')) : ic' = ic := by
  induction list generalizing ic ic' done with
  | nil =>
    cases called
    rfl
  | cons t rest ih =>
    obtain ⟨⟨first, middle⟩, delivered, later⟩ := Option.bind_eq_some_iff.mp called
    obtain ⟨⟨others, after⟩, delivered', same⟩ := Option.map_eq_some_iff.mp later
    cases same
    rw [ih delivered', deliver_check delivered]

theorem mediumSend_check (called : mediumSend .check accepts s m ic = some (done, ic')) : ic' = ic := by
  unfold mediumSend wireSend at called
  split at called
  · split at called
    · exact deliverAll_check called
    · split at called
      · exact deliver_check called
      · cases called
  · cases called
    rfl

theorem sourceSend_check (called : sourceSend .check accepts s m ic = some (done, ic')) : ic' = ic := by
  unfold sourceSend at called
  split at called
  · obtain ⟨⟨done', b⟩, pushed, same⟩ := Option.map_eq_some_iff.mp called
    cases same
    rw [Buffer.pushIn_check pushed, setSource_self]
  · exact mediumSend_check called

theorem doSend_check (called : doSend .check accepts s ic = some (done, ic')) : ic' = ic := by
  obtain ⟨⟨m, rest⟩, _, later⟩ := Option.bind_eq_some_iff.mp called
  obtain ⟨⟨sent, after⟩, delivered, same⟩ := Option.map_eq_some_iff.mp later
  cases same
  rw [if_neg (fun both => nomatch both.2)]
  exact mediumSend_check delivered

theorem doReceive_check {accepts : Bool} (called : doReceive .check accepts t ic = some (done, ic')) : ic' = ic := by
  obtain ⟨⟨msg, rest⟩, _, same⟩ := Option.map_eq_some_iff.mp called
  cases same
  exact if_neg fun both => nomatch both.2

/-- A receiver gets the message that is delivered to it. -/
theorem deliver_commit (called : ic.deliver .commit accepts msg t = some (true, ic')) : Gets ic ic' msg [t] := by
  unfold deliver at called
  split at called
  · rename_i buffered
    obtain ⟨⟨done', b⟩, pushed, same⟩ := Option.map_eq_some_iff.mp called
    cases same
    rw [Buffer.pushIn_commit pushed]
    refine ⟨rfl, rfl, rfl, fun u direct => Function.update_of_ne ?_ ..,
      fun u other => Function.update_of_ne (fun here => other (List.mem_singleton.mpr here)) .., fun u => ?_, fun _ u => ?_⟩
    · rintro rfl
      cases buffered.symm.trans direct
    · unfold setDestination
      dsimp only
      by_cases here : u = t
      · rw [here, Function.update_self]
        exact ⟨rfl, rfl⟩
      · rw [Function.update_of_ne here]
        exact ⟨rfl, rfl⟩
    · unfold held setDestination
      dsimp only
      by_cases here : u = t
      · rw [here, Function.update_self, if_pos List.mem_cons_self, Buffer.contents_pushed, List.append_assoc]
      · rw [Function.update_of_ne here, if_neg fun member => here (List.mem_singleton.mp member), List.append_nil]
  · rename_i direct
    rw [Bool.not_eq_true] at direct
    obtain ⟨accepted, same⟩ := Prod.mk.inj (Option.some.inj called)
    rw [if_pos ⟨rfl, accepted⟩] at same
    subst same
    refine ⟨rfl, rfl, rfl, fun _ _ => rfl, fun _ _ => rfl, fun _ => ⟨rfl, rfl⟩, fun empty u => ?_⟩
    unfold held take
    dsimp only
    by_cases here : u = t
    · rw [here, Function.update_self, if_pos List.mem_cons_self, empty t direct, List.append_nil, List.append_nil]
    · rw [Function.update_of_ne here, if_neg fun member => here (List.mem_singleton.mp member), List.append_nil]

/-- All receivers get the message. -/
theorem deliverAll_commit {list : List Nat} (distinct : list.Nodup)
    (called : deliverAll .commit accepts msg list ic = some (true, ic')) : Gets ic ic' msg list := by
  induction list generalizing ic ic' with
  | nil =>
    cases called
    exact ⟨rfl, rfl, rfl, fun _ _ => rfl, fun _ _ => rfl, fun _ => ⟨rfl, rfl⟩, fun _ t => (List.append_nil _).symm⟩
  | cons t rest ih =>
    obtain ⟨fresh, distinct⟩ := List.nodup_cons.mp distinct
    obtain ⟨⟨first, middle⟩, delivered, later⟩ := Option.bind_eq_some_iff.mp called
    obtain ⟨⟨others, after⟩, delivered', same⟩ := Option.map_eq_some_iff.mp later
    obtain ⟨all, rfl⟩ := Prod.mk.inj same
    obtain ⟨rfl, rfl⟩ := (Bool.and_eq_true_iff ..).mp all
    have one := deliver_commit delivered
    have more := ih distinct delivered'
    refine ⟨more.stack.trans one.stack, more.sources.trans one.sources, more.ports.trans one.ports, fun u direct => ?_,
      fun u other => ?_, fun u => ?_, fun empty u => ?_⟩
    · exact (more.unbuffered u (one.stack ▸ direct)).trans (one.unbuffered u direct)
    · rw [List.mem_cons, not_or] at other
      exact (more.others u other.2).trans (one.others u fun member => other.1 (List.mem_singleton.mp member))
    · exact ⟨(more.sizes u).1.trans (one.sizes u).1, (more.sizes u).2.trans (one.sizes u).2⟩
    · have stillEmpty (v : Nat) (direct : middle.stack.destinationBuffered v = false) :
          (middle.destinations v).contents = [] := by
        rw [one.stack] at direct
        rw [one.unbuffered v direct]
        exact empty v direct
      rw [more.held stillEmpty u, one.held empty u, List.append_assoc]
      congr 1
      by_cases here : u = t
      · subst here
        simp [fresh]
      · simp [here]

theorem mediumSend_commit (called : mediumSend .commit accepts s m ic = some (true, ic')) :
    ic.acquired s m = true ∧ Gets ic ic' m.msg (ic.stack.targets m) := by
  unfold mediumSend wireSend at called
  split at called
  · rename_i acquired
    refine ⟨acquired, ?_⟩
    unfold Stack.targets
    split at called
    · rename_i broadcast
      rw [if_pos broadcast]
      exact deliverAll_commit (List.nodup_range.filter _) called
    · rename_i single
      rw [if_neg single]
      split at called
      · exact deliver_commit called
      · cases called
  · cases called

end Interconnect

/-- What every event keeps. -/
structure Books (r : IcRecord M) : Prop where
  empty : ∀ t, r.ic.stack.destinationBuffered t = false → (r.ic.destinations t).contents = []
  direct : ∀ s, r.ic.stack.sourceBuffered s = false → (r.ic.sources s).contents = []
  own : ∀ s, ∀ m ∈ (r.ic.sources s).contents, m.msg.src = s
  inOrder : ∀ s t, ((r.accepted.filter fun m => m.msg.src = s).filter (r.ic.stack.addressed t)).map OutgoingMessage.msg =
    (r.ic.held t).filter (fun msg => msg.src = s) ++
      ((r.ic.sources s).contents.filter (r.ic.stack.addressed t)).map OutgoingMessage.msg
  numbered : r.accepted.map (fun m => m.msg.number) = List.range r.accepted.length

namespace Books
variable {r : IcRecord M} {ic' : Interconnect M} {m : OutgoingMessage M} {s t : Nat}
open Interconnect

theorem start (stack : Stack) (sourceSize destinationSize : Nat → Option Nat) :
    Books (.start stack sourceSize destinationSize : IcRecord M) :=
  ⟨fun _ _ => rfl, fun _ _ => rfl, fun _ _ => nofun, fun _ _ => rfl, rfl⟩

/-- The messages of a sender for a receiver, with one more. -/
theorem filter_accepted (accepted : List (OutgoingMessage M)) (m : OutgoingMessage M) (stack : Stack) (s t : Nat) :
    (((accepted ++ [m]).filter fun m => m.msg.src = s).filter (stack.addressed t)).map OutgoingMessage.msg =
      ((accepted.filter fun m => m.msg.src = s).filter (stack.addressed t)).map OutgoingMessage.msg ++
        if m.msg.src = s ∧ t ∈ stack.targets m then [m.msg] else [] := by
  rw [List.filter_append, List.filter_append, List.map_append]
  congr 1
  by_cases own : m.msg.src = s
  · by_cases target : t ∈ stack.targets m
    · rw [if_pos ⟨own, target⟩]
      simp [own, Stack.addressed_iff.mpr target]
    · rw [if_neg fun both => target both.2]
      have not : stack.addressed t m = false := by
        rw [← Bool.not_eq_true]
        exact fun addressed => target (Stack.addressed_iff.mp addressed)
      simp [own, not]
  · rw [if_neg fun both => own both.1]
    simp [own]

theorem filter_target (m : OutgoingMessage M) (targets : List Nat) (s t : Nat) :
    (if t ∈ targets then [m.msg] else []).filter (fun msg => msg.src = s) =
      if m.msg.src = s ∧ t ∈ targets then [m.msg] else [] := by
  by_cases target : t ∈ targets
  · by_cases own : m.msg.src = s <;> simp [target, own]
  · simp [target]

theorem numbered_append (kept : Books r) (number : m.msg.number = r.accepted.length) :
    (r.accepted ++ [m]).map (fun m => m.msg.number) = List.range (r.accepted ++ [m]).length := by
  rw [List.map_append, List.map_singleton, kept.numbered, number, List.length_append, List.length_singleton,
    List.range_succ]

/-- A sender without a buffer sends a message. -/
theorem sendDirect (kept : Books r) (unbuffered : r.ic.stack.sourceBuffered s = false) (src : m.msg.src = s)
    (number : m.msg.number = r.accepted.length) (gets : Gets r.ic ic' m.msg (r.ic.stack.targets m)) :
    Books ⟨ic', r.accepted ++ [m]⟩ := by
  refine ⟨fun u direct => ?_, ?_, ?_, fun s' u => ?_, kept.numbered_append number⟩
  · rw [gets.stack] at direct
    rw [gets.unbuffered u direct]
    exact kept.empty u direct
  · rw [gets.stack, gets.sources]
    exact kept.direct
  · rw [gets.sources]
    exact kept.own
  · dsimp only
    rw [gets.stack, gets.sources, gets.held kept.empty u, filter_accepted, List.filter_append, filter_target, kept.inOrder]
    by_cases here : s' = s
    · rw [here, kept.direct s unbuffered]
      simp
    · rw [if_neg fun both => here (both.1.symm.trans src)]
      simp

/-- A buffered sender sends its first message. -/
theorem sendBuffered (kept : Books r) {rest : Buffer (OutgoingMessage M)} (taken : (r.ic.sources s).take? = some (m, rest))
    (gets : Gets r.ic ic' m.msg (r.ic.stack.targets m)) : Books { r with ic := ic'.setSource s rest } := by
  obtain ⟨front, -⟩ := Buffer.take?_eq_some taken
  have src : m.msg.src = s := kept.own s m (by rw [front]; exact List.mem_cons_self)
  have sources (s' : Nat) : ((ic'.setSource s rest).sources s').contents =
      if s' = s then rest.contents else (r.ic.sources s').contents := by
    unfold setSource
    dsimp only
    by_cases here : s' = s
    · rw [here, Function.update_self, if_pos rfl]
    · rw [Function.update_of_ne here, if_neg here, gets.sources]
  refine ⟨fun u direct => ?_, fun s' direct => ?_, fun s' x member => ?_, fun s' u => ?_, kept.numbered⟩
  · have direct : ic'.stack.destinationBuffered u = false := direct
    rw [gets.stack] at direct
    show (ic'.destinations u).contents = []
    rw [gets.unbuffered u direct]
    exact kept.empty u direct
  · have direct : ic'.stack.sourceBuffered s' = false := direct
    rw [gets.stack] at direct
    have none := kept.direct s' direct
    dsimp only
    rw [sources]
    split
    · rename_i here
      rw [here, front] at none
      cases none
    · exact none
  · dsimp only at member
    rw [sources] at member
    split at member
    · rename_i here
      rw [here]
      refine kept.own s x ?_
      rw [front]
      exact List.mem_cons_of_mem _ member
    · exact kept.own s' x member
  · have held : (ic'.setSource s rest).held u = ic'.held u := rfl
    have stack : (ic'.setSource s rest).stack = r.ic.stack := gets.stack
    dsimp only
    rw [stack, sources, held, gets.held kept.empty u, List.filter_append, filter_target, kept.inOrder, List.append_assoc]
    congr 1
    by_cases here : s' = s
    · rw [here, if_pos rfl, front]
      by_cases target : u ∈ r.ic.stack.targets m
      · rw [if_pos ⟨src, target⟩, List.filter_cons_of_pos (Stack.addressed_iff.mpr target)]
        rfl
      · rw [if_neg fun both => target both.2,
          List.filter_cons_of_neg fun addressed => target (Stack.addressed_iff.mp addressed)]
        rfl
    · rw [if_neg here, if_neg fun both => here (both.1.symm.trans src)]
      rfl

/-- A message waits in the buffer of its sender. -/
theorem queue (kept : Books r) (buffered : r.ic.stack.sourceBuffered s = true) (src : m.msg.src = s)
    (number : m.msg.number = r.accepted.length) {b : Buffer (OutgoingMessage M)}
    (contents : b.contents = (r.ic.sources s).contents ++ [m]) : Books ⟨r.ic.setSource s b, r.accepted ++ [m]⟩ := by
  have sources (s' : Nat) : ((r.ic.setSource s b).sources s').contents =
      (r.ic.sources s').contents ++ if s' = s then [m] else [] := by
    unfold setSource
    dsimp only
    by_cases here : s' = s
    · rw [here, Function.update_self, if_pos rfl, contents]
    · rw [Function.update_of_ne here, if_neg here, List.append_nil]
  refine ⟨kept.empty, fun s' direct => ?_, fun s' x member => ?_, fun s' u => ?_, kept.numbered_append number⟩
  · have other : s' ≠ s := by
      rintro rfl
      cases buffered.symm.trans direct
    dsimp only
    rw [sources, if_neg other, List.append_nil]
    exact kept.direct s' direct
  · dsimp only at member
    rw [sources] at member
    rcases List.mem_append.mp member with earlier | new
    · exact kept.own s' x earlier
    · split at new
      · rename_i here
        rw [List.mem_singleton.mp new, src, here]
      · cases new
  · have held : (r.ic.setSource s b).held u = r.ic.held u := rfl
    have stack : (r.ic.setSource s b).stack = r.ic.stack := rfl
    dsimp only
    rw [stack, sources, held, filter_accepted, kept.inOrder, List.filter_append, List.map_append, List.append_assoc]
    congr 2
    by_cases here : s' = s
    · rw [if_pos here]
      by_cases target : u ∈ r.ic.stack.targets m
      · rw [if_pos ⟨src.trans here.symm, target⟩, List.filter_cons_of_pos (Stack.addressed_iff.mpr target)]
        rfl
      · rw [if_neg fun both => target both.2,
          List.filter_cons_of_neg fun addressed => target (Stack.addressed_iff.mp addressed)]
        rfl
    · rw [if_neg here, if_neg fun both => here (both.1.symm.trans src)]
      rfl

/-- What is neither sent nor taken stays where it is. -/
theorem keep (kept : Books r) (stack : ic'.stack = r.ic.stack) (held : ∀ t, ic'.held t = r.ic.held t)
    (empty : ∀ t, r.ic.stack.destinationBuffered t = false → (ic'.destinations t).contents = [])
    (sources : ∀ s, (ic'.sources s).contents = (r.ic.sources s).contents) : Books { r with ic := ic' } := by
  refine ⟨fun t direct => ?_, fun s direct => ?_, fun s => ?_, fun s t => ?_, kept.numbered⟩
  · exact empty t (stack ▸ direct)
  · dsimp only
    rw [sources]
    exact kept.direct s (stack ▸ direct)
  · dsimp only
    rw [sources]
    exact kept.own s
  · dsimp only
    rw [stack, held, sources]
    exact kept.inOrder s t

/-- A receiver takes the first message of its buffer. -/
theorem receive (kept : Books r) {msg : Message M} {rest : Buffer (Message M)}
    (taken : (r.ic.destinations t).take? = some (msg, rest)) :
    Books { r with ic := (r.ic.take t msg).setDestination t rest } := by
  obtain ⟨front, -⟩ := Buffer.take?_eq_some taken
  refine kept.keep rfl (fun u => ?_) (fun u direct => ?_) fun _ => rfl
  · unfold held setDestination take
    dsimp only
    by_cases here : u = t
    · rw [here, Function.update_self, Function.update_self, front, List.append_assoc]
      rfl
    · rw [Function.update_of_ne here, Function.update_of_ne here]
  · have none := kept.empty u direct
    unfold setDestination
    dsimp only
    by_cases here : u = t
    · rw [here, front] at none
      cases none
    · rw [Function.update_of_ne here]
      exact none

/-- A buffer whose changes take effect holds the same. -/
theorem update (kept : Books r) (e : IcEvent M) (isUpdate : e = .updateSource s ∨ e = .updateDestination t)
    {r' : IcRecord M} (called : r.step e = some r') : Books r' := by
  rcases isUpdate with rfl | rfl
  · cases called
    refine kept.keep rfl (fun _ => rfl) kept.empty fun s' => ?_
    unfold setSource
    dsimp only
    by_cases here : s' = s
    · rw [here, Function.update_self, Buffer.contents_update]
    · rw [Function.update_of_ne here]
  · cases called
    have same (u : Nat) : ((r.ic.setDestination t (r.ic.destinations t).update).destinations u).contents =
        (r.ic.destinations u).contents := by
      unfold setDestination
      dsimp only
      by_cases here : u = t
      · rw [here, Function.update_self, Buffer.contents_update]
      · rw [Function.update_of_ne here]
    refine kept.keep rfl (fun u => ?_) (fun u direct => ?_) fun _ => rfl
    · exact congrArg (r.ic.received u ++ ·) (same u)
    · rw [same]
      exact kept.empty u direct

end Books

/-- What an event does: it is refused and changes nothing, or it keeps the books. -/
theorem IcRecord.step?_books {r r' : IcRecord M} {e : IcEvent M} {done : Bool} (kept : Books r)
    (called : r.step? e = some (done, r')) : done = false ∧ r' = r ∨ done = true ∧ Books r' := by
  cases e with
  | arbitrate p requests =>
    unfold step? at called
    dsimp only at called
    split at called
    · cases called
      exact Or.inr ⟨rfl, kept.keep rfl (fun _ => rfl) kept.empty fun _ => rfl⟩
    · cases called
  | send s broadcast dst payload accepts =>
    unfold step? at called
    dsimp only at called
    split at called
    swap
    · cases called
    obtain ⟨⟨sent, ic'⟩, ran, same⟩ := Option.map_eq_some_iff.mp called
    cases same
    rcases runProcess_cases (fun _ _ => Interconnect.sourceSend_check) ran with ⟨rfl, rfl⟩ | ⟨rfl, committed⟩
    · exact Or.inl ⟨rfl, rfl⟩
    · refine Or.inr ⟨rfl, ?_⟩
      unfold Interconnect.sourceSend at committed
      split at committed
      · rename_i buffered
        obtain ⟨⟨pushed, b⟩, done, same⟩ := Option.map_eq_some_iff.mp committed
        cases same
        rw [Buffer.pushIn_commit done]
        exact kept.queue buffered rfl rfl (Buffer.contents_pushed _)
      · rename_i direct
        exact kept.sendDirect (Bool.not_eq_true _ ▸ direct) rfl rfl (Interconnect.mediumSend_commit committed).2
  | doSend s accepts =>
    obtain ⟨⟨sent, ic'⟩, ran, same⟩ := Option.map_eq_some_iff.mp called
    cases same
    rcases runProcess_cases (fun _ _ => Interconnect.doSend_check) ran with ⟨rfl, rfl⟩ | ⟨rfl, committed⟩
    · exact Or.inl ⟨rfl, rfl⟩
    · refine Or.inr ⟨rfl, ?_⟩
      obtain ⟨⟨m, rest⟩, taken, later⟩ := Option.bind_eq_some_iff.mp committed
      obtain ⟨⟨sent, after⟩, delivered, same⟩ := Option.map_eq_some_iff.mp later
      obtain ⟨rfl, same⟩ := Prod.mk.inj same
      rw [if_pos ⟨rfl, rfl⟩] at same
      subst same
      exact kept.sendBuffered taken (Interconnect.mediumSend_commit delivered).2
  | doReceive t accepts =>
    obtain ⟨⟨received, ic'⟩, ran, same⟩ := Option.map_eq_some_iff.mp called
    cases same
    rcases runProcess_cases (fun _ _ => Interconnect.doReceive_check) ran with ⟨rfl, rfl⟩ | ⟨rfl, committed⟩
    · exact Or.inl ⟨rfl, rfl⟩
    · refine Or.inr ⟨rfl, ?_⟩
      obtain ⟨⟨msg, rest⟩, taken, same⟩ := Option.map_eq_some_iff.mp committed
      obtain ⟨rfl, same⟩ := Prod.mk.inj same
      rw [if_pos ⟨rfl, rfl⟩] at same
      subst same
      exact kept.receive taken
  | updateSource s =>
    cases called
    exact Or.inr ⟨rfl, kept.update (t := 0) (.updateSource s) (Or.inl rfl) rfl⟩
  | updateDestination t =>
    cases called
    exact Or.inr ⟨rfl, kept.update (s := 0) (.updateDestination t) (Or.inr rfl) rfl⟩

theorem Books.step {r r' : IcRecord M} {e : IcEvent M} (kept : Books r) (called : r.step e = some r') : Books r' := by
  obtain ⟨⟨done, after⟩, stepped, rfl⟩ := Option.map_eq_some_iff.mp called
  rcases IcRecord.step?_books kept stepped with ⟨_, same⟩ | ⟨_, books⟩
  · rw [same]
    exact kept
  · exact books

theorem Books.delivers {r : IcRecord M} (kept : Books r) : Delivers r := by
  refine ⟨kept.inOrder, kept.numbered, fun e after refused => ?_⟩
  rcases IcRecord.step?_books kept refused with ⟨_, same⟩ | ⟨impossible, _⟩
  · exact same
  · cases impossible

end Mgsim.Ic
