import Mgsim.Cdma.System
import Mgsim.Cdma.Tokens

namespace Mgsim.Cdma
open Mgsim.Lib
variable {setup : Setup}

instance : Fintype (Port setup) where
  elems :=
    Finset.univ.image Port.incoming ∪ Finset.univ.image Port.outgoing ∪ Finset.univ.image Port.requests ∪
      Finset.univ.image Port.responses
  complete port := by
    cases port with
    | incoming node => simp
    | outgoing node => simp
    | requests root => simp
    | responses root => simp

/-- Where a message is: on a ring, or in one of the queues of a root directory. -/
inductive Where (setup : Setup)
  | ring (dir : Option (Fin setup.directories))
  | requests (root : Fin setup.roots)
  | active (root : Fin setup.roots)
  | responses (root : Fin setup.roots)
  deriving DecidableEq

def Port.location : Port setup → Where setup
  | .incoming node | .outgoing node => .ring (setup.ring node)
  | .requests root => .requests root
  | .responses root => .responses root

/-- A message and where it is. -/
abbrev Flying (setup : Setup) := Where setup × setup.Message

def Port.bag (port : Port setup) (buffer : Buffer setup.Message) : Multiset (Flying setup) :=
  (buffer.contents.map fun msg => (port.location, msg) : List (Flying setup))

def activeBag (root : Fin setup.roots) (messages : List setup.Message) : Multiset (Flying setup) :=
  (messages.map fun msg => (.active root, msg) : List (Flying setup))

/-- All messages that are somewhere between the caches. -/
def State.flight (s : State setup) : Multiset (Flying setup) := account Port.bag s.buffers + account activeBag s.active

/-- What the books are about: the lines, the directories and the messages in
flight, without the order of the messages and the sizes of the buffers. -/
structure Books (setup : Setup) where
  lines : Fin setup.caches → Lines setup.geometry
  dirs : Fin setup.directories → Dir
  rootDirs : Fin setup.roots → RootDir setup.caches
  flight : Multiset (Flying setup)

def State.books (s : State setup) : Books setup := ⟨s.lines, s.dirs, s.rootDirs, s.flight⟩

namespace Books
variable {b : Books setup} {flight other : Multiset (Flying setup)}

def fly (b : Books setup) (flight : Multiset (Flying setup)) : Books setup := { b with flight := flight }

def withLines (b : Books setup) (id : Fin setup.caches) (lines : Lines setup.geometry) : Books setup :=
  { b with lines := Function.update b.lines id lines }

def withDir (b : Books setup) (id : Fin setup.directories) (dir : Dir) : Books setup :=
  { b with dirs := Function.update b.dirs id dir }

def withRoot (b : Books setup) (root : Fin setup.roots) (dir : RootDir setup.caches) : Books setup :=
  { b with rootDirs := Function.update b.rootDirs root dir }

@[simp] theorem fly_flight : (b.fly flight).flight = flight := rfl

@[simp] theorem fly_fly : (b.fly other).fly flight = b.fly flight := rfl

@[simp] theorem withLines_fly {id : Fin setup.caches} {lines : Lines setup.geometry} :
    (b.fly flight).withLines id lines = (b.withLines id lines).fly flight := rfl

@[simp] theorem withDir_flight {id : Fin setup.directories} {dir : Dir} : (b.withDir id dir).flight = b.flight := rfl

@[simp] theorem withDir_fly {id : Fin setup.directories} {dir : Dir} :
    (b.fly flight).withDir id dir = (b.withDir id dir).fly flight := rfl

@[simp] theorem withRoot_flight {root : Fin setup.roots} {dir : RootDir setup.caches} :
    (b.withRoot root dir).flight = b.flight := rfl

@[simp] theorem withRoot_fly {root : Fin setup.roots} {dir : RootDir setup.caches} :
    (b.fly flight).withRoot root dir = (b.withRoot root dir).fly flight := rfl

theorem fly_self (same : b.flight = flight) : b.fly flight = b := by
  rw [← same]
  rfl

theorem withDir_self {id : Fin setup.directories} : b.withDir id (b.dirs id) = b := by
  rw [withDir, Function.update_eq_self]

theorem withRoot_self {root : Fin setup.roots} : b.withRoot root (b.rootDirs root) = b := by
  rw [withRoot, Function.update_eq_self]

end Books

theorem take_books {s after : State setup} {port : Port setup} {msg : setup.Message}
    (done : s.take port = some (msg, after)) :
    ∃ rest, s.books.flight = (port.location, msg) ::ₘ rest ∧ after.books = s.books.fly rest := by
  obtain ⟨⟨first, buffer⟩, taken, same⟩ := Option.map_eq_some_iff.mp done
  cases same
  obtain ⟨front, _⟩ := Buffer.take?_eq_some taken
  refine ⟨_, ?_, rfl⟩
  have moved := account_update Port.bag s.buffers port buffer
  rw [show Port.bag port (s.buffers port) = (port.location, first) ::ₘ Port.bag port buffer by rw [Port.bag, front]; rfl,
    Multiset.add_cons, ← Multiset.cons_add, add_left_inj] at moved
  rw [State.books, State.flight, State.flight, ← Multiset.cons_add, moved]

theorem take_active {s after : State setup} {port : Port setup} {msg : setup.Message}
    (done : s.take port = some (msg, after)) : after.active = s.active := by
  obtain ⟨_, _, same⟩ := Option.map_eq_some_iff.mp done
  cases same
  rfl

theorem push_books {s after : State setup} {port : Port setup} {msg : setup.Message} {minSpace : Nat}
    (done : s.push port msg minSpace = some after) :
    after.books = s.books.fly ((port.location, msg) ::ₘ s.books.flight) := by
  obtain ⟨buffer, pushed, rfl⟩ := Option.map_eq_some_iff.mp done
  have contents := Buffer.contents_push pushed
  have moved := account_update Port.bag s.buffers port buffer
  rw [show Port.bag port buffer = (port.location, msg) ::ₘ Port.bag port (s.buffers port) by
      rw [Port.bag, contents, List.map_append, ← Multiset.coe_add, add_comm]
      rfl,
    Multiset.add_cons, ← Multiset.cons_add, add_left_inj] at moved
  simp only [State.books, State.flight, Books.fly, moved, Multiset.cons_add]

/-- The front message leaves the memory. -/
theorem active_books {s : State setup} {root : Fin setup.roots} {msg : setup.Message} {messages : List setup.Message}
    (front : s.active root = msg :: messages) :
    ∃ rest, s.books.flight = (.active root, msg) ::ₘ rest ∧
      State.books { s with active := Function.update s.active root messages } = s.books.fly rest := by
  refine ⟨_, ?_, rfl⟩
  have moved := account_update activeBag s.active root messages
  rw [front, show activeBag root (msg :: messages) = (.active root, msg) ::ₘ activeBag root messages from rfl,
    Multiset.add_cons, ← Multiset.cons_add, add_left_inj] at moved
  rw [State.books, State.flight, State.flight, ← moved, Multiset.add_cons]

/-- The memory takes a message. -/
theorem activate_books (s : State setup) (root : Fin setup.roots) (msg : setup.Message) :
    State.books { s with active := Function.update s.active root (s.active root ++ [msg]) } =
      s.books.fly ((.active root, msg) ::ₘ s.books.flight) := by
  have moved := account_update activeBag s.active root (s.active root ++ [msg])
  rw [show activeBag root (s.active root ++ [msg]) = (.active root, msg) ::ₘ activeBag root (s.active root) by
      rw [activeBag, List.map_append, ← Multiset.coe_add, add_comm]
      rfl,
    Multiset.add_cons, ← Multiset.cons_add, add_left_inj] at moved
  simp only [State.books, State.flight, Books.fly, moved, Multiset.add_cons]

/-- The books know nothing of requests, memory, cycles and notices. -/
theorem books_congr {s s' : State setup} (lines : s'.lines = s.lines) (dirs : s'.dirs = s.dirs)
    (rootDirs : s'.rootDirs = s.rootDirs) (contents : ∀ port, (s'.buffers port).contents = (s.buffers port).contents)
    (active : s'.active = s.active) : s'.books = s.books := by
  have buffers : account Port.bag s'.buffers = account Port.bag s.buffers := by
    refine Finset.sum_congr rfl fun port _ => ?_
    rw [Port.bag, Port.bag, contents]
  rw [State.books, State.books, State.flight, State.flight, lines, dirs, rootDirs, buffers, active]

theorem react_books (s : State setup) (id : Fin setup.caches) (reaction : Reaction setup.geometry setup.caches) :
    (s.react id reaction).books = s.books.withLines id reaction.lines := rfl

theorem withDir_books (s : State setup) (id : Fin setup.directories) (dir : Dir) :
    (s.withDir id dir).books = s.books.withDir id dir := rfl

theorem withRootDir_books (s : State setup) (id : Fin setup.roots) (dir : RootDir setup.caches) :
    (s.withRootDir id dir).books = s.books.withRoot id dir := rfl

-- unfolding the sum over all ports is never what a proof wants from here on
attribute [irreducible] State.flight

end Mgsim.Cdma
