import Mgsim.Cdma.Cache

namespace Mgsim.Cdma
variable {caches : Nat}

/-- The map of a directory from addresses to the tokens in the ring below it. -/
abbrev Dir := Address → Option Nat

/-- Where a directory puts a message: on the ring at the top, if there is room
to spare there and the long way over the ring below otherwise, or on the ring below. -/
inductive Route
  | shortcut
  | down
  deriving DecidableEq

/-- `OnMessageReceivedBottom`: the directory, and the message for the top ring. -/
def onMessageReceivedBottom (isBelow : Fin caches → Bool) (dir : Dir) (msg : Message caches) :
    Checked (Dir × Message caches) := do
  let leaves (dir : Dir) : Checked Dir :=
    match dir msg.address with
    | none => .error "tokens != NULL"
    | some tokens => do
      require (tokens ≥ msg.tokens) "*tokens >= msg->tokens"
      return Function.update dir msg.address (if tokens - msg.tokens = 0 then none else some (tokens - msg.tokens))
  let dir ←
    if msg.ignore then .ok dir
    else match msg.type with
      | .eviction => do
        require (isBelow msg.sender) "IsBelow(msg->sender)"
        leaves dir
      | .requestDataToken => leaves dir
      | .request | .requestData | .update => .ok dir
  return (dir, { msg with ignore := false })

/-- `OnMessageReceivedTop`: the directory and where it puts the message. -/
def onMessageReceivedTop (isBelow : Fin caches → Bool) (dir : Dir) (msg : Message caches) : Dir × Route :=
  match msg.type with
  | .request | .requestData | .update => (dir, if (dir msg.address).isSome then .down else .shortcut)
  | .requestDataToken =>
    if isBelow msg.sender then
      (Function.update dir msg.address (some ((dir msg.address).getD 0 + msg.tokens)), .down)
    else (dir, .shortcut)
  | .eviction => (dir, .shortcut)

inductive RootState
  | empty
  | loading
  | full
  deriving DecidableEq

/-- A line of a root directory. -/
structure RootLine (caches : Nat) where
  state : RootState
  tokens : Nat
  sender : Fin caches

abbrev RootDir (caches : Nat) := Address → Option (RootLine caches)

/-- What a root directory does with a message: it is gone, it goes to the queue
for memory, or it goes on along the ring. -/
inductive RootRoute (caches : Nat)
  | dropped
  | queued (msg : Message caches)
  | forwarded (msg : Message caches)

/-- `OnMessageReceived` of a root directory; `isLocal` is `IsLocalAddress`. The
number of caches is the number of tokens. -/
def onRootMessageReceived (isLocal : Address → Bool) (dir : RootDir caches) (msg : Message caches) :
    Checked (RootDir caches × RootRoute caches) :=
  if !isLocal msg.address then .ok (dir, .forwarded msg)
  else match msg.type with
    | .request =>
      match dir msg.address with
      | none => .ok (Function.update dir msg.address (some ⟨.loading, 0, msg.sender⟩), .queued msg)
      | some _ => .ok (dir, .forwarded msg)
    | .requestData =>
      -- a new line is empty, and its sender is never looked at
      let line := (dir msg.address).getD ⟨.empty, 0, msg.sender⟩
      if line.state = .empty then
        .ok (Function.update dir msg.address (some { line with state := .full }),
          .forwarded { msg with type := .requestDataToken, tokens := caches })
      else if line.tokens > 0 then
        .ok (Function.update dir msg.address (some { line with tokens := 0 }),
          .forwarded { msg with type := .requestDataToken, tokens := line.tokens })
      else .ok (dir, .forwarded msg)
    | .eviction =>
      match dir msg.address with
      | none => .error "line != NULL"
      | some line => do
        require (line.state = .full) "line->state == LINE_FULL"
        let tokens := msg.tokens + line.tokens
        require (tokens ≤ caches) "tokens <= m_parent.GetTotalTokens()"
        if tokens < caches then
          return (Function.update dir msg.address (some { line with tokens := tokens }), .dropped)
        else
          return (Function.update dir msg.address none, if msg.dirty then .queued msg else .dropped)
    | .update | .requestDataToken => .ok (dir, .forwarded msg)

/-- The lookup of `DoResponses`: the answer gets all tokens, and the line is read. -/
def onMemoryResponse (dir : RootDir caches) (msg : Message caches) : Checked (RootDir caches × Message caches) :=
  if msg.ignore then .ok (dir, { msg with ignore := false })
  else match dir msg.address with
    | none => .error "line != NULL"
    | some line => do
      require (line.state = .loading) "line->state == LINE_LOADING"
      return (Function.update dir msg.address (some { line with state := .full }),
        { msg with tokens := caches, sender := line.sender, ignore := false })

end Mgsim.Cdma
