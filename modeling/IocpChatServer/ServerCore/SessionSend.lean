import Mathlib.Logic.Function.Basic
import IocpChatServer.Foundations.TransitionSystem

namespace IocpChatServer.ServerCore.SessionSend

def wsaIoPending : Int := 997
def wsaeConnAborted : Int := 10053
def wsaeConnReset : Int := 10054

-- RegisterSend is called from Send, and from ProcessSend under the lock it has taken.
inductive Caller where
  | send | processSend
  deriving DecidableEq, Repr

-- Disconnect is called by itself, or from the HandleError of a RegisterSend.
inductive Return where
  | outside
  | handleError (caller : Caller)
  deriving DecidableEq, Repr

-- Where a thread is. Each position is one access to what the threads share, or one
-- WRITE_LOCK section; what a thread does alone belongs to the access before it.
inductive Position (Buffer : Type _) where
  | outside
  | sendConnected (sendBuffer : Option Buffer)
  | sendPush (sendBuffer : Buffer)
  | registerConnected (caller : Caller)
  | registerOwner (caller : Caller)
  | registerDrain (caller : Caller)
  | registerGather (caller : Caller)
  | wsaSend (caller : Caller) (wsaBufs : List Buffer)
  | failOwner (caller : Caller)
  | failClear (caller : Caller)
  | failStore (caller : Caller)
  | processOwner (numOfBytes : Nat)
  | processClear (numOfBytes : Nat)
  | processLock
  | processEmpty
  | processStore
  | processUnlock
  | disconnect (after : Return)
  | registerDisconnect (after : Return)
  deriving DecidableEq, Repr

-- What the code does not decide: the calls made from outside, callbacks included, the send
-- whose completion a thread is given with its size, and how WSASend comes back, with an
-- error code or without one.
inductive Choice (Buffer : Type _) where
  | send (sendBuffer : Option Buffer)
  | disconnect
  | complete (index numOfBytes : Nat)
  | wsaSend (errorCode : Option Int)
  | go
  deriving DecidableEq, Repr

-- `outstanding` are the sends accepted and not completed. `pushed`, `given` and `accepted`
-- record the buffers of all pushes, of all calls of WSASend and of its accepted calls.
structure State (Thread Buffer : Type _) where
  connected : Bool
  sendQueue : List Buffer
  sendRegistered : Bool
  lock : Option Thread
  owner : Bool
  sendBuffers : List Buffer
  outstanding : List (List Buffer)
  position : Thread → Position Buffer
  crashed : Bool
  pushed : List Buffer
  given : List (List Buffer)
  accepted : List (List Buffer)

variable {Thread Buffer : Type _} [DecidableEq Thread]

namespace State

-- A session whose ProcessConnect has stored `_connected`; before that Send returns at once.
def start : State Thread Buffer :=
  ⟨true,[],false,none,false,[],[],fun _ => .outside,false,[],[],[]⟩

def goto (s : State Thread Buffer) (t : Thread) (position : Position Buffer) : State Thread Buffer :=
  {s with position := Function.update s.position t position}

-- WRITE_LOCK waits for other threads only.
def free (s : State Thread Buffer) (t : Thread) : Bool := s.lock = none ∨ s.lock = some t

end State

def enter (s : State Thread Buffer) (t : Thread) : Choice Buffer → Option (State Thread Buffer)
  | .send sendBuffer => some (s.goto t (.sendConnected sendBuffer))
  | .disconnect => some (s.goto t (.disconnect .outside))
  | .complete index numOfBytes =>
    if index < s.outstanding.length then
      some ({s with outstanding := s.outstanding.eraseIdx index}.goto t (.processOwner numOfBytes))
    else none
  | _ => none

def back : Caller → Position Buffer
  | .send => .outside
  | .processSend => .processUnlock

def after : Return → Position Buffer
  | .outside => .outside
  | .handleError caller => .failOwner caller

-- `_connected.exchange(false)`. RegisterDisconnect touches no part of this state.
def exchange (s : State Thread Buffer) (t : Thread) (return_ : Return) : State Thread Buffer :=
  if s.connected then {s with connected := false}.goto t (.registerDisconnect return_)
  else s.goto t (after return_)

-- The WSASend of the buffers gathered. Of a call that fails at once, HandleError goes on by its
-- error code: to Disconnect, or straight back to RegisterSend.
def wsaSend (s : State Thread Buffer) (t : Thread) (caller : Caller) (wsaBufs : List Buffer)
    (errorCode : Option Int) : State Thread Buffer :=
  let called := {s with given := s.given ++ [wsaBufs]}
  match errorCode with
  | some errorCode =>
    if errorCode ≠ wsaIoPending then
      if errorCode = wsaeConnReset ∨ errorCode = wsaeConnAborted then called.goto t (.disconnect (.handleError caller))
      else called.goto t (.failOwner caller)
    else {called with outstanding := s.outstanding ++ [wsaBufs],accepted := s.accepted ++ [wsaBufs]}.goto t (back caller)
  | none => {called with outstanding := s.outstanding ++ [wsaBufs],accepted := s.accepted ++ [wsaBufs]}.goto t (back caller)

def proceed (s : State Thread Buffer) (t : Thread) : Option (State Thread Buffer) :=
  match s.position t with
  | .outside | .wsaSend _ _ => none
  | .sendConnected sendBuffer =>
    if s.connected = false then some (s.goto t .outside)
    else match sendBuffer with
      | none => some {s with crashed := true}
      | some sendBuffer => some (s.goto t (.sendPush sendBuffer))
  | .sendPush sendBuffer =>
    if s.free t then
      let pushed := {s with
        sendQueue := s.sendQueue ++ [sendBuffer],sendRegistered := true,pushed := s.pushed ++ [sendBuffer]}
      if s.sendRegistered = false then some (pushed.goto t (.registerConnected .send))
      else some (pushed.goto t .outside)
    else none
  | .registerConnected caller =>
    if s.connected = false then some (s.goto t (back caller)) else some (s.goto t (.registerOwner caller))
  | .registerOwner caller => some ({s with owner := true}.goto t (.registerDrain caller))
  | .registerDrain caller =>
    if s.free t then
      some ({s with sendQueue := [],sendBuffers := s.sendBuffers ++ s.sendQueue}.goto t (.registerGather caller))
    else none
  | .registerGather caller => some (s.goto t (.wsaSend caller s.sendBuffers))
  | .failOwner caller => some ({s with owner := false}.goto t (.failClear caller))
  | .failClear caller => some ({s with sendBuffers := []}.goto t (.failStore caller))
  | .failStore caller => some ({s with sendRegistered := false}.goto t (back caller))
  | .processOwner numOfBytes => some ({s with owner := false}.goto t (.processClear numOfBytes))
  | .processClear numOfBytes =>
    let cleared := {s with sendBuffers := []}
    if numOfBytes = 0 then some (cleared.goto t (.disconnect .outside)) else some (cleared.goto t .processLock)
  | .processLock => if s.free t then some ({s with lock := some t}.goto t .processEmpty) else none
  | .processEmpty =>
    if s.sendQueue.isEmpty then some (s.goto t .processStore) else some (s.goto t (.registerConnected .processSend))
  | .processStore => some ({s with sendRegistered := false}.goto t .processUnlock)
  | .processUnlock => some ({s with lock := none}.goto t .outside)
  | .disconnect return_ => some (exchange s t return_)
  | .registerDisconnect return_ => some (s.goto t (after return_))

def step (s : State Thread Buffer) (event : Thread × Choice Buffer) : Option (State Thread Buffer) :=
  if s.crashed then none
  else match s.position event.1,event.2 with
  | .outside,choice => enter s event.1 choice
  | .wsaSend caller wsaBufs,.wsaSend errorCode => some (wsaSend s event.1 caller wsaBufs errorCode)
  | _,.go => proceed s event.1
  | _,_ => none

end IocpChatServer.ServerCore.SessionSend
