import IocpChatServer.Foundations.Counted
import IocpChatServer.Foundations.TransitionSystem
import IocpChatServer.ServerCore.SendBuffer

namespace IocpChatServer.ServerCore.SendBufferManager
open Foundations TransitionSystem Counted Memory

-- Who has a SendBufferChunkRef: `_sendBufferChunks`, the LSendBufferChunk of a thread, a
-- temporary of one, or a SendBuffer with its `_owner`.
inductive Holder (Thread : Type _) where
  | pool
  | current (thread : Thread)
  | temporary (thread : Thread)
  | buffer (number : Nat)
  deriving DecidableEq

-- What a thread goes on with once a temporary is gone: its caller's code, or Reset of the
-- chunk that Open has put in place of the old one.
inductive After where
  | outside
  | reset (first : Bool) (size : Nat)
  deriving DecidableEq, Repr

-- Where a thread is in Open, with its size and whether it had no chunk before, or in the end
-- of a temporary, which may be the last reference: then the deleter, PushGlobal, runs.
inductive Position where
  | outside
  | pop (first : Bool) (size : Nat)
  | assign (first : Bool) (size chunk : Nat)
  | reset (first : Bool) (size : Nat)
  | check (size : Nat)
  | openChunk (size : Nat)
  | release (chunk : Nat) (after : After)
  | push (chunk : Nat) (after : After)
  deriving DecidableEq, Repr

def After.position : After → Position
  | .outside => .outside
  | .reset first size => .reset first size

inductive Failure where
  | assertion | nullChunk | nullSendBuffer
  deriving DecidableEq, Repr

structure Shared where
  region : SendBuffer
  owner : Nat
  references : Nat
  closed : Bool

-- Chunks and SendBuffers go by their numbers. `opened` is the SendBuffer a thread has yet to
-- close.
structure Manager (Thread : Type _) where
  pool : List Nat
  made : Nat
  chunk : Nat → SendBufferChunk
  holders : Nat → List (Holder Thread)
  current : Thread → Option Nat
  position : Thread → Position
  buffer : Nat → Shared
  bufferCount : Nat
  opened : Thread → Option Nat
  failure : Option Failure

inductive Event (Thread : Type _) where
  | openBuffer (thread : Thread) (size : Nat)
  | go (thread : Thread)
  | close (thread : Thread) (writeSize : Nat)
  | copy (number : Nat)
  | drop (thread : Thread) (number : Nat)
  | write (number offset : Nat) (bytes : List BYTE)

namespace Manager
variable {Thread : Type _} [DecidableEq Thread]

def start : Manager Thread :=
  ⟨[],0,fun _ => .fresh,fun _ => [],fun _ => none,fun _ => .outside,fun _ => ⟨⟨0,0,0⟩,0,0,true⟩,0,fun _ => none,none⟩

variable (s : Manager Thread)

def Live (number : Nat) : Prop := number < s.bufferCount ∧ 0 < (s.buffer number).references

instance (number : Nat) : Decidable (s.Live number) := inferInstanceAs (Decidable (_ ∧ _))

def goto (t : Thread) (position : Position) : Manager Thread := {s with position := Function.update s.position t position}

def fail (failure : Failure) : Manager Thread := {s with failure := some failure}

-- Pop, under its lock: the last chunk of the pool, or a new one.
def pop (t : Thread) (first : Bool) (size : Nat) : Manager Thread :=
  match s.pool.getLast? with
  | some chunk => {s with
      pool := s.pool.dropLast
      holders := hold (release s.holders chunk .pool) chunk (.temporary t)}.goto t (.assign first size chunk)
  | none => {s with
      made := s.made + 1
      chunk := Function.update s.chunk s.made .fresh
      holders := hold s.holders s.made (.temporary t)}.goto t (.assign first size s.made)

-- `LSendBufferChunk = Pop()`: the two references change places, and the temporary ends.
def assign (t : Thread) (first : Bool) (size chunk : Nat) : Manager Thread :=
  let holders := hold (release s.holders chunk (.temporary t)) chunk (.current t)
  let current := Function.update s.current t (some chunk)
  match s.current t with
  | none => {s with holders := holders,current := current}.goto t (.reset first size)
  | some old => {s with
      holders := hold (release holders old (.current t)) old (.temporary t)
      current := current}.goto t (.release old (.reset first size))

-- The end of a reference: the last one of a chunk calls PushGlobal, which has a new one.
def endTemporary (t : Thread) (chunk : Nat) (after : After) : Manager Thread :=
  let holders := release s.holders chunk (.temporary t)
  if holders chunk = [] then {s with holders := hold holders chunk (.temporary t)}.goto t (.push chunk after)
  else {s with holders := holders}.goto t after.position

def openChunk (t : Thread) (chunk size : Nat) : Manager Thread :=
  match (s.chunk chunk).openBuffer size with
  | .error _ => s.fail .assertion
  | .ok (none,_) => s.fail .nullSendBuffer
  | .ok (some region,opened) => {s with
      chunk := Function.update s.chunk chunk opened
      holders := hold s.holders chunk (.buffer s.bufferCount)
      buffer := Function.update s.buffer s.bufferCount ⟨region,chunk,1,false⟩
      bufferCount := s.bufferCount + 1
      opened := Function.update s.opened t (some s.bufferCount)}.goto t .outside

def proceed (t : Thread) : Option (Manager Thread) :=
  match s.position t,s.current t with
  | .outside,_ => none
  | .pop first size,_ => some (s.pop t first size)
  | .assign first size chunk,_ => some (s.assign t first size chunk)
  | .release chunk after,_ => some (s.endTemporary t chunk after)
  | .push chunk after,_ => some ({s with
      pool := s.pool ++ [chunk]
      holders := hold s.holders chunk .pool}.goto t (.release chunk after))
  | .reset _ _,none | .check _,none | .openChunk _,none => some (s.fail .nullChunk)
  | .reset first size,some chunk => some ({s with chunk := Function.update s.chunk chunk (s.chunk chunk).reset}.goto t
      (if first then .check size else .openChunk size))
  | .check size,some chunk =>
    if (s.chunk chunk).isOpen then some (s.fail .assertion)
    else some (s.goto t (if (s.chunk chunk).freeSize < size then .pop false size else .openChunk size))
  | .openChunk size,some chunk => some (s.openChunk t chunk size)

-- The last reference to a SendBuffer ends its `_owner` too.
def drop (t : Thread) (number : Nat) : Manager Thread :=
  let shared := s.buffer number
  let dropped := {s with buffer := Function.update s.buffer number {shared with references := shared.references - 1}}
  if shared.references = 1 then
    {dropped with holders := hold (release s.holders shared.owner (.buffer number)) shared.owner (.temporary t)}.goto t
      (.release shared.owner .outside)
  else dropped

-- What the callers keep to: a thread opens with a size of 1 to 6000 and closes what it has
-- opened before it opens again, with no more than its AllocSize; it has a reference until
-- then. Writes stay within AllocSize.
def step : Event Thread → Option (Manager Thread)
  | .openBuffer t size =>
    if s.position t = .outside ∧ s.opened t = none ∧ 1 ≤ size ∧ size ≤ SendBufferChunk.chunkSize then
      some (s.goto t (if s.current t = none then .pop true size else .check size))
    else none
  | .go t => s.proceed t
  | .close t writeSize =>
    match s.opened t with
    | some number =>
      let shared := s.buffer number
      if s.position t = .outside ∧ writeSize ≤ shared.region.allocSize then
        match shared.region.close (s.chunk shared.owner) writeSize with
        | .error _ => some (s.fail .assertion)
        | .ok (region,chunk) => some {s with
            chunk := Function.update s.chunk shared.owner chunk
            buffer := Function.update s.buffer number {shared with region := region,closed := true}
            opened := Function.update s.opened t none}
      else none
    | none => none
  | .copy number =>
    let shared := s.buffer number
    if s.Live number then
      some {s with buffer := Function.update s.buffer number {shared with references := shared.references + 1}}
    else none
  | .drop t number =>
    if s.position t = .outside ∧ s.Live number ∧ ((s.buffer number).closed = true ∨ 2 ≤ (s.buffer number).references) then
      some (s.drop t number)
    else none
  | .write number offset bytes =>
    let shared := s.buffer number
    if s.Live number ∧ offset + bytes.length ≤ shared.region.allocSize then
      match shared.region.write (s.chunk shared.owner) offset bytes with
      | .error _ => none
      | .ok chunk => some {s with chunk := Function.update s.chunk shared.owner chunk}
    else none

end Manager
end IocpChatServer.ServerCore.SendBufferManager
