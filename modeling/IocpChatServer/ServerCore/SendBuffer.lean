import IocpChatServer.ServerCore.PacketSession

namespace IocpChatServer.ServerCore
open Foundations Memory

-- Ways in which a call does not come back. CRASH stores through a null pointer, so an
-- assertion and a null reference end the process; what follows a write outside the bytes
-- a caller was given is undefined.
inductive NullRef where
  | player | room | session | sendBuffer
  deriving DecidableEq, Repr

inductive Fault where
  | assertion
  | null (ref : NullRef)
  | overrun
  deriving DecidableEq, Repr

structure SendBufferChunk where
  buffer : Nat → BYTE
  isOpen : Bool
  usedSize : Nat

-- The region of the owner's array by its start; the owner is the thread's current chunk.
structure SendBuffer where
  buffer : Nat
  allocSize : Nat
  writeSize : Nat
  deriving DecidableEq, Repr

namespace SendBufferChunk

def chunkSize : Nat := 6000

def fresh : SendBufferChunk := ⟨fun _ => 0,false,0⟩

def reset (c : SendBufferChunk) : SendBufferChunk := {c with isOpen := false,usedSize := 0}

def freeSize (c : SendBufferChunk) : Nat := chunkSize - c.usedSize

-- Open: a null SendBuffer when the rest of the chunk is too small.
def openBuffer (c : SendBufferChunk) (allocSize : Nat) :
    Except Fault (Option SendBuffer × SendBufferChunk) :=
  if chunkSize < allocSize then .error .assertion
  else if c.isOpen then .error .assertion
  else if c.freeSize < allocSize then .ok (none,c)
  else .ok (some ⟨c.usedSize,allocSize,0⟩,{c with isOpen := true})

def close (c : SendBufferChunk) (writeSize : Nat) : Except Fault SendBufferChunk :=
  if c.isOpen then .ok {c with isOpen := false,usedSize := c.usedSize + writeSize}
  else .error .assertion

-- How a chunk is found between two calls of its thread.
structure Idle (c : SendBufferChunk) : Prop where
  closed : c.isOpen = false
  within : c.usedSize ≤ chunkSize

theorem reset_idle (c : SendBufferChunk) : c.reset.Idle := ⟨rfl,Nat.zero_le _⟩

end SendBufferChunk

namespace SendBuffer

-- A write into the region. One that leaves it is given no meaning, also where it would
-- still fall into the chunk.
def write (b : SendBuffer) (owner : SendBufferChunk) (offset : Nat) (bytes : List BYTE) :
    Except Fault SendBufferChunk :=
  if b.allocSize < offset + bytes.length then .error .overrun
  else .ok {owner with buffer := store owner.buffer (b.buffer + offset) bytes}

def close (b : SendBuffer) (owner : SendBufferChunk) (writeSize : Nat) :
    Except Fault (SendBuffer × SendBufferChunk) :=
  if b.allocSize < writeSize then .error .assertion
  else do
    let owner ← owner.close writeSize
    return ({b with writeSize := writeSize},owner)

def bytes (b : SendBuffer) (owner : SendBufferChunk) : List BYTE := slice owner.buffer b.buffer b.writeSize

end SendBuffer

-- What one thread sees of the send buffer manager: its own chunk, LSendBufferChunk, and
-- the pool it pops from. A chunk a thread lets go of returns to the pool only when the last
-- SendBuffer in it is dropped; that traffic is outside this view.
structure SendThread where
  chunk : Option SendBufferChunk
  pool : List SendBufferChunk

namespace SendThread

def pop (t : SendThread) : SendBufferChunk × SendThread :=
  match t.pool.getLast? with
  | some chunk => (chunk,{t with pool := t.pool.dropLast})
  | none => (.fresh,t)

-- The two places of Open that take a new chunk do the same: Pop, then Reset.
def renew (t : SendThread) : SendBufferChunk × SendThread :=
  (t.pop.1.reset,t.pop.2)

def current (t : SendThread) : SendBufferChunk × SendThread :=
  match t.chunk with
  | none => t.renew
  | some chunk => (chunk,t)

-- GSendBufferManager->Open on this thread, with the chunk the answer lies in.
def openBuffer (t : SendThread) (size : Nat) :
    Except Fault (Option SendBuffer × SendBufferChunk × SendThread) := do
  let (chunk,t) := t.current
  if chunk.isOpen then throw .assertion
  let (chunk,t) := if chunk.freeSize < size then t.renew else (chunk,t)
  let (buffer,chunk) ← chunk.openBuffer size
  return (buffer,chunk,{t with chunk := some chunk})

def Idle (t : SendThread) : Prop := ∀ chunk, t.chunk = some chunk → chunk.Idle

def start : SendThread := ⟨none,[]⟩

variable {t : SendThread} {size : Nat}

theorem start_idle : start.Idle := by
  intro chunk none
  cases none

theorem current_idle (idle : t.Idle) : t.current.1.Idle := by
  unfold current
  split
  · exact SendBufferChunk.reset_idle _
  · exact idle _ ‹_›

theorem openBuffer_small (idle : t.Idle) (small : size ≤ SendBufferChunk.chunkSize) :
    ∃ (chunk : SendBufferChunk) (rest : SendThread), chunk.isOpen = false ∧ chunk.usedSize + size ≤ SendBufferChunk.chunkSize ∧
      t.openBuffer size = .ok (some ⟨chunk.usedSize,size,0⟩,{chunk with isOpen := true},
        {rest with chunk := some {chunk with isOpen := true}}) := by
  have current := current_idle idle
  by_cases tight : t.current.1.freeSize < size
  · refine ⟨t.current.2.renew.1,t.current.2.renew.2,rfl,by simpa [renew,SendBufferChunk.reset] using small,?_⟩
    have room : ¬ t.current.2.renew.1.freeSize < size := Nat.not_lt.mpr small
    have closed : t.current.2.renew.1.isOpen = false := rfl
    simp [openBuffer,current.closed,tight,SendBufferChunk.openBuffer,Nat.not_lt.mpr small,closed,room]
  · have within := current.within
    refine ⟨t.current.1,t.current.2,current.closed,by unfold SendBufferChunk.freeSize at tight; omega,?_⟩
    simp [openBuffer,current.closed,tight,SendBufferChunk.openBuffer,Nat.not_lt.mpr small]

theorem openBuffer_large (idle : t.Idle) (large : SendBufferChunk.chunkSize < size) :
    t.openBuffer size = .error .assertion := by
  have current := current_idle idle
  simp [openBuffer,current.closed,SendBufferChunk.openBuffer,large]

end SendThread
end IocpChatServer.ServerCore
