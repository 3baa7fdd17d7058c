import IocpChatServer.Foundations.Memory

namespace IocpChatServer.ServerCore
open Foundations Memory

abbrev BYTE := UInt8

-- The cursors are int32 in the source; they stay between 0 and the capacity, and
-- ten times the buffer size is far below 2^31. `buffer` is the memory the vector
-- owns: only its first `capacity` cells are the vector's.
structure RecvBuffer where
  capacity : Nat
  bufferSize : Nat
  readPos : Nat
  writePos : Nat
  buffer : Nat → BYTE
  ordered : readPos ≤ writePos
  bounded : writePos ≤ capacity

namespace RecvBuffer

def bufferCount : Nat := 10

def make (bufferSize : Nat) : RecvBuffer :=
  {capacity := bufferSize * bufferCount,bufferSize := bufferSize,readPos := 0,writePos := 0,
   buffer := fun _ => 0,ordered := Nat.le_refl 0,bounded := Nat.zero_le _}

def dataSize (b : RecvBuffer) : Nat := b.writePos - b.readPos
def freeSize (b : RecvBuffer) : Nat := b.capacity - b.writePos

def readPtr (b : RecvBuffer) : Nat → BYTE := fun i => b.buffer (b.readPos + i)

def onRead (b : RecvBuffer) (numOfBytes : Nat) : Option RecvBuffer :=
  if h : numOfBytes > b.dataSize then none
  else some {b with
    readPos := b.readPos + numOfBytes
    ordered := by have := b.ordered; unfold dataSize at h; omega}

def onWrite (b : RecvBuffer) (numOfBytes : Nat) : Option RecvBuffer :=
  if h : numOfBytes > b.freeSize then none
  else some {b with
    writePos := b.writePos + numOfBytes
    ordered := Nat.le_trans b.ordered (Nat.le_add_right _ _)
    bounded := by have := b.bounded; unfold freeSize at h; omega}

-- The copy is written as a memmove. `copiesOverlapping` tells when the ranges of the
-- source's memcpy overlap, which is where the two part.
def clean (b : RecvBuffer) : RecvBuffer :=
  if b.dataSize = 0 then
    {b with readPos := 0,writePos := 0,ordered := Nat.le_refl 0,bounded := Nat.zero_le _}
  else if b.freeSize < b.bufferSize then
    {b with
      buffer := move b.buffer 0 b.readPos b.dataSize
      readPos := 0
      writePos := b.dataSize
      ordered := Nat.zero_le _
      bounded := Nat.le_trans (Nat.sub_le _ _) b.bounded}
  else b

def copiesOverlapping (b : RecvBuffer) : Bool :=
  b.dataSize ≠ 0 && b.freeSize < b.bufferSize && b.readPos < b.dataSize

def queued (b : RecvBuffer) : List BYTE := slice b.buffer b.readPos b.dataSize

-- The kernel writes into the range a WSARecv was given, whatever the cursors are by then.
def deposit (b : RecvBuffer) (pos : Nat) (bytes : List BYTE) : RecvBuffer :=
  {b with buffer := store b.buffer pos bytes}

variable {b after : RecvBuffer} {bytes : List BYTE} {n : Nat}

@[simp] theorem queued_length (b : RecvBuffer) : b.queued.length = b.dataSize := slice_length

theorem queued_ptr (b : RecvBuffer) : b.queued = slice b.readPtr 0 b.dataSize :=
  (@slice_shift _ b.buffer 0 b.readPos b.dataSize).symm

theorem onRead_parts (read : b.onRead n = some after) :
    n ≤ b.dataSize ∧ after.queued = b.queued.drop n ∧ after.readPos = b.readPos + n ∧
      after.writePos = b.writePos ∧ after.capacity = b.capacity ∧ after.bufferSize = b.bufferSize := by
  unfold onRead at read
  split at read
  · cases read
  · rename_i within
    cases read
    have within : n ≤ b.dataSize := Nat.le_of_not_lt within
    refine ⟨within,?_,rfl,rfl,rfl,rfl⟩
    simp only [queued]
    rw [slice_drop within]
    simp [dataSize,Nat.sub_add_eq]

theorem onRead_some (within : n ≤ b.dataSize) : ∃ after, b.onRead n = some after := by
  simp [onRead,Nat.not_lt.mpr within]

theorem onWrite_parts (written : b.onWrite n = some after) :
    n ≤ b.freeSize ∧ after.buffer = b.buffer ∧ after.readPos = b.readPos ∧
      after.writePos = b.writePos + n ∧ after.capacity = b.capacity ∧ after.bufferSize = b.bufferSize := by
  unfold onWrite at written
  split at written
  · cases written
  · rename_i within
    cases written
    exact ⟨Nat.le_of_not_lt within,rfl,rfl,rfl,rfl,rfl⟩

theorem onWrite_some (within : n ≤ b.freeSize) : ∃ after, b.onWrite n = some after := by
  simp [onWrite,Nat.not_lt.mpr within]

theorem deposit_queued (written : (b.deposit b.writePos bytes).onWrite bytes.length = some after) :
    after.queued = b.queued ++ bytes := by
  obtain ⟨_,memory,read,write,_,_⟩ := onWrite_parts written
  have ordered := b.ordered
  have size : after.dataSize = b.dataSize + bytes.length := by
    simp only [dataSize,read,write,deposit]
    omega
  have cursor : b.readPos + b.dataSize = b.writePos := Nat.add_sub_cancel' ordered
  rw [queued,size,memory,read,slice_add]
  congr 1
  · exact slice_store_before (Nat.le_of_eq cursor)
  · change slice (store b.buffer b.writePos bytes) (b.readPos + b.dataSize) bytes.length = bytes
    rw [cursor]
    exact slice_store

theorem clean_queued (b : RecvBuffer) : b.clean.queued = b.queued := by
  unfold clean
  split
  · rename_i empty
    simp [queued,dataSize] at empty ⊢
    simp [empty]
  · split
    · exact @slice_move _ b.buffer b.readPos 0 b.dataSize
    · rfl

@[simp] theorem clean_capacity (b : RecvBuffer) : b.clean.capacity = b.capacity := by
  unfold clean; split <;> [rfl; split <;> rfl]
@[simp] theorem clean_bufferSize (b : RecvBuffer) : b.clean.bufferSize = b.bufferSize := by
  unfold clean; split <;> [rfl; split <;> rfl]

-- Compaction leaves room for one more `bufferSize` unless the backlog itself is in the way.
theorem clean_room (b : RecvBuffer) (light : b.dataSize + b.bufferSize ≤ b.capacity) :
    b.bufferSize ≤ b.clean.freeSize := by
  unfold clean
  split
  · simp only [freeSize]
    omega
  · split
    · simp only [freeSize]
      omega
    · omega

theorem clean_free (b : RecvBuffer) : b.freeSize ≤ b.clean.freeSize := by
  unfold clean
  split
  · exact Nat.sub_le_sub_left (Nat.zero_le _) _
  · split
    · exact Nat.sub_le_sub_left (Nat.sub_le _ _) _
    · exact Nat.le_refl _

theorem clean_apart (b : RecvBuffer) (light : 2 * b.dataSize + b.bufferSize ≤ b.capacity) :
    b.copiesOverlapping = false := by
  have ordered := b.ordered
  have bounded := b.bounded
  simp only [copiesOverlapping,Bool.and_eq_false_iff,decide_eq_false_iff_not,Nat.not_lt]
  simp only [freeSize,dataSize] at light ⊢
  omega

end RecvBuffer
end IocpChatServer.ServerCore
