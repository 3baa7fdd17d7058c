import IocpChatServer.Foundations.TransitionSystem
import IocpChatServer.ServerCore.RecvBuffer

namespace IocpChatServer.ServerCore
open Foundations TransitionSystem Memory

-- RecvBuffer with its int32 members as they are in the source, and no promise about them.
structure RecvCursors where
  capacity : Int32
  bufferSize : Int32
  readPos : Int32
  writePos : Int32
  buffer : Nat → BYTE

namespace RecvCursors

def make (bufferSize : Int32) : RecvCursors := ⟨bufferSize * 10,bufferSize,0,0,fun _ => 0⟩

def dataSize (c : RecvCursors) : Int32 := c.writePos - c.readPos
def freeSize (c : RecvCursors) : Int32 := c.capacity - c.writePos

-- An int32 where the source indexes or counts with it.
def index (n : Int32) : Nat := n.toInt.toNat

def onRead (c : RecvCursors) (numOfBytes : Int32) : Bool × RecvCursors :=
  if numOfBytes > c.dataSize then (false,c) else (true,{c with readPos := c.readPos + numOfBytes})

def onWrite (c : RecvCursors) (numOfBytes : Int32) : Bool × RecvCursors :=
  if numOfBytes > c.freeSize then (false,c) else (true,{c with writePos := c.writePos + numOfBytes})

def clean (c : RecvCursors) : RecvCursors :=
  if c.dataSize = 0 then {c with readPos := 0,writePos := 0}
  else if c.freeSize < c.bufferSize then
    {c with buffer := move c.buffer 0 (index c.readPos) (index c.dataSize),readPos := 0,writePos := c.dataSize}
  else c

def fill (c : RecvCursors) (bytes : List BYTE) : RecvCursors := {c with buffer := store c.buffer (index c.writePos) bytes}

def queued (c : RecvCursors) : List BYTE := slice c.buffer (index c.readPos) (index c.dataSize)

inductive Operation where
  | write (bytes : List BYTE)
  | onRead (numOfBytes : Int32)
  | onWrite (numOfBytes : Int32)
  | clean
  deriving DecidableEq, Repr

def call (c : RecvCursors) : Operation → Bool × RecvCursors
  | .write bytes => (c.fill bytes).onWrite (Int32.ofNat bytes.length)
  | .onRead numOfBytes => c.onRead numOfBytes
  | .onWrite numOfBytes => c.onWrite numOfBytes
  | .clean => (true,c.clean)

-- What is written fits, and OnRead is not called with a negative number; an onWrite without
-- something written is one that is refused.
def Proper (c : RecvCursors) : Operation → Prop
  | .write bytes => (bytes.length : Int) ≤ c.freeSize.toInt
  | .onRead numOfBytes => 0 ≤ numOfBytes
  | .onWrite numOfBytes => c.freeSize < numOfBytes
  | .clean => True

instance (c : RecvCursors) : (operation : Operation) → Decidable (c.Proper operation)
  | .write bytes => inferInstanceAs (Decidable ((bytes.length : Int) ≤ c.freeSize.toInt))
  | .onRead numOfBytes => inferInstanceAs (Decidable (0 ≤ numOfBytes))
  | .onWrite numOfBytes => inferInstanceAs (Decidable (c.freeSize < numOfBytes))
  | .clean => .isTrue trivial

def step (c : RecvCursors) (event : Operation × Bool) : Option RecvCursors :=
  if c.Proper event.1 ∧ (c.call event.1).1 = event.2 then some (c.call event.1).2 else none

def bytesWritten (events : List (Operation × Bool)) : List BYTE :=
  events.flatMap fun event => match event with
    | (.write bytes,_) => bytes
    | _ => []

def bytesRead (events : List (Operation × Bool)) : Nat :=
  (events.map fun event => match event with
    | (.onRead numOfBytes,true) => index numOfBytes
    | _ => 0).sum

structure Holds (c : RecvCursors) (b : RecvBuffer) : Prop where
  capacity : c.capacity.toInt = b.capacity
  bufferSize : c.bufferSize.toInt = b.bufferSize
  readPos : c.readPos.toInt = b.readPos
  writePos : c.writePos.toInt = b.writePos
  buffer : c.buffer = b.buffer
  small : b.capacity < 2^31

variable {c next : RecvCursors} {b after : RecvBuffer} {n bufferSize : Int32} {bytes : List BYTE}
  {events earlier : List (Operation × Bool)}

theorem toInt_difference {x y : Int32} {p q : Nat} (large : x.toInt = p) (less : y.toInt = q) (order : q ≤ p) :
    (x - y).toInt = (p - q : Nat) := by
  have bound := x.toInt_lt
  rw [Int32.toInt_sub,large,less,Int.bmod_eq_of_le] <;> omega

theorem toInt_sum {x y : Int32} {p q : Nat} (left : x.toInt = p) (right : y.toInt = q) (small : p + q < 2^31) :
    (x + y).toInt = (p + q : Nat) := by
  rw [Int32.toInt_add,left,right,Int.bmod_eq_of_le] <;> omega

theorem index_exact {x : Int32} {p : Nat} (same : x.toInt = p) : index x = p := by
  rw [index,same,Int.toNat_natCast]

theorem index_toInt (least : 0 ≤ n) : n.toInt = index n := by
  have least : 0 ≤ n.toInt := by simpa using Int32.le_iff_toInt_le.mp least
  exact (Int.toNat_of_nonneg least).symm

theorem toInt_length (short : bytes.length < 2^31) : (Int32.ofNat bytes.length).toInt = bytes.length :=
  Int32.toInt_ofNat_of_lt short

theorem Holds.dataSize (holds : Holds c b) : c.dataSize.toInt = b.dataSize :=
  toInt_difference holds.writePos holds.readPos b.ordered

theorem Holds.freeSize (holds : Holds c b) : c.freeSize.toInt = b.freeSize :=
  toInt_difference holds.capacity holds.writePos b.bounded

theorem Holds.queued (holds : Holds c b) : c.queued = b.queued := by
  rw [RecvCursors.queued,holds.buffer,index_exact holds.readPos,index_exact holds.dataSize]
  rfl

theorem make_holds (positive : 0 < bufferSize.toInt) (small : 10 * bufferSize.toInt < 2^31) :
    Holds (make bufferSize) (RecvBuffer.make (index bufferSize)) := by
  have size : bufferSize.toInt = index bufferSize := (Int.toNat_of_nonneg (Int.le_of_lt positive)).symm
  refine ⟨?_,size,rfl,rfl,rfl,?_⟩
  · change (bufferSize * 10).toInt = (index bufferSize * 10 : Nat)
    rw [Int32.toInt_mul,Int.bmod_eq_of_le] <;> simp <;> omega
  · change index bufferSize * 10 < 2^31
    omega

theorem Holds.onRead (holds : Holds c b) (least : 0 ≤ n) :
    (n > c.dataSize ∧ c.onRead n = (false,c)) ∨
      ∃ after, b.onRead (index n) = some after ∧ (c.onRead n).1 = true ∧ Holds (c.onRead n).2 after := by
  have size := index_toInt least
  by_cases beyond : n > c.dataSize
  · exact .inl ⟨beyond,if_pos beyond⟩
  · have within : index n ≤ b.dataSize := by
      have within := Int32.le_iff_toInt_le.mp (Int32.not_lt.mp beyond)
      rw [holds.dataSize,size] at within
      exact Int.ofNat_le.mp within
    have bounded := b.bounded
    have ordered := b.ordered
    have small := holds.small
    refine .inr ⟨_,dif_neg (Nat.not_lt.mpr within),?_⟩
    rw [RecvCursors.onRead,if_neg beyond]
    refine ⟨rfl,holds.capacity,holds.bufferSize,toInt_sum holds.readPos size ?_,holds.writePos,holds.buffer,small⟩
    unfold RecvBuffer.dataSize at within
    omega

theorem Holds.onWrite (holds : Holds c b) (least : 0 ≤ n) :
    (n > c.freeSize ∧ c.onWrite n = (false,c)) ∨
      ∃ after, b.onWrite (index n) = some after ∧ (c.onWrite n).1 = true ∧ Holds (c.onWrite n).2 after := by
  have size := index_toInt least
  by_cases beyond : n > c.freeSize
  · exact .inl ⟨beyond,if_pos beyond⟩
  · have within : index n ≤ b.freeSize := by
      have within := Int32.le_iff_toInt_le.mp (Int32.not_lt.mp beyond)
      rw [holds.freeSize,size] at within
      exact Int.ofNat_le.mp within
    have bounded := b.bounded
    have small := holds.small
    refine .inr ⟨_,dif_neg (Nat.not_lt.mpr within),?_⟩
    rw [RecvCursors.onWrite,if_neg beyond]
    refine ⟨rfl,holds.capacity,holds.bufferSize,holds.readPos,toInt_sum holds.writePos size ?_,holds.buffer,small⟩
    unfold RecvBuffer.freeSize at within
    omega

theorem Holds.fill (holds : Holds c b) : Holds (c.fill bytes) (b.deposit b.writePos bytes) := by
  refine ⟨holds.capacity,holds.bufferSize,holds.readPos,holds.writePos,?_,holds.small⟩
  change store c.buffer (index c.writePos) bytes = store b.buffer b.writePos bytes
  rw [holds.buffer,index_exact holds.writePos]

theorem Holds.clean (holds : Holds c b) : Holds c.clean b.clean := by
  have empty : c.dataSize = 0 ↔ b.dataSize = 0 := by
    rw [← Int32.toInt_inj,holds.dataSize]
    exact Int.ofNat_eq_zero
  have tight : c.freeSize < c.bufferSize ↔ b.freeSize < b.bufferSize := by
    rw [Int32.lt_iff_toInt_lt,holds.freeSize,holds.bufferSize]
    exact Int.ofNat_lt
  unfold RecvCursors.clean RecvBuffer.clean
  by_cases none : b.dataSize = 0
  · rw [if_pos (empty.mpr none),if_pos none]
    exact ⟨holds.capacity,holds.bufferSize,rfl,rfl,holds.buffer,holds.small⟩
  · rw [if_neg (mt empty.mp none),if_neg none]
    by_cases low : b.freeSize < b.bufferSize
    · rw [if_pos (tight.mpr low),if_pos low]
      refine ⟨holds.capacity,holds.bufferSize,rfl,holds.dataSize,?_,holds.small⟩
      change move c.buffer 0 (index c.readPos) (index c.dataSize) = move b.buffer 0 b.readPos b.dataSize
      rw [holds.buffer,index_exact holds.readPos,index_exact holds.dataSize]
    · rw [if_neg (mt tight.mp low),if_neg low]
      exact holds

theorem Holds.step (holds : Holds c b) {event : Operation × Bool} (taken : step c event = some next) :
    ∃ after, Holds next after ∧ after.capacity = b.capacity ∧ after.bufferSize = b.bufferSize ∧
      after.queued = (b.queued ++ bytesWritten [event]).drop (bytesRead [event]) ∧
      bytesRead [event] ≤ (b.queued ++ bytesWritten [event]).length := by
  obtain ⟨operation,result⟩ := event
  unfold RecvCursors.step at taken
  split at taken
  · rename_i admitted
    obtain ⟨proper,same⟩ := admitted
    cases taken
    cases operation with
    | write bytes =>
      have fits : bytes.length ≤ b.freeSize := by
        have fits : (bytes.length : Int) ≤ c.freeSize.toInt := proper
        rw [holds.freeSize] at fits
        exact Int.ofNat_le.mp fits
      have short : bytes.length < 2^31 := by
        have small := holds.small
        unfold RecvBuffer.freeSize at fits
        omega
      have size := index_exact (toInt_length short)
      have least : 0 ≤ Int32.ofNat bytes.length := by
        rw [Int32.le_iff_toInt_le,toInt_length short]
        exact Int.natCast_nonneg _
      rcases (@fill c b bytes holds).onWrite least with ⟨beyond,_⟩ | ⟨after,wrote,_,kept⟩
      · rw [gt_iff_lt,Int32.lt_iff_toInt_lt,toInt_length short,(@fill c b bytes holds).freeSize] at beyond
        exact absurd (Int.ofNat_lt.mp beyond) (Nat.not_lt.mpr fits)
      · rw [size] at wrote
        obtain ⟨_,_,_,_,capacity,room⟩ := RecvBuffer.onWrite_parts wrote
        exact ⟨after,kept,capacity,room,by simpa [bytesWritten,bytesRead] using RecvBuffer.deposit_queued wrote,Nat.zero_le _⟩
    | onRead numOfBytes =>
      rcases holds.onRead proper with ⟨_,refused⟩ | ⟨after,read,accepted,kept⟩
      · cases same.symm.trans (congrArg Prod.fst refused)
        change ∃ after, Holds (c.onRead numOfBytes).2 after ∧ _
        rw [refused]
        exact ⟨b,holds,rfl,rfl,by simp [bytesWritten,bytesRead],Nat.zero_le _⟩
      · cases same.symm.trans accepted
        obtain ⟨within,queued,_,_,capacity,room⟩ := RecvBuffer.onRead_parts read
        exact ⟨after,kept,capacity,room,by simpa [bytesWritten,bytesRead] using queued,by simpa [bytesWritten,bytesRead] using within⟩
    | onWrite numOfBytes =>
      have beyond : numOfBytes > c.freeSize := proper
      have refused : c.onWrite numOfBytes = (false,c) := if_pos beyond
      change ∃ after, Holds (c.onWrite numOfBytes).2 after ∧ _
      rw [refused]
      exact ⟨b,holds,rfl,rfl,by simp [bytesWritten,bytesRead],Nat.zero_le _⟩
    | clean =>
      refine ⟨b.clean,holds.clean,b.clean_capacity,b.clean_bufferSize,?_,Nat.zero_le _⟩
      simp [bytesWritten,bytesRead,RecvBuffer.clean_queued]
  · cases taken

theorem bytesWritten_next (event : Operation × Bool) : bytesWritten (earlier ++ [event]) = bytesWritten earlier ++ bytesWritten [event] :=
  List.flatMap_append

theorem bytesRead_next (event : Operation × Bool) : bytesRead (earlier ++ [event]) = bytesRead earlier + bytesRead [event] := by
  simp [bytesRead]

theorem runs_holds (positive : 0 < bufferSize.toInt) (small : 10 * bufferSize.toInt < 2^31)
    (path : Runs (Enabled step) (make bufferSize) events c) :
    ∃ b, Holds c b ∧ b.capacity = 10 * index bufferSize ∧ b.bufferSize = index bufferSize ∧
      b.queued = (bytesWritten events).drop (bytesRead events) ∧ bytesRead events ≤ (bytesWritten events).length := by
  induction path with
  | nil => exact ⟨_,make_holds positive small,Nat.mul_comm _ _,rfl,rfl,Nat.le_refl 0⟩
  | @step earlier middle event next path taken ih =>
    obtain ⟨b,holds,capacity,room,queued,within⟩ := ih
    obtain ⟨after,kept,capacityToo,roomToo,queuedToo,withinToo⟩ := holds.step taken
    refine ⟨after,kept,capacityToo.trans capacity,roomToo.trans room,?_,?_⟩
    · rw [queuedToo,queued,bytesWritten_next,bytesRead_next,← List.drop_append_of_le_length within,List.drop_drop]
    · rw [queued,List.length_append,List.length_drop] at withinToo
      rw [bytesWritten_next,bytesRead_next,List.length_append]
      omega

-- What RecvBuffer is for: a first in first out queue of the bytes written and not yet read.
structure ByteQueue (bufferSize : Int32) (events : List (Operation × Bool)) (c : RecvCursors) : Prop where
  least : 0 ≤ c.readPos
  ordered : c.readPos ≤ c.writePos
  bounded : c.writePos ≤ c.capacity
  read : bytesRead events ≤ (bytesWritten events).length
  queued : c.queued = (bytesWritten events).drop (bytesRead events)
  onRead : ∀ n, 0 ≤ n → ((c.onRead n).1 = false ↔ c.dataSize < n) ∧ ((c.onRead n).1 = false → (c.onRead n).2 = c)
  onWrite : ∀ n, 0 ≤ n → ((c.onWrite n).1 = false ↔ c.freeSize < n) ∧ ((c.onWrite n).1 = false → (c.onWrite n).2 = c)
  cleaned : c.clean.queued = c.queued
  freed : c.freeSize ≤ c.clean.freeSize
  room : c.dataSize.toInt ≤ 9 * bufferSize.toInt → bufferSize ≤ c.clean.freeSize

-- In every state that any operations lead to, whatever Clean has done on the way.
theorem runs_queue (positive : 0 < bufferSize.toInt) (small : 10 * bufferSize.toInt < 2^31)
    (path : Runs (Enabled step) (make bufferSize) events c) : ByteQueue bufferSize events c := by
  obtain ⟨b,holds,capacity,room,queued,within⟩ := runs_holds positive small path
  have size : bufferSize.toInt = index bufferSize := (Int.toNat_of_nonneg (Int.le_of_lt positive)).symm
  refine ⟨?_,?_,?_,within,holds.queued.trans queued,fun n least => ?_,fun n least => ?_,?_,?_,fun light => ?_⟩
  · rw [Int32.le_iff_toInt_le,holds.readPos]
    exact Int.natCast_nonneg _
  · rw [Int32.le_iff_toInt_le,holds.readPos,holds.writePos]
    exact Int.ofNat_le.mpr b.ordered
  · rw [Int32.le_iff_toInt_le,holds.writePos,holds.capacity]
    exact Int.ofNat_le.mpr b.bounded
  · unfold RecvCursors.onRead
    split <;> simp_all
  · unfold RecvCursors.onWrite
    split <;> simp_all
  · rw [holds.clean.queued,holds.queued,RecvBuffer.clean_queued]
  · rw [Int32.le_iff_toInt_le,holds.freeSize,holds.clean.freeSize]
    exact Int.ofNat_le.mpr b.clean_free
  · rw [holds.dataSize,size] at light
    have enough := b.clean_room (by omega)
    rw [Int32.le_iff_toInt_le,size,holds.clean.freeSize]
    omega

-- A buffer of 10 bytes: a compaction between the writes, and a write that is refused.
def compacting : List (Operation × Bool) :=
  [(.write [1,2,3,4,5,6,7,8],true),(.onRead 6,true),(.write [9,10],true),(.clean,true),(.onWrite 7,false),(.write [11],true),(.onRead 9,false)]

theorem runs_queue_compacting : ∃ c, Runs (Enabled step) (make 1) compacting c ∧ c.readPos = 0 ∧ c.queued = [7,8,9,10,11] ∧
    ByteQueue 1 compacting c := by
  have path : Runs (Enabled step) (make 1) compacting _ := execute_runs rfl
  exact ⟨_,path,rfl,by decide,runs_queue (by decide) (by decide) path⟩

end RecvCursors
end IocpChatServer.ServerCore
