import IocpChatServer.ServerCore.SendBuffer

namespace IocpChatServer.ServerCore
open Foundations Memory

namespace SendThread

-- The second half of MakeSendBuffer, once Open has answered: header, payload, Close.
-- SerializeToArray writes nothing and fails when the bytes do not fit in `dataSize`.
def fill (b : SendBuffer) (chunk : SendBufferChunk) (packetSize dataSize : Nat) (pkt : List BYTE)
    (pktId : UInt16) : Except Fault (SendBuffer × SendBufferChunk) := do
  let header : PacketHeader := ⟨UInt16.ofNat packetSize,pktId⟩
  let chunk ← b.write chunk 0 header.toBytes
  if dataSize < pkt.length then throw .assertion
  let chunk ← b.write chunk PacketHeader.sizeof pkt
  b.close chunk packetSize

-- MakeSendBuffer of ClientPacketHandler and of ServerPacketHandler, one template. A message
-- is the bytes SerializeToArray would write; ByteSizeLong is how many they are. Both sizes
-- are uint16: the first is cast down, the second may wrap.
def makeSendBuffer (t : SendThread) (pkt : List BYTE) (pktId : UInt16) :
    Except Fault (SendBuffer × SendThread) := do
  let dataSize := pkt.length % 2^16
  let packetSize := (dataSize + PacketHeader.sizeof) % 2^16
  let (sendBuffer,chunk,t) ← t.openBuffer packetSize
  match sendBuffer with
  | none => throw (.null .sendBuffer)
  | some sendBuffer =>
    let (sendBuffer,chunk) ← fill sendBuffer chunk packetSize dataSize pkt pktId
    return (sendBuffer,{t with chunk := some chunk})

def maxPayload : Nat := SendBufferChunk.chunkSize - PacketHeader.sizeof

-- What a message that does not fit does instead: with the size wrapped below a header the
-- header itself is written past the region, otherwise one of the assertions fires.
def refusal (payload : Nat) : Fault :=
  if 2^16 ≤ payload % 2^16 + PacketHeader.sizeof then .overrun else .assertion

def frame (t : SendThread) (b : SendBuffer) : List BYTE :=
  match t.chunk with
  | none => []
  | some chunk => b.bytes chunk

def frameOf (pkt : List BYTE) (pktId : UInt16) : List BYTE :=
  (PacketHeader.mk (UInt16.ofNat (pkt.length + PacketHeader.sizeof)) pktId).toBytes ++ pkt

variable {t : SendThread} {chunk : SendBufferChunk} {pkt : List BYTE} {pktId : UInt16}
  {pos size n : Nat}

theorem fill_fits (opened : chunk.isOpen = true) (exact_ : size = pkt.length + PacketHeader.sizeof) :
    fill ⟨pos,size,0⟩ chunk size pkt.length pkt pktId = .ok (⟨pos,size,size⟩,{chunk with
      buffer := store (store chunk.buffer pos (PacketHeader.mk (UInt16.ofNat size) pktId).toBytes)
        (pos + PacketHeader.sizeof) pkt
      isOpen := false
      usedSize := chunk.usedSize + size}) := by
  have head : ¬ size < PacketHeader.sizeof := by omega
  have body : ¬ size < PacketHeader.sizeof + pkt.length := by omega
  simp [fill,bind,Except.bind,SendBuffer.write,SendBuffer.close,SendBufferChunk.close,opened,head,body]
  rfl

theorem fill_refused (short : size < PacketHeader.sizeof) :
    fill ⟨pos,size,0⟩ chunk size n pkt pktId = .error .overrun := by
  simp [fill,bind,Except.bind,SendBuffer.write,short]

theorem fill_unserialized (room : PacketHeader.sizeof ≤ size) (truncated : n < pkt.length) :
    fill ⟨pos,size,0⟩ chunk size n pkt pktId = .error .assertion := by
  simp [fill,bind,Except.bind,SendBuffer.write,Nat.not_lt.mpr room,truncated]
  rfl

theorem frame_stored (m : Nat → BYTE) (h : PacketHeader) :
    slice (store (store m pos h.toBytes) (pos + PacketHeader.sizeof) pkt) pos (pkt.length + PacketHeader.sizeof) =
      h.toBytes ++ pkt := by
  rw [Nat.add_comm pkt.length,slice_add]
  congr 1
  · rw [slice_store_before (Nat.le_refl _)]
    exact @slice_store _ m pos h.toBytes
  · exact slice_store

theorem makeSendBuffer_filled {b done : SendBuffer} {last : SendBufferChunk} {rest : SendThread}
    (opened : t.openBuffer ((pkt.length % 2^16 + PacketHeader.sizeof) % 2^16) = .ok (some b,chunk,rest))
    (filled : fill b chunk ((pkt.length % 2^16 + PacketHeader.sizeof) % 2^16) (pkt.length % 2^16) pkt pktId =
      .ok (done,last)) : t.makeSendBuffer pkt pktId = .ok (done,{rest with chunk := some last}) := by
  simp only [makeSendBuffer,opened,bind,Except.bind,filled]
  rfl

theorem makeSendBuffer_fits (idle : t.Idle) (small : pkt.length ≤ maxPayload) :
    ∃ (b : SendBuffer) (next : SendThread), t.makeSendBuffer pkt pktId = .ok (b,next) ∧
      next.Idle ∧ b.writeSize = pkt.length + PacketHeader.sizeof ∧ next.frame b = frameOf pkt pktId := by
  have bound : pkt.length + PacketHeader.sizeof ≤ SendBufferChunk.chunkSize := by
    unfold maxPayload SendBufferChunk.chunkSize PacketHeader.sizeof at *
    omega
  have whole : pkt.length % 2^16 = pkt.length :=
    Nat.mod_eq_of_lt (by unfold SendBufferChunk.chunkSize PacketHeader.sizeof at bound; omega)
  have unwrapped : (pkt.length % 2^16 + PacketHeader.sizeof) % 2^16 = pkt.length + PacketHeader.sizeof := by
    rw [whole]
    exact Nat.mod_eq_of_lt (by unfold SendBufferChunk.chunkSize at bound; omega)
  obtain ⟨chunk,rest,_,within,opened⟩ := openBuffer_small idle bound
  have filled := @fill_fits {chunk with isOpen := true} pkt pktId chunk.usedSize _ rfl rfl
  have made := @makeSendBuffer_filled t _ pkt pktId _ _ _ _ (by rw [unwrapped]; exact opened)
    (by rw [unwrapped,whole]; exact filled)
  refine ⟨_,_,made,?_,rfl,frame_stored chunk.buffer _⟩
  intro current same
  cases same
  exact ⟨rfl,within⟩

theorem makeSendBuffer_refuses (idle : t.Idle) (large : maxPayload < pkt.length) :
    t.makeSendBuffer pkt pktId = .error (refusal pkt.length) := by
  unfold maxPayload SendBufferChunk.chunkSize at large
  by_cases wraps : 2^16 ≤ pkt.length % 2^16 + PacketHeader.sizeof
  · -- the sum wraps to at most 3, which Open serves and the header overruns
    have short : (pkt.length % 2^16 + PacketHeader.sizeof) % 2^16 < PacketHeader.sizeof := by
      unfold PacketHeader.sizeof at *
      omega
    obtain ⟨chunk,rest,_,_,opened⟩ := openBuffer_small idle
      (Nat.le_trans (Nat.le_of_lt short) (by decide : PacketHeader.sizeof ≤ SendBufferChunk.chunkSize))
    have refused := @fill_refused {chunk with isOpen := true} pkt pktId chunk.usedSize _ (pkt.length % 2^16) short
    simp only [makeSendBuffer,opened,bind,Except.bind,refused,refusal,if_pos wraps]
  · have unwrapped : (pkt.length % 2^16 + PacketHeader.sizeof) % 2^16 = pkt.length % 2^16 + PacketHeader.sizeof :=
      Nat.mod_eq_of_lt (by omega)
    by_cases oversize : SendBufferChunk.chunkSize < pkt.length % 2^16 + PacketHeader.sizeof
    · simp only [makeSendBuffer,unwrapped,openBuffer_large idle oversize,bind,Except.bind,refusal,if_neg wraps]
    · -- small only because the cast dropped the high bits, so the payload does not fit
      obtain ⟨chunk,rest,_,_,opened⟩ := openBuffer_small idle (Nat.le_of_not_lt oversize)
      have truncated : pkt.length % 2^16 < pkt.length := by
        unfold SendBufferChunk.chunkSize PacketHeader.sizeof at *
        omega
      have refused := @fill_unserialized {chunk with isOpen := true} pkt pktId chunk.usedSize
        (pkt.length % 2^16 + PacketHeader.sizeof) _ (Nat.le_add_left _ _) truncated
      simp only [makeSendBuffer,unwrapped,opened,bind,Except.bind,refused,refusal,if_neg wraps]

theorem makeSendBuffer_idle {b : SendBuffer} {next : SendThread} (idle : t.Idle)
    (made : t.makeSendBuffer pkt pktId = .ok (b,next)) : next.Idle := by
  by_cases small : pkt.length ≤ maxPayload
  · obtain ⟨_,_,again,kept,_⟩ := @makeSendBuffer_fits t pkt pktId idle small
    rw [again] at made
    cases made
    exact kept
  · rw [makeSendBuffer_refuses idle (Nat.lt_of_not_le small)] at made
    cases made

def Shut (t : SendThread) : Prop := ∀ chunk, t.chunk = some chunk → chunk.isOpen = false

theorem current_shut (shut : t.Shut) : t.current.1.isOpen = false := by
  unfold current
  split
  · rfl
  · exact shut _ ‹_›

theorem makeSendBuffer_unshut (opened : t.chunk = some chunk) (isOpen : chunk.isOpen = true) :
    t.makeSendBuffer pkt pktId = .error .assertion := by
  simp [makeSendBuffer,openBuffer,current,opened,isOpen,bind,Except.bind]
  rfl

theorem openBuffer_serves (shut : t.Shut) (small : size ≤ SendBufferChunk.chunkSize) :
    ∃ (chunk : SendBufferChunk) (rest : SendThread), t.openBuffer size =
      .ok (some ⟨chunk.usedSize,size,0⟩,{chunk with isOpen := true},{rest with chunk := some {chunk with isOpen := true}}) := by
  have closed := current_shut shut
  by_cases tight : t.current.1.freeSize < size
  · refine ⟨t.current.2.renew.1,t.current.2.renew.2,?_⟩
    have room : ¬ t.current.2.renew.1.freeSize < size := Nat.not_lt.mpr small
    have renewed : t.current.2.renew.1.isOpen = false := rfl
    simp [openBuffer,closed,tight,SendBufferChunk.openBuffer,Nat.not_lt.mpr small,renewed,room]
  · refine ⟨t.current.1,t.current.2,?_⟩
    simp [openBuffer,closed,tight,SendBufferChunk.openBuffer,Nat.not_lt.mpr small]

theorem openBuffer_oversize (shut : t.Shut) (large : SendBufferChunk.chunkSize < size) : t.openBuffer size = .error .assertion := by
  have closed := current_shut shut
  simp [openBuffer,closed,SendBufferChunk.openBuffer,large]

-- A SendBuffer with the whole message, or an assertion. The fault `overrun`, a write outside of
-- the bytes that were opened, is neither.
def Encodes (t : SendThread) (pkt : List BYTE) (pktId : UInt16) : Prop :=
  t.makeSendBuffer pkt pktId = .error .assertion ∨
    ∃ (b : SendBuffer) (next : SendThread), t.makeSendBuffer pkt pktId = .ok (b,next) ∧
      b.writeSize = pkt.length + PacketHeader.sizeof ∧
      (PacketHeader.ofBytes (next.frame b)).size.toNat = pkt.length + PacketHeader.sizeof

theorem makeSendBuffer_wraps (shut : t.Shut) (wraps : 2^16 ≤ pkt.length % 2^16 + PacketHeader.sizeof) :
    t.makeSendBuffer pkt pktId = .error .overrun := by
  have short : (pkt.length % 2^16 + PacketHeader.sizeof) % 2^16 < PacketHeader.sizeof := by
    unfold PacketHeader.sizeof at *
    omega
  obtain ⟨chunk,rest,opened⟩ := openBuffer_serves shut
    (Nat.le_trans (Nat.le_of_lt short) (by decide : PacketHeader.sizeof ≤ SendBufferChunk.chunkSize))
  have refused := @fill_refused {chunk with isOpen := true} pkt pktId chunk.usedSize _ (pkt.length % 2^16) short
  simp only [makeSendBuffer,opened,bind,Except.bind,refused]

theorem makeSendBuffer_encodes (shut : t.Shut) (unwrapped : pkt.length % 2^16 + PacketHeader.sizeof < 2^16) :
    t.Encodes pkt pktId := by
  have size : (pkt.length % 2^16 + PacketHeader.sizeof) % 2^16 = pkt.length % 2^16 + PacketHeader.sizeof := Nat.mod_eq_of_lt unwrapped
  by_cases oversize : SendBufferChunk.chunkSize < pkt.length % 2^16 + PacketHeader.sizeof
  · left
    simp only [makeSendBuffer,size,openBuffer_oversize shut oversize,bind,Except.bind]
  · obtain ⟨chunk,rest,opened⟩ := openBuffer_serves shut (Nat.le_of_not_lt oversize)
    by_cases whole : pkt.length % 2^16 = pkt.length
    · right
      rw [whole] at opened unwrapped
      have filled := @fill_fits {chunk with isOpen := true} pkt pktId chunk.usedSize _ rfl rfl
      have made := @makeSendBuffer_filled t _ pkt pktId _ _ _ _ (by rw [size,whole]; exact opened) (by rw [size,whole]; exact filled)
      refine ⟨_,_,made,rfl,?_⟩
      change (PacketHeader.ofBytes (slice _ _ _)).size.toNat = _
      rw [frame_stored,PacketHeader.ofBytes_toBytes]
      exact Nat.mod_eq_of_lt unwrapped
    · left
      have truncated : pkt.length % 2^16 < pkt.length := Nat.lt_of_le_of_ne (Nat.mod_le _ _) whole
      have refused := @fill_unserialized {chunk with isOpen := true} pkt pktId chunk.usedSize
        (pkt.length % 2^16 + PacketHeader.sizeof) _ (Nat.le_add_left _ _) truncated
      simp only [makeSendBuffer,size,opened,bind,Except.bind,refused]

theorem encodes_unwrapped (encodes : t.Encodes pkt pktId) :
    (∃ chunk, t.chunk = some chunk ∧ chunk.isOpen = true) ∨ pkt.length % 2^16 + PacketHeader.sizeof < 2^16 := by
  by_contra neither
  have shut : t.Shut := by
    intro chunk at_
    by_contra isOpen
    exact neither (.inl ⟨chunk,at_,by simpa using isOpen⟩)
  have overrun := @makeSendBuffer_wraps t pkt pktId shut (by omega)
  rcases encodes with crashed | ⟨b,next,made,_⟩
  · cases crashed.symm.trans overrun
  · cases made.symm.trans overrun

theorem encodes_exact : t.Encodes pkt pktId ↔
    (∃ chunk, t.chunk = some chunk ∧ chunk.isOpen = true) ∨ pkt.length % 2^16 + PacketHeader.sizeof < 2^16 := by
  by_cases shut : t.Shut
  · constructor
    · exact encodes_unwrapped
    · intro either
      rcases either with ⟨chunk,at_,isOpen⟩ | unwrapped
      · exact absurd ((shut chunk at_).symm.trans isOpen) (by simp)
      · exact makeSendBuffer_encodes shut unwrapped
  · have unshut : ∃ chunk, t.chunk = some chunk ∧ chunk.isOpen = true := by simpa [Shut] using shut
    obtain ⟨chunk,opened,isOpen⟩ := unshut
    exact iff_of_true (.inl (makeSendBuffer_unshut opened isOpen)) (.inl ⟨chunk,opened,isOpen⟩)

-- 65532 bytes: with the header the size is 0 modulo 2^16.
theorem encodes_wrapped : ¬ ∀ (t : SendThread) (pkt : List BYTE) (pktId : UInt16), t.Encodes pkt pktId := by
  intro always
  rcases encodes_unwrapped (always .start (List.replicate 65532 0) 1000) with ⟨chunk,none,_⟩ | small
  · cases none
  · rw [List.length_replicate] at small
    exact absurd small (by decide)

end SendThread

-- A thread between two calls. Every MakeSendBuffer that returns leaves its thread like this,
-- so the callers never see another one.
structure IdleThread where
  thread : SendThread
  idle : thread.Idle

namespace IdleThread
open SendThread

def start : IdleThread := ⟨.start,start_idle⟩

def makeSendBuffer (t : IdleThread) (pkt : List BYTE) (pktId : UInt16) :
    Except Fault (SendBuffer × IdleThread) :=
  match made : t.thread.makeSendBuffer pkt pktId with
  | .error fault => .error fault
  | .ok (b,next) => .ok (b,⟨next,makeSendBuffer_idle t.idle made⟩)

variable {t : IdleThread} {pkt : List BYTE} {pktId : UInt16}

theorem makeSendBuffer_exact {b : SendBuffer} {next : IdleThread} :
    t.makeSendBuffer pkt pktId = .ok (b,next) ↔ t.thread.makeSendBuffer pkt pktId = .ok (b,next.thread) := by
  unfold makeSendBuffer
  split
  · rename_i made
    simp [made]
  · rename_i b' next' made
    constructor
    · intro same
      cases same
      exact made
    · intro again
      cases made.symm.trans again
      rfl

theorem makeSendBuffer_fits (small : pkt.length ≤ maxPayload) :
    ∃ (b : SendBuffer) (next : IdleThread), t.makeSendBuffer pkt pktId = .ok (b,next) ∧
      b.writeSize = pkt.length + PacketHeader.sizeof ∧ next.thread.frame b = frameOf pkt pktId := by
  obtain ⟨b,next,made,kept,size,frame⟩ := @SendThread.makeSendBuffer_fits t.thread pkt pktId t.idle small
  exact ⟨b,⟨next,kept⟩,makeSendBuffer_exact.mpr made,size,frame⟩

theorem makeSendBuffer_refuses (large : maxPayload < pkt.length) :
    t.makeSendBuffer pkt pktId = .error (refusal pkt.length) := by
  have refused := @SendThread.makeSendBuffer_refuses t.thread pkt pktId t.idle large
  unfold makeSendBuffer
  split
  · rename_i made
    rw [refused] at made
    cases made
    rfl
  · rename_i made
    rw [refused] at made
    cases made

end IdleThread
end IocpChatServer.ServerCore
