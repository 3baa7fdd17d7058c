import IocpChatServer.ServerCore.SessionRecv

namespace IocpChatServer.ServerCore
open Foundations Memory PacketSession

namespace RecvSession
variable {pieces : List (List BYTE)} {bytes stream : List BYTE} {s next : RecvSession} {k : Nat}

def writtenBy (s : RecvSession) (bytes : List BYTE) : Option RecvBuffer :=
  (s.recvBuffer.deposit s.recvBuffer.writePos bytes).onWrite bytes.length

def HeadersNonzero (pieces : List (List BYTE)) : Prop :=
  ∀ k bytes s written, pieces[k]? = some bytes → start.receive (pieces.take k) = some s → s.writtenBy bytes = some written →
    ∀ header, Meets written.readPtr bytes.length header → header.size.toNat ≠ 0

-- Every byte received so far has been handed over or still waits, each packet is as long as
-- its own header says, and the session is up.
structure Conserves (stream : List BYTE) (s : RecvSession) : Prop where
  connected : s.connected = true
  posted : s.recvPosted = some ⟨s.recvBuffer.writePos,s.recvBuffer.freeSize⟩
  capacity : s.recvBuffer.capacity = 10 * bufferSize
  conserved : s.packets.flatten ++ s.recvBuffer.queued = stream
  sized : OwnSize stream s.packets

def Accepts (s : RecvSession) (bytes : List BYTE) : Prop :=
  ∃ written parse, s.writtenBy bytes = some written ∧ onRecv written.readPtr bytes.length = some parse ∧
    0 ≤ parse.processLen ∧ parse.processLen ≤ bytes.length ∧
    parse.processLen ≤ written.dataSize ∧ written.onRead parse.processLen.toNat ≠ none

theorem start_conserves : Conserves [] start := ⟨rfl,rfl,rfl,rfl,ownSize_nil⟩

theorem complete_conserves (valid : Conserves stream s) (some_ : bytes ≠ []) (fits : bytes.length ≤ s.recvBuffer.freeSize)
    (nonzero : ∀ written, s.writtenBy bytes = some written →
      ∀ header, Meets written.readPtr bytes.length header → header.size.toNat ≠ 0) :
    Accepts s bytes ∧ ∃ next, s.complete bytes = some next ∧ Conserves (stream ++ bytes) next := by
  obtain ⟨connected,posted,capacity,conserved,sized⟩ := valid
  obtain ⟨written,wrote⟩ := @RecvBuffer.onWrite_some (s.recvBuffer.deposit s.recvBuffer.writePos bytes) bytes.length fits
  have grown := RecvBuffer.deposit_queued wrote
  have size := congrArg List.length grown
  rw [List.length_append,RecvBuffer.queued_length,RecvBuffer.queued_length] at size
  have small : bytes.length < 2^31 := by
    have := s.recvBuffer.bounded
    unfold RecvBuffer.freeSize bufferSize at *
    omega
  obtain ⟨⟨processLen,calls⟩,parsed⟩ := (onRecv_exact small).mpr (nonzero written wrote)
  have walk := onRecv_walk small parsed
  obtain ⟨p,rfl⟩ := Int.eq_ofNat_of_zero_le walk.least
  have within : p ≤ bytes.length := Int.ofNat_le.mp walk.within
  have cut : calls.flatten = slice written.readPtr 0 p := walk.cut
  obtain ⟨read,consumed,ran⟩ := @processRecv_reads bytes.length
    {s with recvPosted := none,recvBuffer := s.recvBuffer.deposit s.recvBuffer.writePos bytes}
    written p calls (by simpa using some_) wrote parsed (by omega)
  refine ⟨⟨written,_,wrote,parsed,walk.least,walk.within,Int.ofNat_le.mpr (by omega),by simp [consumed]⟩,_,
    by simpa [complete,posted] using ran,?_⟩
  obtain ⟨_,left,_,_,readCapacity,_⟩ := RecvBuffer.onRead_parts consumed
  obtain ⟨_,_,_,_,writtenCapacity,_⟩ := RecvBuffer.onWrite_parts wrote
  -- what OnRecv looked at is the head of the queue, and so what it took
  have seen : written.queued.take p = calls.flatten := by
    rw [cut,RecvBuffer.queued_ptr,slice_take (by omega)]
  have whole : calls.flatten ++ read.queued = s.recvBuffer.queued ++ bytes := by
    rw [← seen,left,List.take_append_drop,grown]
  have looked : OwnSize (stream ++ bytes) (s.packets ++ calls) := by
    refine sized.longer.append ?_
    have head : slice written.readPtr 0 bytes.length = written.queued.take bytes.length := by
      rw [RecvBuffer.queued_ptr,slice_take (by omega)]
    have ahead : (stream ++ bytes).drop s.packets.flatten.length = written.queued := by
      rw [← conserved,List.append_assoc,List.drop_left,grown]
    rw [ahead,← List.take_append_drop bytes.length written.queued,← head]
    exact walk.sized.longer
  simp only [registerRecv,connected,Bool.true_eq_false,if_false]
  refine ⟨rfl,rfl,?_,?_,looked⟩
  · rw [RecvBuffer.clean_capacity,readCapacity,writtenCapacity]
    exact capacity
  · rw [RecvBuffer.clean_queued,List.flatten_append,List.append_assoc,whole,← List.append_assoc,conserved]

-- After every completion of any stream; `overlapped` tells that some compaction copied onto
-- itself, after which the bytes are no longer the stream's.
theorem byte_conservation (fits : Completions pieces) (nonzero : HeadersNonzero pieces) (within : k ≤ pieces.length) :
    ∃ s, start.receive (pieces.take k) = some s ∧
      (s.overlapped = false → Conserves (pieces.take k).flatten s ∧ ∀ bytes ∈ pieces[k]?, Accepts s bytes) := by
  have reached : ∃ s, start.receive (pieces.take k) = some s ∧ Conserves (pieces.take k).flatten s := by
    induction k with
    | zero => exact ⟨start,rfl,start_conserves⟩
    | succ k ih =>
      obtain ⟨s,ran,valid⟩ := ih (by omega)
      obtain ⟨bytes,at_⟩ : ∃ bytes, pieces[k]? = some bytes := ⟨_,List.getElem?_eq_getElem (by omega)⟩
      obtain ⟨some_,room⟩ := fits k bytes at_
      obtain ⟨_,next,completed,kept⟩ := complete_conserves valid some_ (room s ran)
        fun written wrote => nonzero k bytes s written at_ ran wrote
      refine ⟨next,by simp [take_next at_,receive_append,ran,receive,completed],?_⟩
      simpa [take_next at_] using kept
  obtain ⟨s,ran,valid⟩ := reached
  refine ⟨s,ran,fun _ => ⟨valid,fun bytes at_ => ?_⟩⟩
  obtain ⟨some_,room⟩ := fits k bytes at_
  exact (complete_conserves valid some_ (room s ran) fun written wrote => nonzero k bytes s written at_ ran wrote).1

-- A header that claims two bytes, fewer than its own four: the rest of it is parsed as the
-- beginning of the next.
def malformedPieces : List (List BYTE) := [[2,0,7,7],[1]]

theorem byte_conservation_malformed : ∃ s, start.receive malformedPieces = some s ∧
    s.packets = [[2,0]] ∧ s.recvBuffer.queued = [7,7,1] ∧ Conserves malformedPieces.flatten s := by
  have fits : Completions malformedPieces := by
    intro k bytes at_
    match k,at_ with
    | 0,at_ => cases at_; exact ⟨by decide,fun s ran => by cases ran; decide⟩
    | 1,at_ => cases at_; exact ⟨by decide,fun s ran => by cases ran; decide⟩
  have nonzero : HeadersNonzero malformedPieces := by
    intro k bytes s written at_ ran wrote
    match k,at_ with
    | 0,at_ => cases at_; cases ran; cases wrote; exact (onRecv_exact (by decide)).mp ⟨_,rfl⟩
    | 1,at_ => cases at_; cases ran; cases wrote; exact (onRecv_exact (by decide)).mp ⟨_,rfl⟩
  obtain ⟨s,ran,conserves⟩ := byte_conservation fits nonzero (Nat.le_refl 2)
  cases ran
  exact ⟨_,rfl,by decide,by decide,(conserves rfl).1⟩

end RecvSession
end IocpChatServer.ServerCore
