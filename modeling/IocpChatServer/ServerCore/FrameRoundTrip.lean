import IocpChatServer.ServerCore.MakeSendBuffer

namespace IocpChatServer.ServerCore.FrameRoundTrip
open Foundations Memory Framing

def pointTo (bytes : List BYTE) : Nat → BYTE := fun i => bytes.getD i 0

theorem slice_pointTo (bytes : List BYTE) (n : Nat) (within : n ≤ bytes.length) :
    slice (pointTo bytes) 0 n = bytes.take n := by
  apply List.ext_getElem (by simp [within])
  intro i inSlice inTake
  simp only [slice_length] at inSlice
  have inside : i < bytes.length := by omega
  simp [slice,pointTo,inside]

-- MakeSendBuffer for one message after the other, each frame read when its call returns.
def makeAll (t : IdleThread) : List (UInt16 × List BYTE) → Except Fault (List (List BYTE) × IdleThread)
  | [] => .ok ([],t)
  | (id,payload) :: rest => do
    let (b,t) ← t.makeSendBuffer payload id
    let (frames,last) ← makeAll t rest
    return (t.thread.frame b :: frames,last)

variable {id : UInt16} {payload further part : List BYTE} {messages : List (UInt16 × List BYTE)} {t : IdleThread}

theorem frameOf_wellFormed (small : payload.length ≤ SendThread.maxPayload) :
    WellFormed (SendThread.frameOf payload id) := by
  have length : (SendThread.frameOf payload id).length = payload.length + PacketHeader.sizeof := by
    simp [SendThread.frameOf,Nat.add_comm]
  refine ⟨by omega,?_⟩
  rw [length,SendThread.frameOf,PacketHeader.ofBytes_toBytes,UInt16.toNat_ofNat']
  unfold SendThread.maxPayload SendBufferChunk.chunkSize PacketHeader.sizeof at *
  omega

theorem makeAll_frames (small : ∀ m ∈ messages, m.2.length ≤ SendThread.maxPayload) :
    ∃ last, makeAll t messages = .ok (messages.map fun m => SendThread.frameOf m.2 m.1,last) := by
  induction messages generalizing t with
  | nil => exact ⟨t,rfl⟩
  | cons m rest ih =>
    obtain ⟨id,payload⟩ := m
    obtain ⟨b,next,made,_,frame⟩ := @IdleThread.makeSendBuffer_fits t payload id (small _ List.mem_cons_self)
    obtain ⟨last,others⟩ := @ih next (fun m member => small m (List.mem_cons_of_mem _ member))
    refine ⟨last,?_⟩
    simp [makeAll,made,others,frame,bind,Except.bind]
    rfl

theorem arrived_part {frames : List (List BYTE)} (unfinished : part.length < further.length) :
    arrived (frames ++ [further]) (frames.flatten ++ part).length = frames := by
  rw [List.length_append,arrived_append (Nat.le_add_right _ _),Nat.add_sub_cancel_left,arrived,
    if_neg (Nat.not_le.mpr unfinished),List.append_nil]

theorem decode_encode (small : ∀ m ∈ messages, m.2.length ≤ SendThread.maxPayload)
    (next : WellFormed further) (begun : part <+: further) (proper : part ≠ further)
    (total : (messages.map fun m => m.2.length + PacketHeader.sizeof).sum + part.length < 2^31) :
    ∃ frames last, makeAll t messages = .ok (frames,last) ∧
      PacketSession.onRecv (pointTo (frames.flatten ++ part)) (frames.flatten ++ part).length =
        some ⟨frames.flatten.length,frames⟩ ∧
      frames.map (fun buffer => ((PacketHeader.ofBytes buffer).id,buffer.drop PacketHeader.sizeof)) = messages := by
  obtain ⟨last,made⟩ := @makeAll_frames messages t small
  have lengths : (messages.map fun m => SendThread.frameOf m.2 m.1).flatten.length =
      (messages.map fun m => m.2.length + PacketHeader.sizeof).sum := by
    simp [List.length_flatten,SendThread.frameOf,Function.comp_def,Nat.add_comm]
  refine ⟨_,last,made,?_,?_⟩
  · generalize framesAre : messages.map (fun m => SendThread.frameOf m.2 m.1) = frames at *
    have wf : ∀ f ∈ frames ++ [further], WellFormed f := by
      intro f member
      rcases List.mem_append.mp member with sent | last
      · subst framesAre
        obtain ⟨m,present,rfl⟩ := List.mem_map.mp sent
        exact frameOf_wellFormed (small m present)
      · rw [List.mem_singleton.mp last]
        exact next
    have unfinished : part.length < further.length :=
      Nat.lt_of_le_of_ne begun.length_le fun same => proper (begun.eq_of_length same)
    obtain ⟨rest,whole⟩ := begun
    have stream : (frames ++ [further]).flatten = (frames.flatten ++ part) ++ rest := by
      simp [← whole]
    have bounded : (frames.flatten ++ part).length < 2^31 := by
      rw [List.length_append,lengths]
      exact total
    have within : (frames.flatten ++ part).length ≤ (frames ++ [further]).flatten.length := by
      rw [stream]
      exact (List.prefix_append _ rest).length_le
    have content : slice (pointTo (frames.flatten ++ part)) 0 (frames.flatten ++ part).length =
        (frames ++ [further]).flatten.take (frames.flatten ++ part).length := by
      rw [slice_pointTo _ _ (Nat.le_refl _),stream,List.take_left,List.take_length]
    have parsed := PacketSession.onRecv_frames wf bounded within content
    rwa [arrived_part unfinished] at parsed
  · rw [List.map_map]
    conv_rhs => rw [← List.map_id messages]
    refine List.map_congr_left fun m _ => ?_
    simp only [Function.comp,SendThread.frameOf,PacketHeader.ofBytes_toBytes]
    rfl

theorem decode_encode_chat : ∃ frames last, makeAll .start [(1011,[7,7])] = .ok (frames,last) ∧
    PacketSession.onRecv (pointTo (frames.flatten ++ [4,0,1])) (frames.flatten ++ [4,0,1]).length =
      some ⟨frames.flatten.length,frames⟩ ∧
    frames.map (fun buffer => ((PacketHeader.ofBytes buffer).id,buffer.drop PacketHeader.sizeof)) =
      [(1011,[7,7])] :=
  @decode_encode [4,0,1,0] [4,0,1] _ _ (by decide) (by decide) (by decide) (by decide) (by decide)

end IocpChatServer.ServerCore.FrameRoundTrip
