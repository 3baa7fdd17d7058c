import IocpChatServer.ServerCore.PacketLoop
import IocpChatServer.Tools.HandlerTable

namespace IocpChatServer.GameServer
open Foundations Memory Framing ServerCore PacketSession Tools

-- What GPacketHandler holds: Handle_INVALID, or a HandlePacket for one kind of packet.
inductive PacketHandler where
  | handleInvalid
  | handleCSetNickname
  | handleCRequestRoomList
  | handleCCreateRoom
  | handleCJoinRoom
  | handleCChatRoom
  | handleCLeaveRoom
  deriving DecidableEq, Repr

namespace ClientPacketHandler

def init : HandlerTable PacketHandler := HandlerTable.init .handleInvalid
  [(1001,.handleCSetNickname),(1004,.handleCRequestRoomList),(1005,.handleCCreateRoom),(1007,.handleCJoinRoom),
    (1010,.handleCChatRoom),(1012,.handleCLeaveRoom)]

-- `len - sizeof(PacketHeader)` is a size_t, and ParseFromArray takes an int.
def payloadSize (len : Nat) : Int := Int.bmod (toSizeT ((len : Int) - PacketHeader.sizeof)) (2^32)

end ClientPacketHandler

structure RecvPacketCall where
  pos : Nat
  len : Nat
  deriving DecidableEq, Repr

variable {buffer : Nat → BYTE} {n pos : Nat} {call : RecvPacketCall}

-- The call that a round of OnRecv makes before it moves `processLen` over the packet.
def Dispatches (buffer : Nat → BYTE) (n : Nat) (call : RecvPacketCall) : Prop :=
  ∃ s next, Loop.Rounds (onRecvBody buffer n) ⟨0,[]⟩ s ∧ onRecvBody buffer n s = some next ∧
    call = ⟨s.processLen.toNat,(next.processLen - s.processLen).toNat⟩

-- GameSession::OnRecvPacket, HandlePacket and the handler it finds stay in what they are given.
structure InBounds (buffer : Nat → BYTE) (n : Nat) (call : RecvPacketCall) : Prop where
  header : PacketHeader.sizeof ≤ call.len
  available : call.pos + call.len ≤ n
  handler : ∃ handler, ClientPacketHandler.init.entry (headerAt buffer call.pos).id.toNat = some handler
  payload : 0 ≤ ClientPacketHandler.payloadSize call.len
  inside : PacketHeader.sizeof + ClientPacketHandler.payloadSize call.len ≤ call.len

theorem dispatches_frames (small : n < 2^31) : Dispatches buffer n call ↔
    Frames buffer n call.pos ∧ call.pos + PacketHeader.sizeof ≤ n ∧ call.pos + call.len ≤ n ∧ call.len = sizeAt buffer call.pos := by
  constructor
  · intro dispatches
    obtain ⟨s,next,path,went,rfl⟩ := dispatches
    obtain ⟨pos,here,boundary⟩ := rounds_frames small path
    obtain ⟨enough,whole,rfl⟩ := (body_exact small here boundary.within).mp went
    have len : ((pos + sizeAt buffer pos : Nat) - (pos : Int)).toNat = sizeAt buffer pos := by omega
    simp only [here,Int.toNat_natCast,len]
    exact ⟨boundary,enough,whole,trivial⟩
  · intro parts
    obtain ⟨boundary,enough,whole,len⟩ := parts
    obtain ⟨s,path,here⟩ := frames_rounds small boundary
    refine ⟨s,_,path,(body_exact small here boundary.within).mpr ⟨enough,len ▸ whole,rfl⟩,?_⟩
    have size : ((call.pos + sizeAt buffer call.pos : Nat) - (call.pos : Int)).toNat = call.len := by omega
    rw [here,Int.toNat_natCast,size]

theorem payloadSize_fits {len : Nat} (small : len < 2^31) (long : PacketHeader.sizeof ≤ len) :
    ClientPacketHandler.payloadSize len = len - PacketHeader.sizeof := by
  have long : (PacketHeader.sizeof : Int) ≤ len := Int.ofNat_le.mpr long
  have size : toSizeT ((len : Int) - PacketHeader.sizeof) = len - PacketHeader.sizeof := by
    rw [toSizeT_small] <;> omega
  unfold ClientPacketHandler.payloadSize
  rw [size,Int.bmod_eq_of_le] <;> omega

theorem dispatches_known (small : n < 2^31) (safe : ∀ call, Dispatches buffer n call → InBounds buffer n call) :
    ∀ pos, Frames buffer n pos → pos + PacketHeader.sizeof ≤ n → pos + sizeAt buffer pos ≤ n →
      PacketHeader.sizeof ≤ sizeAt buffer pos ∧ (headerAt buffer pos).id.toNat ≠ uint16Max := by
  intro pos boundary enough whole
  have bounds := safe ⟨pos,sizeAt buffer pos⟩ ((dispatches_frames small).mpr ⟨boundary,enough,whole,rfl⟩)
  exact ⟨bounds.header,Nat.ne_of_lt (HandlerTable.entry_inside.mp bounds.handler)⟩

theorem dispatch_exact (small : n < 2^31) : (∀ call, Dispatches buffer n call → InBounds buffer n call) ↔
    ∀ pos, Frames buffer n pos → pos + PacketHeader.sizeof ≤ n → pos + sizeAt buffer pos ≤ n →
      PacketHeader.sizeof ≤ sizeAt buffer pos ∧ (headerAt buffer pos).id.toNat ≠ uint16Max := by
  constructor
  · exact dispatches_known small
  · intro sized call dispatches
    obtain ⟨boundary,enough,whole,len⟩ := (dispatches_frames small).mp dispatches
    obtain ⟨long,known⟩ := sized call.pos boundary enough (len ▸ whole)
    have payload := payloadSize_fits (by omega) (len ▸ long)
    have id := (headerAt buffer call.pos).id.toNat_lt
    refine ⟨len ▸ long,whole,HandlerTable.entry_inside.mpr ?_,?_,?_⟩
    · unfold uint16Max at *
      omega
    · rw [payload]
      omega
    · rw [payload]
      omega

-- C_SET_NICKNAME with a payload of one byte.
theorem dispatch_exact_nickname : Dispatches (underway.getD · 0) 7 ⟨0,5⟩ ∧ InBounds (underway.getD · 0) 7 ⟨0,5⟩ := by
  have made : Dispatches (underway.getD · 0) 7 ⟨0,5⟩ :=
    (dispatches_frames (by decide)).mpr ⟨.first,by decide,by decide,by decide⟩
  refine ⟨made,(dispatch_exact (by decide)).mpr (fun pos boundary enough _ => ?_) _ made⟩
  rcases underway_frames boundary with rfl | rfl
  · decide
  · exact absurd enough (by decide)

-- A header alone, with the id 65535.
theorem dispatch_outside : ¬ ∀ (buffer : Nat → BYTE) (n : Nat), n < 2^31 → ∀ call, Dispatches buffer n call → InBounds buffer n call := by
  intro always
  have known := dispatches_known (by decide) (always ([4,0,0xFF,0xFF].getD · 0) 4 (by decide)) 0 .first (by decide) (by decide)
  exact known.2 (by decide)

end IocpChatServer.GameServer
