import IocpChatServer.GameServer.GameSession
import IocpChatServer.ServerCore.FrameRoundTrip

namespace IocpChatServer.GameServer
open ServerCore FrameRoundTrip Protocol Protobuf Tools

def Protocol.ClientPacket.frame (pkt : ClientPacket) : List BYTE := SendThread.frameOf pkt.serialize pkt.pktId
def Protocol.ServerPacket.frame (pkt : ServerPacket) : List BYTE := SendThread.frameOf pkt.serialize pkt.pktId

def Protocol.ClientPacket.Fits (pkt : ClientPacket) : Prop := pkt.serialize.length ≤ SendThread.maxPayload

instance (pkt : ClientPacket) : Decidable pkt.Fits := inferInstanceAs (Decidable (_ ≤ _))

variable {s : Server} {worker : Nat} {session : SessionRef} {pkt : ClientPacket}

theorem frameOf_header {payload : List BYTE} {id : UInt16} : (PacketHeader.ofBytes (SendThread.frameOf payload id)).id = id ∧
    (SendThread.frameOf payload id).drop PacketHeader.sizeof = payload := by
  rw [SendThread.frameOf,PacketHeader.ofBytes_toBytes]
  exact ⟨rfl,rfl⟩

theorem payload_short {payload : List BYTE} (small : payload.length ≤ SendThread.maxPayload) : payload.length ≤ maxSize :=
  Nat.le_trans small (by decide)

theorem Protocol.ServerPacket.Fits.small {pkt : ServerPacket} (fits : pkt.Fits) : pkt.serialize.length ≤ SendThread.maxPayload :=
  Nat.le_sub_of_add_le fits

namespace Server

theorem stepSession_recv (fits : pkt.Fits) :
    s.stepSession (.recvPacket worker session pkt.frame) = s.onRecvPacket worker session pkt.frame := by
  have known : pkt.pktId.toNat ≠ uint16Max := by cases pkt <;> simp [ClientPacket.pktId,uint16Max]
  have id : (PacketHeader.ofBytes pkt.frame).id = pkt.pktId := frameOf_header.1
  exact if_pos ⟨frameOf_wellFormed fits,id ▸ known⟩

theorem onRecvPacket_parse : s.onRecvPacket worker session pkt.frame =
    match ClientPacketHandler.parsePacket pkt.pktId pkt.serialize with
    | some got => s.step (.packet worker session got)
    | none => if s.session session = .connected then some s else none := by
  obtain ⟨id,payload⟩ := @frameOf_header pkt.serialize pkt.pktId
  cases parsed : ClientPacketHandler.parsePacket pkt.pktId pkt.serialize with
  | none => simp only [onRecvPacket,ClientPacket.frame,id,payload,parsed]
  | some got => simp only [onRecvPacket,ClientPacket.frame,id,payload,parsed]

theorem onRecvPacket_text_frame (text : pkt.Text) (fits : pkt.Fits) :
    s.onRecvPacket worker session pkt.frame = s.step (.packet worker session pkt) := by
  rw [onRecvPacket_parse,(parsePacket_exact pkt (payload_short fits) pkt).mpr ⟨text,rfl⟩]

end Server
end IocpChatServer.GameServer
