import IocpChatServer.DummyClient.ServerPacketHandler
import IocpChatServer.GameServer.PacketFrames

namespace IocpChatServer.DummyClient
open GameServer ServerCore FrameRoundTrip Protocol Protobuf Foundations TransitionSystem

namespace ServerSession

def onRecvPacket (c : Client) (buffer : List BYTE) : Client :=
  c.onRecvPacket (PacketHeader.ofBytes buffer).id (buffer.drop PacketHeader.sizeof)

variable {pkt : ServerPacket}

theorem onRecvPacket_parse (c : Client) :
    onRecvPacket c pkt.frame = c.onRecvPacket pkt.pktId pkt.serialize := by
  obtain ⟨id,payload⟩ := @frameOf_header pkt.serialize pkt.pktId
  simp only [onRecvPacket,ServerPacket.frame,id,payload]

theorem onRecvPacket_frame (text : pkt.Text) (fits : pkt.Fits) (c : Client) : onRecvPacket c pkt.frame = c.handlePacket pkt := by
  have parsed := (parsePacket_message pkt (payload_short fits.small) (message pkt)).mpr ⟨text,rfl⟩
  rw [onRecvPacket_parse,Client.onRecvPacket,parsed]
  exact c.handleMessage_message pkt

-- What the client reads out of the frame of a packet that fits: this packet and no other, or
-- nothing for a string that is not UTF-8.
theorem packets_read_as_sent (fits : pkt.Fits) :
    (pkt.Text → (∀ other, ServerPacketHandler.parsePacket pkt.pktId pkt.serialize = some (message other) ↔ other = pkt) ∧
      ∀ c, onRecvPacket c pkt.frame = c.handlePacket pkt) ∧
    (¬pkt.Text → ∀ c, onRecvPacket c pkt.frame = c) := by
  have parsed := parsePacket_message pkt (payload_short fits.small)
  refine ⟨fun text => ⟨fun other => ?_,onRecvPacket_frame text fits⟩,fun garbled c => ?_⟩
  · rw [parsed]
    exact ⟨fun both => message_injective both.2,fun same => ⟨text,congrArg message same⟩⟩
  · have dropped : ServerPacketHandler.parsePacket pkt.pktId pkt.serialize = none :=
      Option.eq_none_iff_forall_ne_some.mpr fun got found => garbled ((parsed got).mp found).1
    rw [onRecvPacket_parse,Client.onRecvPacket,dropped]

theorem packets_read_as_sent_hall : onRecvPacket {state := .lobby}
    (ServerPacket.sRoomEvent .playerJoined ⟨1,ascii "hall",1,16⟩ 1 (ascii "kim")).frame =
    {state := .lobby,room := some [⟨1,ascii "kim"⟩]} :=
  ((@packets_read_as_sent (.sRoomEvent .playerJoined ⟨1,ascii "hall",1,16⟩ 1 (ascii "kim")) (by decide)).1
    (by simp only [ServerPacket.Text,RoomSummary.Text]; decide)).2 _

end ServerSession
end IocpChatServer.DummyClient
