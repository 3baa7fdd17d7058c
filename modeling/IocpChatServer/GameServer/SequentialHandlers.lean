import IocpChatServer.GameServer.Acquaintance

namespace IocpChatServer.GameServer
open Std ServerCore Protocol Foundations Table TransitionSystem

def Protocol.ServerPacket.isRoomNews : ServerPacket → Bool
  | .sRoomEvent _ _ _ _ | .sChatRoom _ => true
  | .sNicknamePrompt _ | .sNicknameResult _ _ | .sRoomList _ | .sCreateRoom _ _ | .sEnterRoom _ => false

def roomNews (sent : List (SessionRef × ServerPacket)) : List (SessionRef × ServerPacket) := sent.filter fun entry => entry.2.isRoomNews

theorem roomNews_append (one two : List (SessionRef × ServerPacket)) : roomNews (one ++ two) = roomNews one ++ roomNews two :=
  List.filter_append ..

section Sequential
variable {s t : Server} {worker : Nat} {session : SessionRef} {pkt : ClientPacket} {message : ServerPacket} {name : Bytes}
  {player : Option Protocol.Player} {roomId : UInt64} {room : RoomRef} {p : PlayerRef} {players : List PlayerRef}

def Server.Takes (s : Server) (worker : Nat) (session : SessionRef) (pkt : ClientPacket) (world : World)
    (news : List (SessionRef × ServerPacket)) : Prop :=
  ∃ next, s.step (.packet worker session pkt) = some next ∧ next.session = s.session ∧ next.world = world ∧
    roomNews next.sent = roomNews s.sent ++ roomNews news

theorem Server.takes (connected : s.session session = .connected) {world : World} {news : List (SessionRef × ServerPacket)}
    (ends : ∀ result, Handles s session pkt result → ∃ answer next, result = .ok (answer,next) ∧ next.world = world ∧
      roomNews next.sent = roomNews s.sent ++ roomNews news) : s.Takes worker session pkt world news := by
  have handles := @Server.handlePacket_handles s worker session pkt
  obtain ⟨answer,next,done,after,sent⟩ := ends _ handles
  rw [done] at handles
  exact ⟨next,by simp [Server.step,connected,done,Except.map,Except.toOption],Server.handled_session handles,after,sent⟩

theorem takes_chat {msg : Bytes} (connected : s.session session = .connected) (known : s.world.getPlayer (self player).id = some p)
    (found : s.world.roomOf p = some room) (fits : (s.world.chat room (self player) msg).Fits) :
    s.Takes worker session (.cChatRoom msg player) s.world (s.toOwners (s.world.rooms room).members (s.world.chat room (self player) msg)) := by
  refine Server.takes connected fun result handles => ?_
  cases handles with
  | nobodyChats nobody =>
    rw [known] at nobody
    cases nobody
  | chatsNowhere knownToo nowhere =>
    cases knownToo.symm.trans known
    rw [found] at nowhere
    cases nowhere
  | chatRefused knownToo foundToo large =>
    cases knownToo.symm.trans known
    cases foundToo.symm.trans found
    exact absurd fits large
  | chatted knownToo foundToo =>
    cases knownToo.symm.trans known
    cases foundToo.symm.trans found
    exact ⟨_,_,rfl,rfl,by rw [roomNews_append]⟩

end Sequential

end IocpChatServer.GameServer
