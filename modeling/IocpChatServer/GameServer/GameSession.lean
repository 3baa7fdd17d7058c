import IocpChatServer.GameServer.PacketRoundTrip
import IocpChatServer.GameServer.Registry

namespace IocpChatServer.GameServer
open ServerCore PacketSession Protocol Protobuf Foundations TransitionSystem Tools

-- GameSession::OnRecvPacket. A packet without a handler, or one that does not parse, is dropped.
def Server.onRecvPacket (s : Server) (worker : Nat) (session : SessionRef) (buffer : List BYTE) : Option Server :=
  match ClientPacketHandler.parsePacket (PacketHeader.ofBytes buffer).id (buffer.drop PacketHeader.sizeof) with
  | some pkt => s.step (.packet worker session pkt)
  | none => if s.session session = .connected then some s else none

inductive SessionEvent where
  | connected (worker : Nat) (session : SessionRef)
  | disconnected (session : SessionRef)
  | destroyed (session : SessionRef)
  | recvPacket (worker : Nat) (session : SessionRef) (buffer : List BYTE)
  deriving DecidableEq, Repr

-- A buffer that is not a frame, or has the id past the handler table, is looked at out of bounds.
def Server.stepSession (s : Server) : SessionEvent → Option Server
  | .connected worker session => s.step (.connect worker session)
  | .disconnected session => s.step (.disconnect session)
  | .destroyed session => s.step (.destroy session)
  | .recvPacket worker session buffer =>
    if WellFormed buffer ∧ (PacketHeader.ofBytes buffer).id.toNat ≠ uint16Max then s.onRecvPacket worker session buffer else none

structure World.Text (w : World) : Prop where
  players : ∀ p, isStructurallyValidUTF8 (w.players p).name = true
  rooms : ∀ r, isStructurallyValidUTF8 (w.rooms r).name = true

def Legible (sent : List (SessionRef × ServerPacket)) : Prop := ∀ entry ∈ sent, entry.2.Text ∧ entry.2.Fits

structure Server.Text (s : Server) : Prop where
  world : s.world.Text
  sent : Legible s.sent

namespace World
variable {w : World} {name : Bytes}

theorem setPlayer_text (text : w.Text) (ref : PlayerRef) {player : Player} (valid : isStructurallyValidUTF8 player.name = true) :
    (w.setPlayer ref player).Text := by
  refine ⟨fun p => ?_,text.rooms⟩
  by_cases same : p = ref
  · subst same
    simpa [setPlayer] using valid
  · simpa [setPlayer,same] using text.players p

theorem setRoom_text (text : w.Text) (ref : RoomRef) {room : Room} (valid : isStructurallyValidUTF8 room.name = true) :
    (w.setRoom ref room).Text := by
  refine ⟨text.players,fun r => ?_⟩
  by_cases same : r = ref
  · subst same
    simpa [setRoom] using valid
  · simpa [setRoom,same] using text.rooms r

theorem named_text (text : w.Text) (session : SessionRef) (valid : isStructurallyValidUTF8 name = true) :
    (w.named session name).Text := by
  have made := @setPlayer_text w text w.playerCount ⟨w.manager.playerId,name,0,some session⟩ valid
  exact ⟨made.players,made.rooms⟩

theorem founded_text (text : w.Text) (valid : isStructurallyValidUTF8 name = true) : (w.founded name).Text := by
  have made := @setRoom_text w text w.roomCount ⟨{},name,w.manager.roomId,16⟩ valid
  exact ⟨made.players,made.rooms⟩

theorem moved_text (text : w.Text) (player : PlayerRef) (roomId : UInt64) : (w.moved player roomId).Text :=
  setPlayer_text text player (text.players player)

theorem entered_text (text : w.Text) (room : RoomRef) (player : PlayerRef) : (w.entered room player).Text :=
  setRoom_text text room (text.rooms room)

theorem left_text (text : w.Text) (room : RoomRef) (player : PlayerRef) : (w.left room player).Text :=
  setRoom_text text room (text.rooms room)

theorem summaries_text (text : w.Text) : ∀ m ∈ w.summaries, m.Text := by
  intro m listed
  obtain ⟨room,_,rfl⟩ := List.mem_map.mp listed
  exact text.rooms room

theorem roomEvent_text (text : w.Text) (type : RoomEventType) (room : RoomRef) (player : PlayerRef) :
    (w.roomEvent type room player).Text := ⟨text.rooms room,text.players player⟩

end World

namespace Server
variable {s next : Server} {session : SessionRef} {pkt : ServerPacket} {packet : ClientPacket} {answer : Bool}
  {sent more : List (SessionRef × ServerPacket)}

theorem legible_append (before : Legible sent) (after : Legible more) : Legible (sent ++ more) := by
  intro entry member
  rcases List.mem_append.mp member with old | new
  · exact before entry old
  · exact after entry new

theorem delivery_legible (text : pkt.Text) (fits : pkt.Fits) : Legible (s.delivery session pkt) := by
  intro entry member
  rw [delivery_message member]
  exact ⟨text,fits⟩

theorem toOwner_legible (text : pkt.Text) (fits : pkt.Fits) (player : PlayerRef) : Legible (s.toOwner player pkt) := by
  intro entry member
  rw [toOwner_message member]
  exact ⟨text,fits⟩

theorem toOwners_legible (text : pkt.Text) (fits : pkt.Fits) (players : List PlayerRef) : Legible (s.toOwners players pkt) := by
  intro entry member
  rw [toOwners_message member]
  exact ⟨text,fits⟩

theorem nicknamePrompt_text : ServerPacket.nicknamePrompt.Text := by
  change isStructurallyValidUTF8 (ascii "Enter your nickname : ") = true
  decide

theorem self_text {player : Option Protocol.Player} (text : ∀ m ∈ player, m.Text) : (self player).Text := by
  cases player with
  | none => exact rfl
  | some m => exact text m rfl

theorem refusals_legible : Legible (s.delivery session (.sNicknameResult .duplicateNick none)) ∧
    Legible (s.delivery session .nicknamePrompt) ∧ Legible (s.delivery session (.sCreateRoom .duplicateNick [])) :=
  ⟨delivery_legible (fun _ absent => nomatch absent) ServerPacket.nicknameResult_refusal_fits,
    delivery_legible nicknamePrompt_text ServerPacket.nicknamePrompt_fits,
    delivery_legible (fun _ absent => nomatch absent) ServerPacket.createRoom_refusal_fits⟩

theorem handled_text (text : s.Text) (said : packet.Text) (handled : Handles s session packet (.ok (answer,next))) : next.Text := by
  obtain ⟨nickname,prompt,room⟩ := @refusals_legible s session
  have enter (error : ErrorCode) : Legible (s.delivery session (.sEnterRoom error)) :=
    delivery_legible trivial (ServerPacket.enterRoom_fits error)
  cases handled with
  | @nicknameTaken name =>
    have world := @World.setPlayer_text s.world text.world s.world.playerCount {playerId := 1,name := name} said
    exact ⟨⟨world.players,world.rooms⟩,legible_append (legible_append text.sent nickname) prompt⟩
  | named free fits =>
    refine ⟨World.named_text text.world session said,legible_append text.sent (delivery_legible (fun m present => ?_) fits)⟩
    cases present
    exact said
  | listed fits => exact ⟨text.world,legible_append text.sent (delivery_legible (World.summaries_text text.world) fits)⟩
  | @roomTaken name =>
    have world := @World.setRoom_text s.world text.world s.world.roomCount (Room.setName {} name) said
    exact ⟨⟨world.players,world.rooms⟩,legible_append text.sent room⟩
  | founded free fits =>
    have world := World.founded_text text.world said
    exact ⟨world,legible_append text.sent (delivery_legible (World.summaries_text world) fits)⟩
  | rejected => exact ⟨World.moved_text text.world _ _,legible_append text.sent (enter _)⟩
  | @joined _ room _ p threads found known notFull fits live =>
    have world := World.entered_text text.world room p
    have event := World.roomEvent_text world .playerJoined room p
    exact ⟨World.moved_text world _ _,legible_append (legible_append text.sent (toOwners_legible event fits _)) (enter _)⟩
  | @chatted player p room msg threads known found fits =>
    have chat : (s.world.chat room (self player) msg).Text := ⟨self_text said.2,said.1⟩
    exact ⟨text.world,legible_append text.sent (toOwners_legible chat fits _)⟩
  | leavesNowhere => exact text
  | @left player p room _ threads known found fits live =>
    have world := World.left_text text.world room p
    have event := World.roomEvent_text world .playerLeft room p
    exact ⟨World.moved_text world _ _,
      legible_append (legible_append text.sent (toOwner_legible event fits _)) (toOwners_legible event fits _)⟩

theorem step_text {event : Event} (text : s.Text) (said : ∀ worker session pkt, event = .packet worker session pkt → pkt.Text)
    (taken : s.step event = some next) : next.Text := by
  cases event with
  | connect worker session =>
    obtain ⟨_,threads,rfl⟩ := connect_does taken
    refine ⟨⟨text.world.players,text.world.rooms⟩,legible_append text.sent fun entry member => ?_⟩
    rw [List.mem_singleton.mp member]
    exact ⟨nicknamePrompt_text,ServerPacket.nicknamePrompt_fits⟩
  | disconnect session | destroy session =>
    simp only [step] at taken
    split at taken
    · cases taken
      exact ⟨⟨text.world.players,text.world.rooms⟩,text.sent⟩
    · cases taken
  | packet worker session pkt =>
    rcases step_parts taken with ⟨_,_,_,answer,same,_,handled⟩ | ⟨quiet,_⟩
    · cases same
      exact handled_text text (said worker session pkt rfl) handled
    · exact absurd rfl (quiet _ _ _)

theorem start_text : Text start := by
  refine ⟨⟨fun _ => rfl,fun _ => rfl⟩,?_⟩
  intro entry member
  cases member

end Server
end IocpChatServer.GameServer
