import IocpChatServer.DummyClient.ClientApp
import IocpChatServer.GameServer.PacketRoundTrip

namespace IocpChatServer.DummyClient
open GameServer Protocol Protobuf Foundations Wire Tools

-- The client's GPacketHandler.
inductive PacketHandler where
  | handleInvalid
  | handleSNicknamePrompt
  | handleSNicknameResult
  | handleSRoomList
  | handleSCreateRoom
  | handleSEnterRoom
  | handleSRoomEvent
  | handleSChatRoom
  deriving DecidableEq, Repr

inductive ServerMessage where
  | sNicknamePrompt (pkt : SNicknamePrompt)
  | sNicknameResult (pkt : SNicknameResult)
  | sRoomList (pkt : SRoomList)
  | sCreateRoom (pkt : SCreateRoom)
  | sEnterRoom (pkt : SEnterRoom)
  | sRoomEvent (pkt : SRoomEvent)
  | sChatRoom (pkt : SChatRoom)
  deriving DecidableEq, Repr

def PacketHandler.parse (data : Bytes) : PacketHandler → Option ServerMessage
  | .handleInvalid => none
  | .handleSNicknamePrompt => (parseFromArray SNicknamePrompt.switch data {}).map .sNicknamePrompt
  | .handleSNicknameResult => (parseFromArray SNicknameResult.switch data {}).map .sNicknameResult
  | .handleSRoomList => (parseFromArray SRoomList.switch data {}).map .sRoomList
  | .handleSCreateRoom => (parseFromArray SCreateRoom.switch data {}).map .sCreateRoom
  | .handleSEnterRoom => (parseFromArray SEnterRoom.switch data {}).map .sEnterRoom
  | .handleSRoomEvent => (parseFromArray SRoomEvent.switch data {}).map .sRoomEvent
  | .handleSChatRoom => (parseFromArray SChatRoom.switch data {}).map .sChatRoom

namespace ServerPacketHandler

def init : HandlerTable PacketHandler := HandlerTable.init .handleInvalid
  [(1000,.handleSNicknamePrompt),(1002,.handleSNicknameResult),(1003,.handleSRoomList),(1006,.handleSCreateRoom),
    (1008,.handleSEnterRoom),(1009,.handleSRoomEvent),(1011,.handleSChatRoom)]

def parsePacket (id : UInt16) (data : Bytes) : Option ServerMessage := (init.entry id.toNat).bind (PacketHandler.parse data)

end ServerPacketHandler

-- What the server meant, field by field. An enum goes as its number.
def message : ServerPacket → ServerMessage
  | .sNicknamePrompt prompt => .sNicknamePrompt ⟨prompt⟩
  | .sNicknameResult error self => .sNicknameResult ⟨UInt32.ofNat error.toNat,self⟩
  | .sRoomList rooms => .sRoomList ⟨rooms⟩
  | .sCreateRoom error rooms => .sCreateRoom ⟨UInt32.ofNat error.toNat,rooms⟩
  | .sEnterRoom error => .sEnterRoom ⟨UInt32.ofNat error.toNat,none⟩
  | .sRoomEvent type room playerId nickname => .sRoomEvent ⟨UInt32.ofNat type.toNat,some room,playerId,nickname⟩
  | .sChatRoom chat => .sChatRoom ⟨some chat⟩

namespace Client
variable (c : Client)

-- The handlers, on what was parsed: `pkt.error() != OK`, and the snapshot of the room with its
-- defaults.
def handleMessage : ServerMessage → Client
  | .sNicknamePrompt _ => c.handleNicknamePrompt
  | .sNicknameResult pkt =>
    if pkt.error ≠ 0 then {c with state := .waitingNickname}
    else {c with
      player := some (Protocol.self pkt.self)
      myId := (Protocol.self pkt.self).id
      nickname := (Protocol.self pkt.self).name
      state := .lobby}
  | .sEnterRoom pkt =>
    if pkt.error ≠ 0 then c
    else
      let room := pkt.room.getD {}
      {c with
        room := some room.players
        currentRoomId := (room.info.getD .empty).roomId
        state := .inRoom}
  | .sRoomEvent pkt =>
    let players := c.room.getD []
    if pkt.type = 3 then {c with room := some (addPlayer players ⟨pkt.playerId,pkt.nickname⟩)}
    else if pkt.type = 4 then {c with room := some (deletePlayerByName players pkt.nickname)}
    else {c with room := some players}
  | .sRoomList _ | .sCreateRoom _ | .sChatRoom _ => c

-- OnRecvPacket: a packet without a handler, or one that does not parse, changes nothing.
def onRecvPacket (id : UInt16) (data : Bytes) : Client :=
  match ServerPacketHandler.parsePacket id data with
  | some pkt => c.handleMessage pkt
  | none => c

theorem handleMessage_message (pkt : ServerPacket) : c.handleMessage (message pkt) = c.handlePacket pkt := by
  cases pkt with
  | sNicknameResult error player => cases error <;> rfl
  | sEnterRoom error => cases error <;> rfl
  | sRoomEvent type room playerId nickname => cases type <;> rfl
  | sNicknamePrompt | sRoomList | sCreateRoom | sChatRoom => rfl

end Client

theorem message_injective {one two : ServerPacket} (same : message one = message two) : one = two := by
  have errors : ∀ one two : ErrorCode, UInt32.ofNat one.toNat = UInt32.ofNat two.toNat → one = two := by
    intro one two
    cases one <;> cases two <;> decide
  have types : ∀ one two : RoomEventType, UInt32.ofNat one.toNat = UInt32.ofNat two.toNat → one = two := by
    intro one two
    cases one <;> cases two <;> decide
  cases one <;> cases two <;> simp only [message,reduceCtorEq,ServerMessage.sNicknamePrompt.injEq,ServerMessage.sNicknameResult.injEq,
    ServerMessage.sRoomList.injEq,ServerMessage.sCreateRoom.injEq,ServerMessage.sEnterRoom.injEq,ServerMessage.sRoomEvent.injEq,
    ServerMessage.sChatRoom.injEq,SNicknamePrompt.mk.injEq,SNicknameResult.mk.injEq,SRoomList.mk.injEq,SCreateRoom.mk.injEq,
    SEnterRoom.mk.injEq,SRoomEvent.mk.injEq,SChatRoom.mk.injEq,Option.some.injEq] at same
  all_goals grind

theorem parsePacket_message (pkt : ServerPacket) (short : pkt.serialize.length ≤ maxSize) (got : ServerMessage) :
    ServerPacketHandler.parsePacket pkt.pktId pkt.serialize = some got ↔ pkt.Text ∧ got = message pkt := by
  cases pkt with
  | sNicknamePrompt prompt => exact parsed_exact (nicknamePrompt_fields ⟨prompt⟩ short)
  | sNicknameResult error self => exact parsed_exact (nicknameResult_fields error self short)
  | sRoomList rooms => exact parsed_exact (roomList_fields rooms short)
  | sCreateRoom error rooms => exact parsed_exact (sCreateRoom_fields error rooms short)
  | sEnterRoom error => exact parsed_exact fun got => (enterRoom_fields error got).trans (Iff.of_eq (true_and _).symm)
  | sRoomEvent type room playerId nickname => exact parsed_exact (roomEvent_fields type room playerId nickname short)
  | sChatRoom chat => exact parsed_exact (sChatRoom_fields chat short)

theorem PacketHandler.parse_unknown {handler : PacketHandler} {tag : UInt32} {front header body rest : Bytes}
    (parsed : handler.parse front ≠ none) (written : Tag tag header) (new : 5 ≤ fieldNumber tag)
    (unknown : Unknown defaultRecursionLimit tag body) :
    handler.parse (front ++ (header ++ body ++ rest)) = handler.parse (front ++ rest) := by
  have past (known : UInt32) (low : fieldNumber known < 5) : tag ≠ known := fun same => by
    rw [same] at new
    exact absurd low (Nat.not_lt.mpr new)
  cases handler with
  | handleInvalid => exact absurd rfl parsed
  | handleSNicknamePrompt =>
    refine parsed_unknown parsed written ?_ unknown
    unfold SNicknamePrompt.switch
    split <;> first | rfl | exact absurd rfl (past _ (by decide))
  | handleSNicknameResult =>
    refine parsed_unknown parsed written ?_ unknown
    unfold SNicknameResult.switch
    split <;> first | rfl | exact absurd rfl (past _ (by decide))
  | handleSRoomList =>
    refine parsed_unknown parsed written ?_ unknown
    unfold SRoomList.switch
    split <;> first | rfl | exact absurd rfl (past _ (by decide))
  | handleSCreateRoom =>
    refine parsed_unknown parsed written ?_ unknown
    unfold SCreateRoom.switch
    split <;> first | rfl | exact absurd rfl (past _ (by decide))
  | handleSEnterRoom =>
    refine parsed_unknown parsed written ?_ unknown
    unfold SEnterRoom.switch
    split <;> first | rfl | exact absurd rfl (past _ (by decide))
  | handleSRoomEvent =>
    refine parsed_unknown parsed written ?_ unknown
    unfold SRoomEvent.switch
    split <;> first | rfl | exact absurd rfl (past _ (by decide))
  | handleSChatRoom =>
    refine parsed_unknown parsed written ?_ unknown
    unfold SChatRoom.switch
    split <;> first | rfl | exact absurd rfl (past _ (by decide))

-- Either side reads the packets of a version that has added fields: those may stand between any
-- two fields, groups nested below the recursion limit included.
theorem added_fields_skipped {tag : UInt32} {header body : Bytes} (written : Tag tag header)
    (unknown : Unknown defaultRecursionLimit tag body) :
    (∀ id front rest, 3 ≤ fieldNumber tag → ClientPacketHandler.parsePacket id front ≠ none →
      ClientPacketHandler.parsePacket id (front ++ (header ++ body ++ rest)) = ClientPacketHandler.parsePacket id (front ++ rest)) ∧
    (∀ id front rest, 5 ≤ fieldNumber tag → ServerPacketHandler.parsePacket id front ≠ none →
      ServerPacketHandler.parsePacket id (front ++ (header ++ body ++ rest)) = ServerPacketHandler.parsePacket id (front ++ rest)) := by
  constructor
  · intro id front rest new parsed
    unfold ClientPacketHandler.parsePacket at parsed ⊢
    cases found : ClientPacketHandler.init.entry id.toNat with
    | none => rfl
    | some handler =>
      rw [found] at parsed
      exact GameServer.PacketHandler.parse_unknown parsed written new unknown
  · intro id front rest new parsed
    unfold ServerPacketHandler.parsePacket at parsed ⊢
    cases found : ServerPacketHandler.init.entry id.toNat with
    | none => rfl
    | some handler =>
      rw [found] at parsed
      exact PacketHandler.parse_unknown parsed written new unknown

-- A group with the number 7 and a number in it, behind the text of either packet.
theorem added_fields_skipped_group :
    ClientPacketHandler.parsePacket 1001 ([10,3,107,105,109] ++ ([59] ++ [8,1,60] ++ [])) = some (.cSetNickname (ascii "kim")) ∧
    ServerPacketHandler.parsePacket 1000 ([10,1,63] ++ ([59] ++ [8,1,60] ++ [])) = some (.sNicknamePrompt ⟨ascii "?"⟩) := by
  have open_ : Tag 59 [59] := ⟨59,@varint_written 5 59 (by decide),rfl⟩
  have field : Tag 8 [8] := ⟨8,@varint_written 5 8 (by decide),rfl⟩
  have close : Tag (59 + 1) [60] := ⟨60,@varint_written 5 60 (by decide),rfl⟩
  have one : Plain 8 [1] := .varint rfl ⟨1,@varint_written 10 1 (by decide),rfl⟩
  have unknown : Unknown defaultRecursionLimit 59 [8,1,60] :=
    .group (by decide) rfl (.plain field (by decide) (by decide) one (.close close (by decide)))
  obtain ⟨server,client⟩ := added_fields_skipped open_ unknown
  constructor
  · rw [server 1001 [10,3,107,105,109] [] (by decide) (by decide)]
    decide
  · rw [client 1000 [10,1,63] [] (by decide) (by decide)]
    decide

end IocpChatServer.DummyClient
