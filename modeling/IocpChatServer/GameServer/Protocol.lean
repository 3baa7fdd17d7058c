import IocpChatServer.Foundations.Wire
import IocpChatServer.ServerCore.MakeSendBuffer

namespace IocpChatServer.GameServer
open Foundations Wire ServerCore

-- std::string.
abbrev Bytes := List UInt8

def ascii (s : String) : Bytes := s.toList.map fun c => UInt8.ofNat c.toNat

namespace Protocol

inductive ErrorCode where
  | ok | invalidNick | duplicateNick | roomNotFound | roomFull
  deriving DecidableEq, Repr

def ErrorCode.toNat : ErrorCode → Nat
  | .ok => 0
  | .invalidNick => 1
  | .duplicateNick => 2
  | .roomNotFound => 3
  | .roomFull => 4

inductive RoomEventType where
  | roomEventUnknown | roomCreated | roomDeleted | playerJoined | playerLeft
  deriving DecidableEq, Repr

def RoomEventType.toNat : RoomEventType → Nat
  | .roomEventUnknown => 0
  | .roomCreated => 1
  | .roomDeleted => 2
  | .playerJoined => 3
  | .playerLeft => 4

structure Player where
  id : UInt64
  name : Bytes
  deriving DecidableEq, Repr

structure RoomSummary where
  roomId : UInt64
  name : Bytes
  playerCount : UInt64
  maxPlayers : UInt64
  deriving DecidableEq, Repr

structure ChatMessage where
  roomId : UInt64
  playerId : UInt64
  nickname : Bytes
  msg : Bytes
  serverTimeMs : UInt64
  deriving DecidableEq, Repr

def Player.serialize (m : Player) : List UInt8 := number 1 m.id.toNat ++ text 2 m.name

def RoomSummary.serialize (m : RoomSummary) : List UInt8 :=
  number 1 m.roomId.toNat ++ text 2 m.name ++ number 3 m.playerCount.toNat ++ number 4 m.maxPlayers.toNat

def ChatMessage.serialize (m : ChatMessage) : List UInt8 :=
  number 1 m.roomId.toNat ++ number 2 m.playerId.toNat ++ text 3 m.nickname ++ text 4 m.msg ++
    number 5 m.serverTimeMs.toNat

-- `self()` of a packet without one is the default Player.
def self (player : Option Player) : Player := player.getD ⟨0,[]⟩

inductive ClientPacket where
  | cSetNickname (nickname : Bytes)
  | cRequestRoomList (num : UInt32)
  | cCreateRoom (name : Bytes) (maxPlayers : UInt32)
  | cJoinRoom (roomId : UInt64) (self : Option Player)
  | cChatRoom (msg : Bytes) (self : Option Player)
  | cLeaveRoom (self : Option Player) (roomId : UInt64)
  deriving DecidableEq, Repr

-- The seven the server sends. No handler sets the room of S_ENTER_ROOM.
inductive ServerPacket where
  | sNicknamePrompt (prompt : Bytes)
  | sNicknameResult (error : ErrorCode) (self : Option Player)
  | sRoomList (rooms : List RoomSummary)
  | sCreateRoom (error : ErrorCode) (rooms : List RoomSummary)
  | sEnterRoom (error : ErrorCode)
  | sRoomEvent (type : RoomEventType) (room : RoomSummary) (playerId : UInt64) (nickname : Bytes)
  | sChatRoom (chat : ChatMessage)
  deriving DecidableEq, Repr

namespace ServerPacket

def pktId : ServerPacket → UInt16
  | sNicknamePrompt _ => 1000
  | sNicknameResult _ _ => 1002
  | sRoomList _ => 1003
  | sCreateRoom _ _ => 1006
  | sEnterRoom _ => 1008
  | sRoomEvent _ _ _ _ => 1009
  | sChatRoom _ => 1011

def serialize : ServerPacket → List UInt8
  | sNicknamePrompt prompt => text 1 prompt
  | sNicknameResult error self => number 1 error.toNat ++ (self.map fun m => submessage 2 m.serialize).getD []
  | sRoomList rooms => rooms.flatMap fun m => submessage 1 m.serialize
  | sCreateRoom error rooms => number 1 error.toNat ++ rooms.flatMap fun m => submessage 2 m.serialize
  | sEnterRoom error => number 1 error.toNat
  | sRoomEvent type room playerId nickname =>
    number 1 type.toNat ++ submessage 2 room.serialize ++ number 3 playerId.toNat ++ text 4 nickname
  | sChatRoom chat => submessage 1 chat.serialize

def byteSizeLong (pkt : ServerPacket) : Nat := pkt.serialize.length

def Fits (pkt : ServerPacket) : Prop := pkt.byteSizeLong + PacketHeader.sizeof ≤ SendBufferChunk.chunkSize

instance (pkt : ServerPacket) : Decidable pkt.Fits := inferInstanceAs (Decidable (_ ≤ _))

theorem enterRoom_fits (error : ErrorCode) : (sEnterRoom error).Fits := by
  cases error <;> decide

theorem nicknameResult_refusal_fits : (sNicknameResult .duplicateNick none).Fits := by decide

theorem createRoom_refusal_fits : (sCreateRoom .duplicateNick []).Fits := by decide

def nicknamePrompt : ServerPacket := sNicknamePrompt (ascii "Enter your nickname : ")

theorem nicknamePrompt_fits : nicknamePrompt.Fits := by decide

end ServerPacket
end Protocol
end IocpChatServer.GameServer
