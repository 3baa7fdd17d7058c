import IocpChatServer.GameServer.PacketDispatch
import IocpChatServer.GameServer.Protocol
import IocpChatServer.Protobuf.MessageGrammar

namespace IocpChatServer.GameServer
open Foundations Wire Reader Protobuf

namespace Protocol

-- The messages as their parsers fill them in. A field that is a message may be absent, and an
-- enum may hold any number of 32 bits.
structure RoomSnapshot where
  info : Option RoomSummary := none
  players : List Player := []
  deriving DecidableEq, Repr

structure SNicknamePrompt where
  prompt : Bytes := []
  deriving DecidableEq, Repr

structure CSetNickname where
  nickname : Bytes := []
  deriving DecidableEq, Repr

structure SNicknameResult where
  error : UInt32 := 0
  self : Option Player := none
  deriving DecidableEq, Repr

structure SRoomList where
  rooms : List RoomSummary := []
  deriving DecidableEq, Repr

structure CRequestRoomList where
  num : UInt32 := 0
  deriving DecidableEq, Repr

structure CCreateRoom where
  name : Bytes := []
  maxPlayers : UInt32 := 0
  deriving DecidableEq, Repr

structure SCreateRoom where
  error : UInt32 := 0
  rooms : List RoomSummary := []
  deriving DecidableEq, Repr

structure CJoinRoom where
  roomId : UInt64 := 0
  self : Option Player := none
  deriving DecidableEq, Repr

structure SEnterRoom where
  error : UInt32 := 0
  room : Option RoomSnapshot := none
  deriving DecidableEq, Repr

structure SRoomEvent where
  type : UInt32 := 0
  room : Option RoomSummary := none
  playerId : UInt64 := 0
  nickname : Bytes := []
  deriving DecidableEq, Repr

structure CChatRoom where
  msg : Bytes := []
  self : Option Player := none
  deriving DecidableEq, Repr

structure SChatRoom where
  chat : Option ChatMessage := none
  deriving DecidableEq, Repr

structure CLeaveRoom where
  self : Option Player := none
  roomId : UInt64 := 0
  deriving DecidableEq, Repr

def Player.empty : Player := ⟨0,[]⟩
def RoomSummary.empty : RoomSummary := ⟨0,[],0,0⟩
def ChatMessage.empty : ChatMessage := ⟨0,0,[],[],0⟩

section Cases
variable {σ τ : Type}

-- ParseMessage(_internal_mutable_x(), ptr): what is there already is merged into.
def mutableMessage (switch : UInt32 → Option (FieldCase τ)) (empty : τ) (get : σ → Option τ) (set : Option τ → σ → σ) : FieldCase σ :=
  .message fun depth ptr msg => (internalParse switch depth ptr ((get msg).getD empty)).map fun sub => set (some sub) msg

-- ParseMessage(_internal_add_x(), ptr). The inner loop over the next equal tag is the outer one.
def addMessage (switch : UInt32 → Option (FieldCase τ)) (empty : τ) (get : σ → List τ) (set : List τ → σ → σ) : FieldCase σ :=
  .message fun depth ptr msg => (internalParse switch depth ptr empty).map fun sub => set (get msg ++ [sub]) msg

end Cases

-- The switches, by the tag of each case.
def Player.switch : UInt32 → Option (FieldCase Player)
  | 8 => some (.varint fun value msg => {msg with id := value})
  | 18 => some (.string fun str msg => {msg with name := str})
  | _ => none

def RoomSummary.switch : UInt32 → Option (FieldCase RoomSummary)
  | 8 => some (.varint fun value msg => {msg with roomId := value})
  | 18 => some (.string fun str msg => {msg with name := str})
  | 24 => some (.varint fun value msg => {msg with playerCount := value})
  | 32 => some (.varint fun value msg => {msg with maxPlayers := value})
  | _ => none

def RoomSnapshot.switch : UInt32 → Option (FieldCase RoomSnapshot)
  | 10 => some (mutableMessage RoomSummary.switch .empty (·.info) fun sub msg => {msg with info := sub})
  | 18 => some (addMessage Player.switch .empty (·.players) fun sub msg => {msg with players := sub})
  | _ => none

def ChatMessage.switch : UInt32 → Option (FieldCase ChatMessage)
  | 8 => some (.varint fun value msg => {msg with roomId := value})
  | 16 => some (.varint fun value msg => {msg with playerId := value})
  | 26 => some (.string fun str msg => {msg with nickname := str})
  | 34 => some (.string fun str msg => {msg with msg := str})
  | 40 => some (.varint fun value msg => {msg with serverTimeMs := value})
  | _ => none

def SNicknamePrompt.switch : UInt32 → Option (FieldCase SNicknamePrompt)
  | 10 => some (.string fun str msg => {msg with prompt := str})
  | _ => none

def CSetNickname.switch : UInt32 → Option (FieldCase CSetNickname)
  | 10 => some (.string fun str msg => {msg with nickname := str})
  | _ => none

def SNicknameResult.switch : UInt32 → Option (FieldCase SNicknameResult)
  | 8 => some (.varint fun value msg => {msg with error := value.toUInt32})
  | 18 => some (mutableMessage Player.switch .empty (·.self) fun sub msg => {msg with self := sub})
  | _ => none

def SRoomList.switch : UInt32 → Option (FieldCase SRoomList)
  | 10 => some (addMessage RoomSummary.switch .empty (·.rooms) fun sub msg => {msg with rooms := sub})
  | _ => none

-- ReadVarint32 reads the same bytes and keeps 32 bits.
def CRequestRoomList.switch : UInt32 → Option (FieldCase CRequestRoomList)
  | 8 => some (.varint fun value msg => {msg with num := value.toUInt32})
  | _ => none

def CCreateRoom.switch : UInt32 → Option (FieldCase CCreateRoom)
  | 10 => some (.string fun str msg => {msg with name := str})
  | 16 => some (.varint fun value msg => {msg with maxPlayers := value.toUInt32})
  | _ => none

def SCreateRoom.switch : UInt32 → Option (FieldCase SCreateRoom)
  | 8 => some (.varint fun value msg => {msg with error := value.toUInt32})
  | 18 => some (addMessage RoomSummary.switch .empty (·.rooms) fun sub msg => {msg with rooms := sub})
  | _ => none

def CJoinRoom.switch : UInt32 → Option (FieldCase CJoinRoom)
  | 8 => some (.varint fun value msg => {msg with roomId := value})
  | 18 => some (mutableMessage Player.switch .empty (·.self) fun sub msg => {msg with self := sub})
  | _ => none

def SEnterRoom.switch : UInt32 → Option (FieldCase SEnterRoom)
  | 8 => some (.varint fun value msg => {msg with error := value.toUInt32})
  | 18 => some (mutableMessage RoomSnapshot.switch {} (·.room) fun sub msg => {msg with room := sub})
  | _ => none

def SRoomEvent.switch : UInt32 → Option (FieldCase SRoomEvent)
  | 8 => some (.varint fun value msg => {msg with type := value.toUInt32})
  | 18 => some (mutableMessage RoomSummary.switch .empty (·.room) fun sub msg => {msg with room := sub})
  | 24 => some (.varint fun value msg => {msg with playerId := value})
  | 34 => some (.string fun str msg => {msg with nickname := str})
  | _ => none

def CChatRoom.switch : UInt32 → Option (FieldCase CChatRoom)
  | 10 => some (.string fun str msg => {msg with msg := str})
  | 18 => some (mutableMessage Player.switch .empty (·.self) fun sub msg => {msg with self := sub})
  | _ => none

def SChatRoom.switch : UInt32 → Option (FieldCase SChatRoom)
  | 10 => some (mutableMessage ChatMessage.switch .empty (·.chat) fun sub msg => {msg with chat := sub})
  | _ => none

def CLeaveRoom.switch : UInt32 → Option (FieldCase CLeaveRoom)
  | 10 => some (mutableMessage Player.switch .empty (·.self) fun sub msg => {msg with self := sub})
  | 16 => some (.varint fun value msg => {msg with roomId := value})
  | _ => none

namespace ClientPacket

def pktId : ClientPacket → UInt16
  | cSetNickname _ => 1001
  | cRequestRoomList _ => 1004
  | cCreateRoom _ _ => 1005
  | cJoinRoom _ _ => 1007
  | cChatRoom _ _ => 1010
  | cLeaveRoom _ _ => 1012

def ofSelf (number : Nat) (self : Option Player) : List UInt8 := (self.map fun m => submessage number m.serialize).getD []

def serialize : ClientPacket → List UInt8
  | cSetNickname nickname => text 1 nickname
  | cRequestRoomList num => number 1 num.toNat
  | cCreateRoom name maxPlayers => text 1 name ++ number 2 maxPlayers.toNat
  | cJoinRoom roomId self => number 1 roomId.toNat ++ ofSelf 2 self
  | cChatRoom msg self => text 1 msg ++ ofSelf 2 self
  | cLeaveRoom self roomId => ofSelf 1 self ++ number 2 roomId.toNat

end ClientPacket
end Protocol
open Protocol

-- What a handler of the table parses. Handle_INVALID takes nothing.
def PacketHandler.parse (data : Bytes) : PacketHandler → Option ClientPacket
  | .handleInvalid => none
  | .handleCSetNickname => (parseFromArray CSetNickname.switch data {}).map fun pkt => .cSetNickname pkt.nickname
  | .handleCRequestRoomList => (parseFromArray CRequestRoomList.switch data {}).map fun pkt => .cRequestRoomList pkt.num
  | .handleCCreateRoom => (parseFromArray CCreateRoom.switch data {}).map fun pkt => .cCreateRoom pkt.name pkt.maxPlayers
  | .handleCJoinRoom => (parseFromArray CJoinRoom.switch data {}).map fun pkt => .cJoinRoom pkt.roomId pkt.self
  | .handleCChatRoom => (parseFromArray CChatRoom.switch data {}).map fun pkt => .cChatRoom pkt.msg pkt.self
  | .handleCLeaveRoom => (parseFromArray CLeaveRoom.switch data {}).map fun pkt => .cLeaveRoom pkt.self pkt.roomId

def ClientPacketHandler.parsePacket (id : UInt16) (data : Bytes) : Option ClientPacket :=
  (init.entry id.toNat).bind (PacketHandler.parse data)

end IocpChatServer.GameServer
