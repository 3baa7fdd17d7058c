import IocpChatServer.GameServer.ClientPacketHandler

namespace IocpChatServer.DummyClient
open GameServer Protocol

inductive ClientState where
  | connecting | waitingNickname | lobby | inRoom
  deriving DecidableEq, Repr

-- RoomSnapshot of the protocol; one that is not set reads as the default.
structure RoomSnapshot where
  info : RoomSummary := ⟨0,[],0,0⟩
  players : List Protocol.Player := []

-- GClient and the ServerSession it is connected by: `session` says that GClient has it,
-- `player` and `room` are the session's own. A Room is its list of players.
structure Client where
  state : ClientState := .connecting
  nickname : Bytes := []
  myId : UInt64 := 0
  currentRoomId : UInt64 := 0
  session : Bool := false
  player : Option Protocol.Player := none
  room : Option (List Protocol.Player) := none

namespace Client
variable (c : Client)

def handleNicknamePrompt : Client := {c with state := .waitingNickname,session := true}

def handleNicknameResult (error : ErrorCode) (player : Option Protocol.Player) : Client :=
  if error ≠ .ok then {c with state := .waitingNickname}
  else {c with
    player := some (self player)
    myId := (self player).id
    nickname := (self player).name
    state := .lobby}

def handleEnterRoom (error : ErrorCode) (room : RoomSnapshot) : Client :=
  if error ≠ .ok then c
  else {c with
    room := some room.players
    currentRoomId := room.info.roomId
    state := .inRoom}

def addPlayer (players : List Protocol.Player) (player : Protocol.Player) : List Protocol.Player := players ++ [player]

def deletePlayerByName (players : List Protocol.Player) (name : Bytes) : List Protocol.Player :=
  players.eraseP fun p => p.name = name

def handleRoomEvent (type : RoomEventType) (playerId : UInt64) (nickname : Bytes) : Client :=
  let players := c.room.getD []
  match type with
  | .playerJoined => {c with room := some (addPlayer players ⟨playerId,nickname⟩)}
  | .playerLeft => {c with room := some (deletePlayerByName players nickname)}
  | .roomEventUnknown | .roomCreated | .roomDeleted => {c with room := some players}

-- The lists, the answer to a creation and chat are only logged. `pkt.room()` of an S_ENTER_ROOM
-- is the default, since the server sets none.
def handlePacket : ServerPacket → Client
  | .sNicknamePrompt _ => c.handleNicknamePrompt
  | .sNicknameResult error player => c.handleNicknameResult error player
  | .sEnterRoom error => c.handleEnterRoom error {}
  | .sRoomEvent type _ playerId nickname => c.handleRoomEvent type playerId nickname
  | .sRoomList _ | .sCreateRoom _ _ | .sChatRoom _ => c

def send (pkt : ClientPacket) : Option ClientPacket := if c.session then some pkt else none

def self : Protocol.Player := ⟨c.myId,c.nickname⟩

def setNickname (name : Bytes) : Option ClientPacket × Client := (c.send (.cSetNickname name),c)
def requestRoomList : Option ClientPacket × Client := (c.send (.cRequestRoomList 0),c)
def createRoom (name : Bytes) : Option ClientPacket × Client := (c.send (.cCreateRoom name 0),c)
def enterRoomById (roomId : UInt64) : Option ClientPacket × Client := (c.send (.cJoinRoom roomId (some c.self)),c)
def chatToRoom (msg : Bytes) : Option ClientPacket × Client := (c.send (.cChatRoom msg (some c.self)),c)

def leaveRoom : Option ClientPacket × Client :=
  (c.send (.cLeaveRoom (some c.self) c.currentRoomId),if c.session then {c with state := .lobby} else c)

end Client

def isSpace (c : UInt8) : Bool := c = 32 ∨ 9 ≤ c ∧ c ≤ 13
def isDigit (c : UInt8) : Bool := 48 ≤ c ∧ c ≤ 57

-- strtoull with base 10: a number too large is the largest one, and a minus negates.
def strtoull (text : Bytes) : UInt64 :=
  let text := text.dropWhile isSpace
  let (negative,text) := match text with
    | 45 :: rest => (true,rest)
    | 43 :: rest => (false,rest)
    | text => (false,text)
  let value := (text.takeWhile isDigit).foldl (fun value c => value * 10 + (c.toNat - 48)) 0
  if 2 ^ 64 ≤ value then 0xFFFFFFFFFFFFFFFF
  else if negative then 0 - UInt64.ofNat value
  else UInt64.ofNat value

def startsWith (line start : Bytes) : Bool := start.isPrefixOf line

def Client.handleInputLine (c : Client) (line : Bytes) : Option ClientPacket × Client :=
  match c.state with
  | .waitingNickname => if line = [] then (none,c) else c.setNickname line
  | .lobby =>
    if line = ascii "list" then c.requestRoomList
    else if startsWith line (ascii "create ") then
      let name := line.drop 7
      if name = [] then (none,c) else c.createRoom name
    else if startsWith line (ascii "join ") then
      let idstr := line.drop 5
      if idstr = [] then (none,c)
      else
        let id := strtoull idstr
        if id = 0 then (none,c) else c.enterRoomById id
    else (none,c)
  | .inRoom =>
    if line = ascii "/leave" ∨ line = ascii "/Leave" then c.leaveRoom
    else if line ≠ [] then c.chatToRoom line
    else (none,c)
  | .connecting => (none,c)

end IocpChatServer.DummyClient
