import IocpChatServer.GameServer.Acquaintance

namespace IocpChatServer.GameServer
open ServerCore Protocol

-- Which of the loops over a room's members, and what its handler still needs.
inductive RoomLoop where
  | enter (found : Option PlayerRef)
  | leave (player : Option Protocol.Player)
  | broadcast
  deriving DecidableEq

-- How far a worker has come with a packet, and what it has read on the way. There is one at a
-- time for each session, since a session has one recv outstanding. A worker that is pushing has
-- the room's lock; a player it has still to reach is marked where the code looks whether the
-- session is still there.
inductive Handling where
  | idle
  | called (pkt : ClientPacket)
  | named (player : PlayerRef) (name : Bytes)
  | owned (name : Bytes)
  | roomAdded
  | listing (created : Bool) (rooms : List RoomRef) (summaries : List RoomSummary)
  | answering (pkts : List ServerPacket)
  | joining (roomId : UInt64) (player : Option Protocol.Player) (room : Option RoomRef)
  | entering (roomId : UInt64) (player : Option Protocol.Player) (room : Option RoomRef) (found : Option PlayerRef)
  | nowhere (roomId : UInt64) (player : Option Protocol.Player)
  | pushing (room : RoomRef) (loop : RoomLoop) (sendBuffer : ServerPacket) (left : List (PlayerRef × Bool))
  | entered (room : RoomRef) (found : Option PlayerRef) (error : ErrorCode)
  | seating (room : RoomRef) (found : Option PlayerRef)
  | chatting (msg : Bytes) (player : Option Protocol.Player) (room : RoomRef)
  | leaving (player : Option Protocol.Player) (roomId : UInt64) (room : RoomRef)
  | exiting (player : Option Protocol.Player) (roomId : UInt64) (room : RoomRef) (found : Option PlayerRef)
  | left (player : Option Protocol.Player)
  | unseating (found : PlayerRef)
  deriving DecidableEq

def RoomLoop.returns (room : RoomRef) : RoomLoop → Handling
  | .enter found => .entered room found .ok
  | .leave player => .left player
  | .broadcast => .idle

namespace Handling

-- The room whose lock a call is about to take, and the one whose lock it has.
def asks : Handling → Option RoomRef
  | .entering _ _ room _ => room
  | .chatting _ _ room | .exiting _ _ room _ => some room
  | .idle | .called _ | .named _ _ | .owned _ | .roomAdded | .listing _ _ _ | .answering _ | .joining _ _ _ | .nowhere _ _
  | .pushing _ _ _ _ | .entered _ _ _ | .seating _ _ | .leaving _ _ _ | .left _ | .unseating _ => none

def holds : Handling → Option RoomRef
  | .pushing room _ _ _ => some room
  | .idle | .called _ | .named _ _ | .owned _ | .roomAdded | .listing _ _ _ | .answering _ | .joining _ _ _ | .entering _ _ _ _
  | .nowhere _ _ | .entered _ _ _ | .seating _ _ | .chatting _ _ _ | .leaving _ _ _ | .exiting _ _ _ _ | .left _ | .unseating _ => none

end Handling

namespace Server
variable (s : Server)

-- Room::Enter and Leave up to the first push. Enter has nothing to push when the room is full.
def beginEnter (worker : Nat) (room : RoomRef) (player : Option PlayerRef) : Except Fault (Option ServerPacket × Server) := do
  let r := s.world.rooms room
  if r.isFull then return (none,s)
  match player with
  | none => throw (.null .player)
  | some player =>
    let players := r.players.insert (s.world.players player).playerId player
    let s := {s with world := s.world.setRoom room {r with players := players}}
    let roomEvent := s.world.roomEvent .playerJoined room player
    let s ← s.makeSendBuffer worker roomEvent
    return (some roomEvent,s)

def beginLeave (worker : Nat) (room : RoomRef) (player : Option PlayerRef) : Except Fault (PlayerRef × ServerPacket × Server) := do
  match player with
  | none => throw (.null .player)
  | some player =>
    let r := s.world.rooms room
    let players := r.players.erase (s.world.players player).playerId
    let s := {s with world := s.world.setRoom room {r with players := players}}
    let roomEvent := s.world.roomEvent .playerLeft room player
    let s ← s.makeSendBuffer worker roomEvent
    return (player,roomEvent,s)

def recipients (room : RoomRef) (checked : Bool) : List (PlayerRef × Bool) := (s.world.rooms room).members.map fun p => (p,checked)

-- The handlers in steps: each is one access to what other workers can see, a section under
-- WRITE_LOCK or READ_LOCK, a write to a Player, a push to a session's queue, with all that is
-- the worker's own around it. Of the sections of a room the pushes are steps of their own.
def advance (worker : Nat) (session : SessionRef) : Handling → Except Fault (Handling × Server)
  | .idle => .ok (.idle,s)
  | .called (.cSetNickname name) =>
    let (player,world) := s.world.makePlayer {playerId := 1,name := name}
    let (added,world) := world.addPlayer player
    .ok (if added = false then .answering [.sNicknameResult .duplicateNick none,.nicknamePrompt] else .named player name,
      {s with world := world})
  | .named player name =>
    .ok (.owned name,{s with world := s.world.setPlayer player {s.world.players player with ownerSession := some session}})
  | .owned name =>
    match s.world.getPlayerByName name with
    | none => .error (.null .player)
    | some found => .ok (.answering [.sNicknameResult .ok (some ⟨(s.world.players found).playerId,name⟩)],s)
  | .called (.cRequestRoomList _) => .ok (.listing false s.world.getAllRooms [],s)
  | .called (.cCreateRoom name _) =>
    let (room,world) := s.world.makeRoom (Room.setName {} name)
    let (added,world) := world.addRoom room
    .ok (if added = false then .answering [.sCreateRoom .duplicateNick []] else .roomAdded,{s with world := world})
  | .roomAdded => .ok (.listing true s.world.getAllRooms [],s)
  | .listing created (room :: rooms) summaries => .ok (.listing created rooms (summaries ++ [(s.world.rooms room).getSummary]),s)
  | .listing created [] summaries => .ok (.answering [if created then .sCreateRoom .ok summaries else .sRoomList summaries],s)
  | .answering (pkt :: pkts) => do
    let s ← s.makeSendBuffer worker pkt
    return (.answering pkts,s.send session pkt)
  | .answering [] => .ok (.idle,s)
  | .called (.cJoinRoom roomId player) => .ok (.joining roomId player (s.world.getRoom roomId),s)
  | .joining roomId player room => .ok (.entering roomId player room (s.world.getPlayer (self player).id),s)
  | .entering roomId player none _ => do
    let s ← s.makeSendBuffer worker (.sEnterRoom .roomNotFound)
    let s ← s.makeSendBuffer worker (.sEnterRoom .roomNotFound)
    return (.nowhere roomId player,s.send session (.sEnterRoom .roomNotFound))
  | .entering _ _ (some room) found => do
    let (roomEvent,s) ← s.beginEnter worker room found
    match roomEvent with
    | none => return (.entered room found .roomFull,s)
    | some roomEvent => return (.pushing room (.enter found) roomEvent (s.recipients room false),s)
  | .pushing room loop sendBuffer ((player,checked) :: left) =>
    match s.lock player with
    | some owner => .ok (.pushing room loop sendBuffer left,s.send owner sendBuffer)
    | none => if checked then .ok (.pushing room loop sendBuffer left,s) else .error (.null .session)
  | .pushing room loop _ [] => .ok (loop.returns room,s)
  | .nowhere _ _ => .error (.null .room)
  | .entered room found error => do
    let s ← s.makeSendBuffer worker (.sEnterRoom error)
    let s ← s.makeSendBuffer worker (.sEnterRoom error)
    return (.seating room found,s.send session (.sEnterRoom error))
  | .seating _ none => .error (.null .player)
  | .seating room (some player) => .ok (.idle,{s with world := s.world.moved player (s.world.rooms room).id})
  | .called (.cChatRoom msg player) => do
    match ← s.getRoomFromPlayerId (self player).id with
    | none => .error (.null .room)
    | some room => return (.chatting msg player room,s)
  | .chatting msg player room => do
    let chatRoomPkt := s.world.chat room (self player) msg
    let s ← s.makeSendBuffer worker chatRoomPkt
    return (.pushing room .broadcast chatRoomPkt (s.recipients room true),s)
  | .called (.cLeaveRoom player roomId) => do
    match ← s.getRoomFromPlayerId (self player).id with
    | none => return (.idle,s)
    | some room => return (.leaving player roomId room,s)
  | .leaving player roomId room => .ok (.exiting player roomId room (s.world.getPlayer (self player).id),s)
  | .exiting player _ room found => do
    let (own,roomEvent,s) ← s.beginLeave worker room found
    return (.pushing room (.leave player) roomEvent ((own,true) :: s.recipients room false),s)
  | .left player =>
    match s.world.getPlayer (self player).id with
    | none => .error (.null .player)
    | some found => .ok (.unseating found,s)
  | .unseating player => .ok (.idle,{s with world := s.world.moved player noRoom})

end Server

-- The server with its workers, and the rooms' locks: whose packet it is that the worker in there
-- has.
structure Workers where
  server : Server
  call : SessionRef → Handling
  lock : RoomRef → Option SessionRef

inductive WorkerEvent where
  | connect (worker : Nat) (session : SessionRef)
  | disconnect (session : SessionRef)
  | destroy (session : SessionRef)
  | receive (session : SessionRef) (pkt : ClientPacket)
  | advance (worker : Nat) (session : SessionRef)
  deriving DecidableEq, Repr

namespace Workers

def start : Workers := ⟨.start,fun _ => .idle,fun _ => none⟩

variable (c : Workers)

-- The lock is had as long as the call is in the room's section.
def becomes (server : Server) (session : SessionRef) (call : Handling) : Workers where
  server := server
  call := Function.update c.call session call
  lock room := if call.holds = some room then some session else if c.lock room = some session then none else c.lock room

-- A session is not closed under a worker, and a worker waits for a lock.
def step : WorkerEvent → Option Workers
  | .connect worker session => (c.server.step (.connect worker session)).map fun server => {c with server := server}
  | .disconnect session =>
    if c.call session = .idle then (c.server.step (.disconnect session)).map fun server => {c with server := server} else none
  | .destroy session =>
    if c.call session = .idle then (c.server.step (.destroy session)).map fun server => {c with server := server} else none
  | .receive session pkt =>
    if c.call session = .idle ∧ c.server.session session = .connected then some (c.becomes c.server session (.called pkt)) else none
  | .advance worker session =>
    if c.call session = .idle ∨ ∃ room ∈ (c.call session).asks, c.lock room ≠ none then none
    else
      match c.server.advance worker session (c.call session) with
      | .ok (call,server) => some (c.becomes server session call)
      | .error _ => none

end Workers
end IocpChatServer.GameServer
