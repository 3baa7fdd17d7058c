import IocpChatServer.Foundations.TransitionSystem
import IocpChatServer.GameServer.World

namespace IocpChatServer.GameServer
open ServerCore Protocol

-- A session object is destroyed some time after the disconnect, with its last reference.
inductive SessionState where
  | absent | connected | disconnected | destroyed
  deriving DecidableEq, Repr

-- `threads` are the workers' send chunks; `sent` are the buffers pushed to sessions, each
-- known by the message it was built from.
structure Server where
  world : World
  session : SessionRef → SessionState
  threads : Nat → IdleThread
  sent : List (SessionRef × ServerPacket)

def World.roomEvent (w : World) (type : RoomEventType) (room : RoomRef) (player : PlayerRef) : ServerPacket :=
  .sRoomEvent type (w.rooms room).getSummary (w.players player).playerId (w.players player).name

namespace Server

def start : Server := ⟨{},fun _ => .absent,fun _ => .start,[]⟩

variable (s : Server)

def makeSendBuffer (worker : Nat) (pkt : ServerPacket) : Except Fault Server := do
  let (_,thread) ← (s.threads worker).makeSendBuffer pkt.serialize pkt.pktId
  return {s with threads := Function.update s.threads worker thread}

-- Session::Send returns at once when not connected.
def send (session : SessionRef) (pkt : ServerPacket) : Server :=
  if s.session session = .connected then {s with sent := s.sent ++ [(session,pkt)]} else s

def lock (player : PlayerRef) : Option SessionRef :=
  (s.world.players player).ownerSession.filter fun session => s.session session ≠ .destroyed

-- `if (auto session = player->ownerSession.lock())`.
def sendOwner (player : PlayerRef) (pkt : ServerPacket) : Server :=
  match s.lock player with
  | some session => s.send session pkt
  | none => s

def sendAll (players : List PlayerRef) (pkt : ServerPacket) : Except Fault Server :=
  players.foldlM (fun s player =>
    match s.lock player with
    | none => .error (.null .session)
    | some session => .ok (s.send session pkt)) s

def enter (worker : Nat) (room : RoomRef) (player : Option PlayerRef) : Except Fault (Bool × Server) := do
  let r := s.world.rooms room
  if r.isFull then return (false,s)
  match player with
  | none => throw (.null .player)
  | some player =>
    let players := r.players.insert (s.world.players player).playerId player
    let s := {s with world := s.world.setRoom room {r with players := players}}
    let roomEvent := s.world.roomEvent .playerJoined room player
    let s ← s.makeSendBuffer worker roomEvent
    let s ← s.sendAll (s.world.rooms room).members roomEvent
    return (true,s)

def leave (worker : Nat) (room : RoomRef) (player : Option PlayerRef) : Except Fault Server := do
  match player with
  | none => throw (.null .player)
  | some player =>
    let r := s.world.rooms room
    let players := r.players.erase (s.world.players player).playerId
    let s := {s with world := s.world.setRoom room {r with players := players}}
    let roomEvent := s.world.roomEvent .playerLeft room player
    let s ← s.makeSendBuffer worker roomEvent
    let s := s.sendOwner player roomEvent
    s.sendAll (s.world.rooms room).members roomEvent

def broadcast (room : RoomRef) (pkt : ServerPacket) : Server :=
  (s.world.rooms room).members.foldl (fun s player => s.sendOwner player pkt) s

def getRoomFromPlayerId (id : UInt64) : Except Fault (Option RoomRef) :=
  match s.world.getPlayer id with
  | none => .error (.null .player)
  | some player =>
    if (s.world.players player).roomId = noRoom then .ok none
    else .ok (s.world.getRoom (s.world.players player).roomId)

def handleSetNickname (worker : Nat) (session : SessionRef) (name : Bytes) : Except Fault (Bool × Server) := do
  let (player,world) := s.world.makePlayer {playerId := 1,name := name}
  let (added,world) := world.addPlayer player
  let s := {s with world := world}
  if added = false then
    let nicknameResultPkt := .sNicknameResult .duplicateNick none
    let s ← s.makeSendBuffer worker nicknameResultPkt
    let s := s.send session nicknameResultPkt
    let s ← s.makeSendBuffer worker .nicknamePrompt
    return (true,s.send session .nicknamePrompt)
  else
    let s := {s with world := s.world.setPlayer player {s.world.players player with ownerSession := some session}}
    match s.world.getPlayerByName name with
    | none => throw (.null .player)
    | some found =>
      let nicknameResultPkt := .sNicknameResult .ok (some ⟨(s.world.players found).playerId,name⟩)
      let s ← s.makeSendBuffer worker nicknameResultPkt
      return (true,s.send session nicknameResultPkt)

def handleRequestRoomList (worker : Nat) (session : SessionRef) : Except Fault (Bool × Server) := do
  let createRoomPkt := .sRoomList s.world.summaries
  let s ← s.makeSendBuffer worker createRoomPkt
  return (true,s.send session createRoomPkt)

def handleCreateRoom (worker : Nat) (session : SessionRef) (name : Bytes) : Except Fault (Bool × Server) := do
  let (room,world) := s.world.makeRoom (Room.setName {} name)
  let (added,world) := world.addRoom room
  let s := {s with world := world}
  let createRoomPkt := if added = false then .sCreateRoom .duplicateNick [] else .sCreateRoom .ok s.world.summaries
  let s ← s.makeSendBuffer worker createRoomPkt
  return (true,s.send session createRoomPkt)

def handleJoinRoom (worker : Nat) (session : SessionRef) (roomId id : UInt64) : Except Fault (Bool × Server) := do
  let room := s.world.getRoom roomId
  let player := s.world.getPlayer id
  let (enterRoomPkt,s) ← match room with
    | none => do
      let s ← s.makeSendBuffer worker (.sEnterRoom .roomNotFound)
      pure (ServerPacket.sEnterRoom .roomNotFound,s)
    | some room => do
      let (entered,s) ← s.enter worker room player
      let enterRoomPkt := ServerPacket.sEnterRoom (if entered = false then .roomFull else .ok)
      let s ← s.makeSendBuffer worker enterRoomPkt
      pure (enterRoomPkt,s)
  let s ← s.makeSendBuffer worker enterRoomPkt
  let s := s.send session enterRoomPkt
  match room,player with
  | none,_ => throw (.null .room)
  | some _,none => throw (.null .player)
  | some room,some player =>
    let world := s.world.setPlayer player {s.world.players player with roomId := (s.world.rooms room).id}
    return (true,{s with world := world})

def handleChatRoom (worker : Nat) (msg : Bytes) (self : Protocol.Player) : Except Fault (Bool × Server) := do
  let room ← s.getRoomFromPlayerId self.id
  match room with
  | none => throw (.null .room)
  | some room =>
    let chatRoomPkt := .sChatRoom ⟨(s.world.rooms room).id,self.id,self.name,msg,0⟩
    let s ← s.makeSendBuffer worker chatRoomPkt
    return (true,s.broadcast room chatRoomPkt)

def handleLeaveRoom (worker : Nat) (id : UInt64) : Except Fault (Bool × Server) := do
  let room ← s.getRoomFromPlayerId id
  match room with
  | none => return (false,s)
  | some room =>
    let s ← s.leave worker room (s.world.getPlayer id)
    match s.world.getPlayer id with
    | none => throw (.null .player)
    | some player =>
      return (true,{s with world := s.world.setPlayer player {s.world.players player with roomId := noRoom}})

def handlePacket (worker : Nat) (session : SessionRef) : ClientPacket → Except Fault (Bool × Server)
  | .cSetNickname nickname => s.handleSetNickname worker session nickname
  | .cRequestRoomList _ => s.handleRequestRoomList worker session
  | .cCreateRoom name _ => s.handleCreateRoom worker session name
  | .cJoinRoom roomId player => s.handleJoinRoom worker session roomId (self player).id
  | .cChatRoom msg player => s.handleChatRoom worker msg (self player)
  | .cLeaveRoom player _ => s.handleLeaveRoom worker (self player).id

def onConnected (worker : Nat) (session : SessionRef) : Except Fault Server := do
  let s := {s with world := s.world.addSession session}
  let s ← s.makeSendBuffer worker .nicknamePrompt
  return s.send session .nicknamePrompt

def onDisconnected (session : SessionRef) : Server := {s with world := s.world.removeSession session}

end Server

inductive Event where
  | connect (worker : Nat) (session : SessionRef)
  | disconnect (session : SessionRef)
  | destroy (session : SessionRef)
  | packet (worker : Nat) (session : SessionRef) (pkt : ClientPacket)
  deriving DecidableEq, Repr

-- One handler after the other. A handler that faults has no next state.
def Server.step (s : Server) : Event → Option Server
  | .connect worker session =>
    if s.session session = .absent then
      ({s with session := Function.update s.session session .connected}.onConnected worker session).toOption
    else none
  | .disconnect session =>
    if s.session session = .connected then
      some {s.onDisconnected session with session := Function.update s.session session .disconnected}
    else none
  | .destroy session =>
    if s.session session = .disconnected then
      some {s with session := Function.update s.session session .destroyed}
    else none
  | .packet worker session pkt =>
    if s.session session = .connected then ((s.handlePacket worker session pkt).map (·.2)).toOption else none

end IocpChatServer.GameServer
