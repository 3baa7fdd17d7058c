import IocpChatServer.Foundations.Locking
import IocpChatServer.GameServer.Protocol

namespace IocpChatServer.GameServer.LockUse
open Foundations Locking Program
variable {SessionId RoomId : Type}

inductive LockName (SessionId RoomId : Type) where
  | gameSessionManager
  | room (room : RoomId)
  | service
  | session (session : SessionId)
  | sendBufferManager
  deriving DecidableEq, Repr

-- The functions by the locks they take. What a condition decides is left open, an
-- ASSERT_CRASH that fails ends the process, and a reference that goes may be the last
-- one wherever it goes: its destructor runs there, under the guards in scope. A temporary or
-- a parameter goes when its call has returned, a local in the reverse order of the guards.
-- A RoomRef or a PlayerRef takes no lock with it: players know their session weakly.
abbrev Code (SessionId RoomId : Type) := Program (LockName SessionId RoomId)

namespace SendBufferManager

-- The parameter of Push goes after the guard, and when another thread has let go of the chunk
-- meanwhile, its deleter is PushGlobal again.
def push : Code SessionId RoomId := seq (write .sendBufferManager skip) (many (write .sendBufferManager skip))
def pushGlobal : Code SessionId RoomId := push

def dropChunk : Code SessionId RoomId := maybe pushGlobal

def pop : Code SessionId RoomId := write .sendBufferManager dropChunk

-- Open, where LSendBufferChunk is null and where its chunk is too full.
def openBuffer : Code SessionId RoomId := inOrder [
  maybe (seq pop dropChunk),
  maybe (seq pop dropChunk),
  dropChunk]

def dropSendBuffer : Code SessionId RoomId := dropChunk

def makeSendBuffer : Code SessionId RoomId := openBuffer

end SendBufferManager
open SendBufferManager

-- A SessionRef, with what is in _sendQueue and in _sendEvent.
def dropSession : Code SessionId RoomId := many dropSendBuffer

-- A ServerServiceRef, with _sessions and the accept events of its _listener.
def dropService : Code SessionId RoomId := many dropSession

namespace Session

def registerDisconnect : Code SessionId RoomId := inOrder [dropSession,maybe dropSession]
def disconnect : Code SessionId RoomId := maybe registerDisconnect
def handleError : Code SessionId RoomId := maybe disconnect

-- RegisterConnect. GetService makes a reference each time.
def connect : Code SessionId RoomId := maybe (inOrder [
  dropService,
  maybe (inOrder [dropSession,dropService,maybe dropSession])])

def registerRecv : Code SessionId RoomId := maybe (inOrder [
  dropSession,
  maybe (inOrder [handleError,dropSession])])

-- The loop pops a buffer and lets its own reference go under the guard. The last part is
-- WSASend that fails at once.
def registerSend (session : SessionId) : Code SessionId RoomId := maybe (inOrder [
  dropSession,
  write (.session session) (many (seq dropSendBuffer dropSendBuffer)),
  many dropSendBuffer,
  maybe (inOrder [handleError,dropSession,many dropSendBuffer])])

def send (session : SessionId) : Code SessionId RoomId := inOrder [
  maybe (inOrder [write (.session session) skip,maybe (registerSend session)]),
  dropSendBuffer]

end Session
open Session

namespace Service

def broadcast : Code SessionId RoomId := inOrder [
  write .service (each send),
  dropSendBuffer]

-- What SetService and Register get, and the session where Register fails.
def createSession : Code SessionId RoomId := inOrder [dropService,dropSession,maybe dropSession]

def addSession : Code SessionId RoomId := inOrder [
  write .service skip,
  dropSession]

def releaseSession : Code SessionId RoomId := inOrder [
  write .service dropSession,
  dropSession]

end Service

namespace GameSessionManager

def add : Code SessionId RoomId := inOrder [
  write .gameSessionManager skip,
  dropSession]

def remove : Code SessionId RoomId := inOrder [
  write .gameSessionManager dropSession,
  dropSession]

def broadcast : Code SessionId RoomId := inOrder [
  write .gameSessionManager (each fun session => seq (send session) dropSession),
  dropSendBuffer]

def addPlayer : Code SessionId RoomId := maybe (write .gameSessionManager skip)
def removePlayer : Code SessionId RoomId := write .gameSessionManager skip
def getPlayer : Code SessionId RoomId := read .gameSessionManager skip
def addRoom : Code SessionId RoomId := write .gameSessionManager skip
def removeRoom : Code SessionId RoomId := maybe (write .gameSessionManager skip)
def getRoom : Code SessionId RoomId := read .gameSessionManager skip
def getRoomFromPlayerId : Code SessionId RoomId := read .gameSessionManager (seq getPlayer (maybe getRoom))
def getAllRooms : Code SessionId RoomId := read .gameSessionManager skip

end GameSessionManager

namespace Room

def toMembers : Code SessionId RoomId := each fun session => seq (send session) dropSession

def enter (room : RoomId) : Code SessionId RoomId := write (.room room) (maybe (inOrder [
  makeSendBuffer,
  toMembers,
  dropSendBuffer]))

def leave (room : RoomId) : Code SessionId RoomId := write (.room room) (inOrder [
  makeSendBuffer,
  any fun ownerSession : Option SessionId =>
    match ownerSession with
    | none => skip
    | some session => seq (send session) dropSession,
  toMembers,
  dropSendBuffer])

def broadcast (room : RoomId) : Code SessionId RoomId := inOrder [
  write (.room room) toMembers,
  dropSendBuffer]

end Room

-- `sendBuffer = MakeSendBuffer(..)` lets go of what was in the variable.
def assignSendBuffer : Code SessionId RoomId := seq makeSendBuffer dropSendBuffer

def handleCSetNickname (session : SessionId) : Code SessionId RoomId := inOrder [
  GameSessionManager.addPlayer,
  either
    (inOrder [assignSendBuffer,send session,assignSendBuffer,send session])
    (inOrder [dropSession,GameSessionManager.getPlayer,assignSendBuffer,send session]),
  dropSendBuffer]

def handleCRequestRoomList (session : SessionId) : Code SessionId RoomId := inOrder [
  GameSessionManager.getAllRooms,
  assignSendBuffer,
  send session,
  dropSendBuffer]

def handleCCreateRoom (session : SessionId) : Code SessionId RoomId := inOrder [
  GameSessionManager.addRoom,
  maybe GameSessionManager.getAllRooms,
  assignSendBuffer,
  send session,
  dropSendBuffer]

-- The reply is made a second time, for nothing.
def handleCJoinRoom (session : SessionId) : Code SessionId RoomId := inOrder [
  GameSessionManager.getRoom,
  GameSessionManager.getPlayer,
  any fun room : Option RoomId =>
    match room with
    | none => skip
    | some room => Room.enter room,
  assignSendBuffer,
  seq makeSendBuffer dropSendBuffer,
  send session,
  dropSendBuffer]

def handleCChatRoom : Code SessionId RoomId := inOrder [
  GameSessionManager.getRoomFromPlayerId,
  makeSendBuffer,
  any fun room : Option RoomId =>
    match room with
    | none => skip
    | some room => Room.broadcast room,
  dropSendBuffer]

def handleCLeaveRoom : Code SessionId RoomId := inOrder [
  GameSessionManager.getRoomFromPlayerId,
  any fun room : Option RoomId =>
    match room with
    | none => skip
    | some room => inOrder [GameSessionManager.getPlayer,Room.leave room,GameSessionManager.getPlayer]]

-- No packet is one that does not parse or has no handler.
def handlePacket (session : SessionId) : Code SessionId RoomId :=
  any fun pkt : Option Protocol.ClientPacket =>
    match pkt with
    | none => skip
    | some (.cSetNickname ..) => handleCSetNickname session
    | some (.cRequestRoomList ..) => handleCRequestRoomList session
    | some (.cCreateRoom ..) => handleCCreateRoom session
    | some (.cJoinRoom ..) => handleCJoinRoom session
    | some (.cChatRoom ..) => handleCChatRoom
    | some (.cLeaveRoom ..) => handleCLeaveRoom

namespace GameSession

def onConnected (session : SessionId) : Code SessionId RoomId := inOrder [
  GameSessionManager.add,
  makeSendBuffer,
  send session,
  dropSendBuffer]

def onDisconnected : Code SessionId RoomId := GameSessionManager.remove

def onRecvPacket (session : SessionId) : Code SessionId RoomId := seq (handlePacket session) dropSession

def onSend : Code SessionId RoomId := skip

end GameSession
open GameSession

namespace Session

def onRecv (session : SessionId) : Code SessionId RoomId := many (onRecvPacket session)

def processConnect (session : SessionId) : Code SessionId RoomId := inOrder [
  dropSession,
  either disconnect (inOrder [Service.addSession,dropService,onConnected session,registerRecv])]

def processDisconnect : Code SessionId RoomId := inOrder [
  dropSession,
  onDisconnected,
  Service.releaseSession,
  dropService]

def processRecv (session : SessionId) : Code SessionId RoomId := inOrder [
  dropSession,
  either disconnect (inOrder [onRecv session,either disconnect registerRecv])]

-- RegisterSend runs under the guard, which it takes once more.
def processSend (session : SessionId) : Code SessionId RoomId := inOrder [
  dropSession,
  many dropSendBuffer,
  either disconnect (seq onSend (write (.session session) (maybe (registerSend session))))]

inductive EventType where
  | connect | disconnect | recv | send

-- IocpCore::Dispatch holds the owner of the event meanwhile.
def dispatch (session : SessionId) : Code SessionId RoomId := seq
  (any fun eventType : Option EventType =>
    match eventType with
    | some .connect => processConnect session
    | some .disconnect => processDisconnect
    | some .recv => processRecv session
    | some .send => processSend session
    | none => skip)
  dropSession

end Session

namespace Listener

-- AcceptEx that fails at once is tried again with another session.
def registerAccept : Code SessionId RoomId := seq (many (seq Service.createSession dropSession)) (many dropSession)

def processAccept (session : SessionId) : Code SessionId RoomId := inOrder [
  either registerAccept (seq (processConnect session) registerAccept),
  dropSession]

end Listener

-- What a thread may be asked for. Service.Start is the listener's StartAccept.
inductive Operation (SessionId RoomId : Type) where
  | openBuffer | dropSendBuffer
  | send (session : SessionId) | connect | disconnect | dispatch (session : SessionId) | dropSession
  | serviceStart | serviceBroadcast | createSession | addSession | releaseSession | processAccept (session : SessionId)
  | add | remove | broadcast | addPlayer | removePlayer | getPlayer
  | addRoom | removeRoom | getRoom | getRoomFromPlayerId | getAllRooms
  | enter (room : RoomId) | leave (room : RoomId) | roomBroadcast (room : RoomId)
  deriving DecidableEq, Repr

def Operation.code : Operation SessionId RoomId → Code SessionId RoomId
  | .openBuffer => SendBufferManager.openBuffer
  | .dropSendBuffer => SendBufferManager.dropSendBuffer
  | .send session => Session.send session
  | .connect => Session.connect
  | .disconnect => Session.disconnect
  | .dispatch session => Session.dispatch session
  | .dropSession => LockUse.dropSession
  | .serviceStart => seq (many Listener.registerAccept) dropService
  | .serviceBroadcast => Service.broadcast
  | .createSession => Service.createSession
  | .addSession => Service.addSession
  | .releaseSession => Service.releaseSession
  | .processAccept session => Listener.processAccept session
  | .add => GameSessionManager.add
  | .remove => GameSessionManager.remove
  | .broadcast => GameSessionManager.broadcast
  | .addPlayer => GameSessionManager.addPlayer
  | .removePlayer => GameSessionManager.removePlayer
  | .getPlayer => GameSessionManager.getPlayer
  | .addRoom => GameSessionManager.addRoom
  | .removeRoom => GameSessionManager.removeRoom
  | .getRoom => GameSessionManager.getRoom
  | .getRoomFromPlayerId => GameSessionManager.getRoomFromPlayerId
  | .getAllRooms => GameSessionManager.getAllRooms
  | .enter room => Room.enter room
  | .leave room => Room.leave room
  | .roomBroadcast room => Room.broadcast room

def Operations (program : Code SessionId RoomId) : Prop := ∃ operation : Operation SessionId RoomId, program = operation.code

end IocpChatServer.GameServer.LockUse
