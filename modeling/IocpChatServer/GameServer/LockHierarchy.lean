import IocpChatServer.GameServer.LockUse

namespace IocpChatServer.GameServer.LockUse
open Foundations Locking Program TransitionSystem SendBufferManager
variable {SessionId RoomId : Type} {held : List (Guard (LockName SessionId RoomId))}

-- A lock is taken under locks of lower rank, or under itself.
def rank : LockName SessionId RoomId → Nat
  | .gameSessionManager | .room _ | .service => 0
  | .session _ => 1
  | .sendBufferManager => 2

def Outer (object : LockName SessionId RoomId) : Prop := rank object = 0

theorem rank_session (session : SessionId) :
    rank (.session session : LockName SessionId RoomId) < rank (.sendBufferManager : LockName SessionId RoomId) :=
  Nat.lt_succ_self 1

theorem Outer.session {object : LockName SessionId RoomId} (outer : Outer object) (session : SessionId) :
    rank object < rank (.session session : LockName SessionId RoomId) := by
  rw [outer]
  exact Nat.zero_lt_one

theorem Outer.sendBufferManager {object : LockName SessionId RoomId} (outer : Outer object) :
    rank object < rank (.sendBufferManager : LockName SessionId RoomId) := by
  rw [outer]
  exact Nat.zero_lt_two

def Chunks (held : List (Guard (LockName SessionId RoomId))) : Prop := Admits rank held ⟨.sendBufferManager,.write⟩

-- Where that of any session may be taken too: with nothing held, or under the guard of an
-- object outside the sessions.
structure Open (held : List (Guard (LockName SessionId RoomId))) : Prop where
  chunks : Chunks held
  sessions : ∀ session, Admits rank held ⟨.session session,.write⟩

theorem idle : Open ([] : List (Guard (LockName SessionId RoomId))) := ⟨.idle _,fun _ => .idle _⟩

theorem Outer.opens {object : LockName SessionId RoomId} {mode : Mode} (outer : Outer object) : Open [⟨object,mode⟩] where
  chunks := (Admits.idle _).inside outer.sendBufferManager
  sessions := fun session => (Admits.idle _).inside (outer.session session)

theorem push_ordered (chunks : Chunks held) : (push : Code SessionId RoomId).Ordered rank held :=
  ⟨⟨chunks,trivial⟩,fun _ => ⟨chunks,trivial⟩⟩

theorem dropChunk_ordered (chunks : Chunks held) : (dropChunk : Code SessionId RoomId).Ordered rank held :=
  maybe_ordered.mpr (push_ordered chunks)

theorem dropSendBuffer_ordered (chunks : Chunks held) : (dropSendBuffer : Code SessionId RoomId).Ordered rank held :=
  dropChunk_ordered chunks

theorem pop_ordered (chunks : Chunks held) : (pop : Code SessionId RoomId).Ordered rank held :=
  ⟨chunks,dropChunk_ordered (Admits.again chunks fun _ => rfl)⟩

theorem openBuffer_ordered (chunks : Chunks held) : (openBuffer : Code SessionId RoomId).Ordered rank held := by
  simp [openBuffer,pop_ordered chunks,dropChunk_ordered chunks]

theorem makeSendBuffer_ordered (chunks : Chunks held) : (makeSendBuffer : Code SessionId RoomId).Ordered rank held :=
  openBuffer_ordered chunks

theorem dropSession_ordered (chunks : Chunks held) : (dropSession : Code SessionId RoomId).Ordered rank held :=
  many_ordered.mpr (dropSendBuffer_ordered chunks)

theorem dropService_ordered (chunks : Chunks held) : (dropService : Code SessionId RoomId).Ordered rank held :=
  many_ordered.mpr (dropSession_ordered chunks)

namespace Session

theorem disconnect_ordered (chunks : Chunks held) : (disconnect : Code SessionId RoomId).Ordered rank held := by
  simp [disconnect,registerDisconnect,dropSession_ordered chunks]

theorem handleError_ordered (chunks : Chunks held) : (handleError : Code SessionId RoomId).Ordered rank held :=
  maybe_ordered.mpr (disconnect_ordered chunks)

theorem connect_ordered (chunks : Chunks held) : (connect : Code SessionId RoomId).Ordered rank held := by
  simp [connect,dropSession_ordered chunks,dropService_ordered chunks]

theorem registerRecv_ordered (chunks : Chunks held) : (registerRecv : Code SessionId RoomId).Ordered rank held := by
  simp [registerRecv,dropSession_ordered chunks,handleError_ordered chunks]

theorem registerSend_ordered {session : SessionId} (admits : Admits rank held ⟨.session session,.write⟩) :
    (registerSend session : Code SessionId RoomId).Ordered rank held := by
  have chunks : Chunks held := admits.higher (rank_session session)
  have within : Chunks (⟨.session session,.write⟩ :: held) := admits.inside (rank_session session)
  simp [registerSend,admits,dropSendBuffer_ordered within,dropSendBuffer_ordered chunks,dropSession_ordered chunks,
    handleError_ordered chunks]

theorem send_ordered {session : SessionId} (admits : Admits rank held ⟨.session session,.write⟩) :
    (send session : Code SessionId RoomId).Ordered rank held := by
  have chunks : Chunks held := admits.higher (rank_session session)
  simp [send,admits,registerSend_ordered admits,dropSendBuffer_ordered chunks]

end Session
open Session

theorem toEach_ordered (opens : Open held) (session : SessionId) :
    (seq (send session) dropSession : Code SessionId RoomId).Ordered rank held :=
  ⟨send_ordered (opens.sessions session),dropSession_ordered opens.chunks⟩

theorem outer_ordered {object : LockName SessionId RoomId} {body : Code SessionId RoomId} (outer : Outer object)
    (within : ∀ held, Open held → body.Ordered rank held) : (write object body).Ordered rank [] :=
  ⟨.idle _,within _ outer.opens⟩

namespace Service

theorem broadcast_ordered : (broadcast : Code SessionId RoomId).Ordered rank [] := by
  refine ⟨outer_ordered rfl fun held opens session => ?_,dropSendBuffer_ordered idle.chunks,trivial⟩
  exact send_ordered (opens.sessions session)

theorem createSession_ordered : (createSession : Code SessionId RoomId).Ordered rank [] := by
  simp [createSession,dropService_ordered idle.chunks,dropSession_ordered idle.chunks]

theorem addSession_ordered : (addSession : Code SessionId RoomId).Ordered rank [] :=
  ⟨outer_ordered rfl fun _ _ => trivial,dropSession_ordered idle.chunks,trivial⟩

theorem releaseSession_ordered : (releaseSession : Code SessionId RoomId).Ordered rank [] :=
  ⟨outer_ordered rfl fun _ opens => dropSession_ordered opens.chunks,dropSession_ordered idle.chunks,trivial⟩

end Service

namespace GameSessionManager

theorem add_ordered : (add : Code SessionId RoomId).Ordered rank [] :=
  ⟨outer_ordered rfl fun _ _ => trivial,dropSession_ordered idle.chunks,trivial⟩

theorem remove_ordered : (remove : Code SessionId RoomId).Ordered rank [] :=
  ⟨outer_ordered rfl fun _ opens => dropSession_ordered opens.chunks,dropSession_ordered idle.chunks,trivial⟩

theorem broadcast_ordered : (broadcast : Code SessionId RoomId).Ordered rank [] :=
  ⟨outer_ordered rfl fun _ opens => toEach_ordered opens,dropSendBuffer_ordered idle.chunks,trivial⟩

theorem update_ordered : (write .gameSessionManager skip : Code SessionId RoomId).Ordered rank [] :=
  outer_ordered rfl fun _ _ => trivial

theorem lookup_ordered : (read .gameSessionManager skip : Code SessionId RoomId).Ordered rank [] := ⟨.idle _,trivial⟩

-- GetPlayer and GetRoom take the lock that is held to read once more.
theorem getRoomFromPlayerId_ordered : (getRoomFromPlayerId : Code SessionId RoomId).Ordered rank [] := by
  have once : Admits rank [] (⟨.gameSessionManager,.read⟩ : Guard (LockName SessionId RoomId)) := .idle _
  have again : Admits rank [⟨.gameSessionManager,.read⟩] (⟨.gameSessionManager,.read⟩ : Guard (LockName SessionId RoomId)) :=
    once.again id
  exact ⟨once,⟨again,trivial⟩,maybe_ordered.mpr ⟨again,trivial⟩⟩

end GameSessionManager

namespace Room

theorem toMembers_ordered (opens : Open held) : (toMembers : Code SessionId RoomId).Ordered rank held :=
  toEach_ordered opens

theorem enter_ordered (room : RoomId) : (enter room : Code SessionId RoomId).Ordered rank [] := by
  refine outer_ordered rfl fun held opens => maybe_ordered.mpr ?_
  exact ⟨makeSendBuffer_ordered opens.chunks,toMembers_ordered opens,dropSendBuffer_ordered opens.chunks,trivial⟩

theorem leave_ordered (room : RoomId) : (leave room : Code SessionId RoomId).Ordered rank [] := by
  refine outer_ordered rfl fun held opens => ⟨makeSendBuffer_ordered opens.chunks,?_,toMembers_ordered opens,dropSendBuffer_ordered opens.chunks,trivial⟩
  intro ownerSession
  cases ownerSession with
  | none => exact trivial
  | some session => exact toEach_ordered opens session

theorem broadcast_ordered (room : RoomId) : (broadcast room : Code SessionId RoomId).Ordered rank [] :=
  ⟨outer_ordered rfl fun _ opens => toMembers_ordered opens,dropSendBuffer_ordered idle.chunks,trivial⟩

end Room

theorem assignSendBuffer_ordered : (assignSendBuffer : Code SessionId RoomId).Ordered rank [] :=
  ⟨makeSendBuffer_ordered idle.chunks,dropSendBuffer_ordered idle.chunks⟩

open GameSessionManager

theorem handleCSetNickname_ordered (session : SessionId) :
    (handleCSetNickname session : Code SessionId RoomId).Ordered rank [] := by
  have sends : (send session : Code SessionId RoomId).Ordered rank [] := send_ordered (idle.sessions session)
  refine ⟨maybe_ordered.mpr update_ordered,either_ordered.mpr ⟨?_,?_⟩,dropSendBuffer_ordered idle.chunks,trivial⟩
  · exact ⟨assignSendBuffer_ordered,sends,assignSendBuffer_ordered,sends,trivial⟩
  · exact ⟨dropSession_ordered idle.chunks,lookup_ordered,assignSendBuffer_ordered,sends,trivial⟩

theorem handleCRequestRoomList_ordered (session : SessionId) :
    (handleCRequestRoomList session : Code SessionId RoomId).Ordered rank [] :=
  ⟨lookup_ordered,assignSendBuffer_ordered,send_ordered (idle.sessions session),dropSendBuffer_ordered idle.chunks,trivial⟩

theorem handleCCreateRoom_ordered (session : SessionId) :
    (handleCCreateRoom session : Code SessionId RoomId).Ordered rank [] :=
  ⟨update_ordered,maybe_ordered.mpr lookup_ordered,assignSendBuffer_ordered,send_ordered (idle.sessions session),
    dropSendBuffer_ordered idle.chunks,trivial⟩

theorem handleCJoinRoom_ordered (session : SessionId) : (handleCJoinRoom session : Code SessionId RoomId).Ordered rank [] := by
  refine ⟨lookup_ordered,lookup_ordered,?_,assignSendBuffer_ordered,assignSendBuffer_ordered,
    send_ordered (idle.sessions session),dropSendBuffer_ordered idle.chunks,trivial⟩
  intro room
  cases room with
  | none => exact trivial
  | some room => exact Room.enter_ordered room

theorem handleCChatRoom_ordered : (handleCChatRoom : Code SessionId RoomId).Ordered rank [] := by
  refine ⟨getRoomFromPlayerId_ordered,makeSendBuffer_ordered idle.chunks,?_,dropSendBuffer_ordered idle.chunks,trivial⟩
  intro room
  cases room with
  | none => exact trivial
  | some room => exact Room.broadcast_ordered room

theorem handleCLeaveRoom_ordered : (handleCLeaveRoom : Code SessionId RoomId).Ordered rank [] := by
  refine ⟨getRoomFromPlayerId_ordered,?_,trivial⟩
  intro room
  cases room with
  | none => exact trivial
  | some room => exact ⟨lookup_ordered,Room.leave_ordered room,lookup_ordered,trivial⟩

theorem handlePacket_ordered (session : SessionId) : (handlePacket session : Code SessionId RoomId).Ordered rank [] := by
  intro pkt
  cases pkt with
  | none => exact trivial
  | some pkt =>
    cases pkt with
    | cSetNickname => exact handleCSetNickname_ordered session
    | cRequestRoomList => exact handleCRequestRoomList_ordered session
    | cCreateRoom => exact handleCCreateRoom_ordered session
    | cJoinRoom => exact handleCJoinRoom_ordered session
    | cChatRoom => exact handleCChatRoom_ordered
    | cLeaveRoom => exact handleCLeaveRoom_ordered

namespace Session

theorem onRecv_ordered (session : SessionId) : (onRecv session : Code SessionId RoomId).Ordered rank [] :=
  many_ordered.mpr ⟨handlePacket_ordered session,dropSession_ordered idle.chunks⟩

theorem onConnected_ordered (session : SessionId) : (GameSession.onConnected session : Code SessionId RoomId).Ordered rank [] :=
  ⟨add_ordered,makeSendBuffer_ordered idle.chunks,send_ordered (idle.sessions session),dropSendBuffer_ordered idle.chunks,trivial⟩

theorem processConnect_ordered (session : SessionId) : (processConnect session : Code SessionId RoomId).Ordered rank [] := by
  refine ⟨dropSession_ordered idle.chunks,either_ordered.mpr ⟨disconnect_ordered idle.chunks,?_⟩,trivial⟩
  exact ⟨Service.addSession_ordered,dropService_ordered idle.chunks,onConnected_ordered session,
    registerRecv_ordered idle.chunks,trivial⟩

theorem processDisconnect_ordered : (processDisconnect : Code SessionId RoomId).Ordered rank [] :=
  ⟨dropSession_ordered idle.chunks,remove_ordered,Service.releaseSession_ordered,dropService_ordered idle.chunks,trivial⟩

theorem processRecv_ordered (session : SessionId) : (processRecv session : Code SessionId RoomId).Ordered rank [] := by
  have disconnects : (disconnect : Code SessionId RoomId).Ordered rank [] := disconnect_ordered idle.chunks
  refine ⟨dropSession_ordered idle.chunks,either_ordered.mpr ⟨disconnects,onRecv_ordered session,?_,trivial⟩,trivial⟩
  exact either_ordered.mpr ⟨disconnects,registerRecv_ordered idle.chunks⟩

theorem processSend_ordered (session : SessionId) : (processSend session : Code SessionId RoomId).Ordered rank [] := by
  have own : Admits rank [] ⟨(.session session : LockName SessionId RoomId),.write⟩ := idle.sessions session
  refine ⟨dropSession_ordered idle.chunks,many_ordered.mpr (dropSendBuffer_ordered idle.chunks),
    either_ordered.mpr ⟨disconnect_ordered idle.chunks,trivial,own,?_⟩,trivial⟩
  exact maybe_ordered.mpr (registerSend_ordered (own.again fun _ => rfl))

theorem dispatch_ordered (session : SessionId) : (dispatch session : Code SessionId RoomId).Ordered rank [] := by
  refine ⟨fun eventType => ?_,dropSession_ordered idle.chunks⟩
  cases eventType with
  | none => exact trivial
  | some eventType =>
    cases eventType with
    | connect => exact processConnect_ordered session
    | disconnect => exact processDisconnect_ordered
    | recv => exact processRecv_ordered session
    | send => exact processSend_ordered session

end Session

namespace Listener

theorem registerAccept_ordered : (registerAccept : Code SessionId RoomId).Ordered rank [] := by
  simp [registerAccept,Service.createSession_ordered,dropSession_ordered idle.chunks]

theorem processAccept_ordered (session : SessionId) : (processAccept session : Code SessionId RoomId).Ordered rank [] := by
  simp [processAccept,registerAccept_ordered,processConnect_ordered session,dropSession_ordered idle.chunks]

end Listener

theorem Operation.ordered (operation : Operation SessionId RoomId) : operation.code.Ordered rank [] := by
  cases operation with
  | openBuffer => exact openBuffer_ordered idle.chunks
  | dropSendBuffer => exact dropSendBuffer_ordered idle.chunks
  | send session => exact send_ordered (idle.sessions session)
  | connect => exact connect_ordered idle.chunks
  | disconnect => exact disconnect_ordered idle.chunks
  | dispatch session => exact dispatch_ordered session
  | dropSession => exact dropSession_ordered idle.chunks
  | serviceStart => exact ⟨many_ordered.mpr Listener.registerAccept_ordered,dropService_ordered idle.chunks⟩
  | serviceBroadcast => exact Service.broadcast_ordered
  | createSession => exact Service.createSession_ordered
  | addSession => exact Service.addSession_ordered
  | releaseSession => exact Service.releaseSession_ordered
  | processAccept session => exact Listener.processAccept_ordered session
  | add => exact add_ordered
  | remove => exact remove_ordered
  | broadcast => exact GameSessionManager.broadcast_ordered
  | addPlayer => exact maybe_ordered.mpr update_ordered
  | removePlayer => exact update_ordered
  | getPlayer => exact lookup_ordered
  | addRoom => exact update_ordered
  | removeRoom => exact maybe_ordered.mpr update_ordered
  | getRoom => exact lookup_ordered
  | getRoomFromPlayerId => exact getRoomFromPlayerId_ordered
  | getAllRooms => exact lookup_ordered
  | enter room => exact Room.enter_ordered room
  | leave room => exact Room.leave_ordered room
  | roomBroadcast room => exact Room.broadcast_ordered room

theorem operations_ordered : ∀ program : Code SessionId RoomId, Operations program → program.Ordered rank [] := by
  rintro program ⟨operation,rfl⟩
  exact operation.ordered

variable {Thread : Type} {s : Thread → Local (LockName SessionId RoomId)} {events : List Thread}

theorem lock_hierarchy (path : Runs (Step Operations) start events s) :
    (∀ t, (s t).held.Pairwise fun later earlier =>
      later.object = earlier.object ∨ rank earlier.object < rank later.object) ∧
    ∀ t, ¬ Relation.TransGen (Waiting s) t t := by
  have valid : Inv rank s := runs_inv operations_ordered path
  exact ⟨fun t => (valid.disciplined t).layered,valid.acyclic⟩

def pair (first second : Local (LockName Nat Nat)) : Bool → Local (LockName Nat Nat)
  | false => first
  | true => second

theorem first_step {first second after : Local (LockName Nat Nat)}
    (move : Move Operations (fun g => ∀ u, ¬ Blocks (pair first second) false g u) first after) :
    Step Operations (pair first second) false (pair after second) := by
  refine ⟨move,fun u other => ?_⟩
  cases u with
  | false => exact absurd rfl other
  | true => rfl

theorem second_step {first second after : Local (LockName Nat Nat)}
    (move : Move Operations (fun g => ∀ u, ¬ Blocks (pair first second) true g u) second after) :
    Step Operations (pair first second) true (pair first after) := by
  refine ⟨move,fun u other => ?_⟩
  cases u with
  | false => rfl
  | true => exact absurd rfl other

theorem start_pair : (start : Bool → Local (LockName Nat Nat)) = pair ⟨[],[]⟩ ⟨[],[]⟩ := by
  funext t
  cases t <;> rfl

-- One thread sends to a room and has come to a session of it, to which another wants to send.
theorem lock_hierarchy_waiting : ∃ (s : Bool → Local (LockName Nat Nat)) (events : List Bool),
    Runs (Step Operations) start events s ∧ (s false).held = [⟨.session 7,.write⟩,⟨.room 0,.write⟩] ∧
    Waits s true (.session 7) false ∧ ∀ t, ¬ Relation.TransGen (Waiting s) t t := by
  have path : Runs (Step Operations) (pair ⟨[],[]⟩ ⟨[],[]⟩) _ _ :=
    .cons (first_step (.start ⟨.roomBroadcast 0,rfl⟩)) <| .cons (first_step .seq) <|
    .cons (first_step (.lock (by intro u; cases u <;> simp [Blocks,pair]))) <|
    .cons (first_step (.again 7)) <| .cons (first_step .seq) <| .cons (first_step .seq) <|
    .cons (first_step (.any true)) <| .cons (first_step .seq) <|
    .cons (first_step (.lock (by intro u; cases u <;> simp [Blocks,pair]))) <|
    .cons (second_step (.start ⟨.send 7,rfl⟩)) <| .cons (second_step .seq) <|
    .cons (second_step (.any true)) <| .single (second_step .seq)
  rw [← start_pair] at path
  refine ⟨_,_,path,rfl,⟨.write,_,_,rfl,?_⟩,(lock_hierarchy path).2⟩
  exact ⟨by simp [pair],_,List.mem_cons_self,rfl,.inl rfl⟩

theorem never_deadlocked [Finite Thread] (path : Runs (Step Operations) start events s) {t : Thread} (busy : (s t).todo ≠ []) :
    ∃ u next, (s u).todo ≠ [] ∧ Step Operations s u next :=
  (runs_inv operations_ordered path).unstuck busy

end IocpChatServer.GameServer.LockUse
