import IocpChatServer.GameServer.CommitPoints

namespace IocpChatServer.GameServer
open Std ServerCore Protocol Foundations Table TransitionSystem

namespace Server
variable {s next : Server} {worker : Nat} {pkt : ServerPacket} {room : RoomRef} {found : Option PlayerRef} {entered : Bool}

end Server

namespace Workers
variable {c next : Workers} {s server last : Server} {session : SessionRef} {worker : Nat} {call before other : Handling}

section Pushing
variable {w : World} {room : RoomRef} {loop : RoomLoop} {sendBuffer : ServerPacket} {entry : PlayerRef × Bool}
  {recipients : List (PlayerRef × Bool)}

end Pushing

-- A worker's step is one of the whole handler, or none.
def Follows (c : Workers) (s : Server) (worker : Nat) (session : SessionRef) (call : Handling) (server : Server) : Prop :=
  Linearized (c.becomes server session call) s ∧ call.pending = (c.call session).pending ∨
  ∃ pkt next, (c.call session).pending = some pkt ∧ call.pending = none ∧ s.step (.packet worker session pkt) = some next ∧
    Linearized (c.becomes server session call) next

end Workers

theorem Linearized.sessions {c : Workers} {s server next : Server} {here there : SessionRef → Bool} (linearized : Linearized c s)
    (alike : Alike next server) (world : server.world = {c.server.world with manager := {c.server.world.manager with sessions := here}})
    (worldThere : next.world = {s.world with manager := {s.world.manager with sessions := there}})
    (sent : roomNews server.sent = roomNews c.server.sent) (sentThere : roomNews next.sent = roomNews s.sent)
    (comes : ∀ session, server.session session = .connected → c.server.session session = .connected ∨ c.server.session session = .absent)
    (goes : ∀ session, server.session session = .absent → c.server.session session = .absent)
    (busy : ∀ session, c.call session ≠ .idle → server.session session = .connected) : Linearized {c with server := server} next := by
  have keeps : Undisturbed c.server.world server.world fun _ => True := by
    rw [world]
    exact ⟨fun _ _ _ owns => owns,fun _ _ known => known,fun _ _ listed => ⟨listed,rfl⟩,fun _ _ _ _ => rfl⟩
  have kept (session : SessionRef) : (c.call session).writes server.world session = (c.call session).writes c.server.world session :=
    (linearized.sound session).writes_kept keeps (fun _ _ _ => trivial) fun _ _ _ => trivial
  refine ⟨alike,fun p none => ?_,fun session p player writes => ?_,fun session => ?_,?_,?_,busy⟩
  · rw [worldThere,world]
    exact linearized.written p fun session player writes => none session player ((kept session).trans writes)
  · rw [worldThere]
    exact linearized.unwritten session p player ((kept session).symm.trans writes)
  · exact (linearized.sound session).keeps keeps (fun _ _ _ => trivial) fun _ _ _ => trivial
  · simp only [world]
    exact linearized.members
  · exact linearized.told.sessions (congrArg roomNews sentThere) sent (by rw [world]; rfl) (by rw [world]) comes goes

namespace Server
variable {s next : Server} {event : Event} {events : List Event}

theorem connects (worker : Nat) {session : SessionRef} (absent : s.session session = .absent) :
    ∃ next, s.step (.connect worker session) = some next := by
  obtain ⟨threads,made⟩ := @makeSendBuffer_fits {s with
    world := s.world.addSession session
    session := Function.update s.session session .connected} worker _ ServerPacket.nicknamePrompt_fits
  exact ⟨_,by simp only [step,absent,if_true,onConnected,made]; rfl⟩

def handled (session : SessionRef) (events : List Event) : List ClientPacket := events.filterMap fun
  | .packet _ sender pkt => if sender = session then some pkt else none
  | .connect _ _ | .disconnect _ | .destroy _ => none

end Server

namespace Workers
variable {c next : Workers} {s : Server} {event : WorkerEvent} {events : List WorkerEvent}

def received (session : SessionRef) (events : List WorkerEvent) : List ClientPacket := events.filterMap fun
  | .receive sender pkt => if sender = session then some pkt else none
  | .connect _ _ | .disconnect _ | .destroy _ | .advance _ _ => none

-- What a packet acts for is its session's, what a handler answers fits a chunk, and a loop that
-- does not look for itself begins with all sessions it is to reach still there.
def Proper (c : Workers) : WorkerEvent → Prop
  | .receive session pkt => c.server.world.Acts session pkt
  | .advance _ session => (∀ pkt ∈ (c.call session).begins, c.server.world.Answers pkt) ∧
    ∀ p ∈ (c.call session).meets c.server.world, c.server.lock p ≠ none
  | .connect _ _ | .disconnect _ | .destroy _ => True

instance (w : World) (session : SessionRef) (id : UInt64) : Decidable (∃ p, w.Owns session id p) :=
  inferInstanceAs (Decidable (∃ p ∈ w.getPlayer id, (w.players p).ownerSession = some session))

instance (w : World) (session : SessionRef) : (pkt : ClientPacket) → Decidable (w.Acts session pkt)
  | .cJoinRoom _ player | .cChatRoom _ player | .cLeaveRoom player _ =>
    inferInstanceAs (Decidable (∃ p, w.Owns session (self player).id p))
  | .cSetNickname _ | .cRequestRoomList _ | .cCreateRoom _ _ => .isTrue trivial

instance (pkt : ServerPacket) : Decidable pkt.Fits := inferInstanceAs (Decidable (_ ≤ _))

instance (w : World) : (pkt : ClientPacket) → Decidable (w.Answers pkt)
  | .cSetNickname name => inferInstanceAs (Decidable (name ∈ w.manager.playerNameToId ∨ (w.nicknameReply name).Fits))
  | .cRequestRoomList _ => inferInstanceAs (Decidable (ServerPacket.sRoomList w.summaries).Fits)
  | .cCreateRoom name _ => inferInstanceAs (Decidable (name ∈ w.manager.roomNameToId ∨ (w.foundedReply name).Fits))
  | .cJoinRoom _ _ | .cChatRoom _ _ | .cLeaveRoom _ _ => .isTrue trivial

instance (c : Workers) : (event : WorkerEvent) → Decidable (c.Proper event)
  | .receive session pkt => inferInstanceAs (Decidable (c.server.world.Acts session pkt))
  | .advance _ session => inferInstanceAs (Decidable ((∀ pkt ∈ (c.call session).begins, c.server.world.Answers pkt) ∧
    ∀ p ∈ (c.call session).meets c.server.world, c.server.lock p ≠ none))
  | .connect _ _ | .disconnect _ | .destroy _ => .isTrue trivial

def Accounts (c : Workers) (sequential : List Event) (events : List WorkerEvent) : Prop :=
  ∀ session, Server.handled session sequential ++ (c.call session).pending.toList = received session events

-- Where workers and whole handlers agree: a session has got what it is sent there of each room's
-- news, in the same order, but for what a worker in the room has still to push.
structure Agrees (c : Workers) (s : Server) : Prop extends Alike s c.server where
  ordered : ∀ roomId session, newsTo c.server.sent roomId session <+: newsTo s.sent roomId session
  complete : ∀ roomId session, c.server.session session = .connected → c.teller roomId = none →
    newsTo c.server.sent roomId session = newsTo s.sent roomId session

theorem agrees (linearized : Linearized c s) : c.Agrees s := by
  refine ⟨linearized.toAlike,fun roomId session => ?_,fun roomId session up nobody => ?_⟩
  all_goals obtain ⟨rest,split,owed⟩ := linearized.told.told roomId session
  · rw [newsTo_roomNews] at split
    exact ⟨rest,split.symm⟩
  · have nothing : c.untold roomId session = [] := by
      unfold untold
      rw [nobody]
      rfl
    rw [newsTo_roomNews,owed up,nothing,List.append_nil] at split
    exact split.symm

-- Ann and bob are both in both rooms, and each chats in one of them. The first of ann's two pushes
-- is before the two of bob's, the second after them.
def advances (session count : Nat) : List WorkerEvent := List.replicate count (.advance session session)

def ann : Option Protocol.Player := some ⟨1,ascii "ann"⟩
def bob : Option Protocol.Player := some ⟨2,ascii "bob"⟩

def chatting : List WorkerEvent :=
  [.connect 0 0,.connect 1 1,.receive 0 (.cSetNickname (ascii "ann"))] ++ advances 0 5 ++
  [.receive 1 (.cSetNickname (ascii "bob"))] ++ advances 1 5 ++
  [.receive 0 (.cCreateRoom (ascii "hall") 4)] ++ advances 0 6 ++ [.receive 1 (.cCreateRoom (ascii "attic") 4)] ++ advances 1 7 ++
  [.receive 0 (.cJoinRoom 1 ann)] ++ advances 0 7 ++ [.receive 1 (.cJoinRoom 2 bob)] ++ advances 1 7 ++
  [.receive 0 (.cJoinRoom 2 ann)] ++ advances 0 8 ++ [.receive 1 (.cJoinRoom 1 bob)] ++ advances 1 8 ++
  [.receive 0 (.cChatRoom (ascii "a") ann),.receive 1 (.cChatRoom (ascii "b") bob)] ++ advances 0 3

def crossing : List WorkerEvent := advances 1 5 ++ advances 0 2

end Workers
end IocpChatServer.GameServer
