import IocpChatServer.GameServer.Membership
import IocpChatServer.GameServer.Teardown

namespace IocpChatServer.GameServer
open Std ServerCore Protocol Foundations Table TransitionSystem

-- The id a packet moves between rooms: the one its `self` gives.
def Protocol.ClientPacket.moves : ClientPacket → Option UInt64
  | .cJoinRoom _ player | .cLeaveRoom player _ => some (self player).id
  | .cSetNickname _ | .cRequestRoomList _ | .cCreateRoom _ _ | .cChatRoom _ _ => none

namespace World

def MemberOf (w : World) (roomId : UInt64) (p : PlayerRef) : Prop := ∃ room, w.getRoom roomId = some room ∧ w.Member room p

def Stays (w next : World) (p : PlayerRef) : Prop :=
  (next.players p).roomId = (w.players p).roomId ∧ ∀ roomId, next.MemberOf roomId p ↔ w.MemberOf roomId p

variable {w next : World} {p q : PlayerRef} {room : RoomRef} {id other roomId : UInt64} {name : Bytes}

theorem Valid.one_key (valid : Valid w) (one : w.getPlayer id = some p) (two : w.getPlayer other = some p) : id = other :=
  (valid.players id p one).keyed.symm.trans (valid.players other p two).keyed

theorem memberOf_congr (listing : next.manager.roomIdToRoom = w.manager.roomIdToRoom)
    (rooms : ∀ key r, w.getRoom key = some r → (next.Member r p ↔ w.Member r p)) :
    next.MemberOf roomId p ↔ w.MemberOf roomId p := by
  unfold MemberOf getRoom
  rw [listing]
  exact exists_congr fun r => and_congr_right fun found => rooms roomId r found

theorem Stays.frame (players : (next.players p).roomId = (w.players p).roomId)
    (listing : next.manager.roomIdToRoom = w.manager.roomIdToRoom)
    (rooms : ∀ key r, w.getRoom key = some r → (next.Member r p ↔ w.Member r p)) : Stays w next p :=
  ⟨players,fun _ => memberOf_congr listing rooms⟩

theorem founded_stays (valid : Valid w) : Stays w (w.founded name) p := by
  refine ⟨rfl,fun roomId => ⟨?_,?_⟩⟩
  · intro given
    obtain ⟨r,found,key,member⟩ := given
    rcases insert_exact.mp found with ⟨_,rfl⟩ | ⟨_,found⟩
    · simp [founded] at member
    · have old : r ≠ w.roomCount := Nat.ne_of_lt (valid.rooms roomId r found).made
      simp only [founded,Function.update_of_ne old] at member
      exact ⟨r,found,key,member⟩
  · intro given
    obtain ⟨r,found,key,member⟩ := given
    have old : r ≠ w.roomCount := Nat.ne_of_lt (valid.rooms roomId r found).made
    have apart : w.manager.roomId ≠ roomId := by
      intro same
      subst same
      exact valid.fresh_room (TreeMap.mem_iff_isSome_getElem?.mpr (Option.isSome_iff_exists.mpr ⟨r,found⟩))
    refine ⟨r,insert_exact.mpr (.inr ⟨apart,found⟩),key,?_⟩
    simp only [founded,Function.update_of_ne old]
    exact member

theorem entered_stays (valid : Valid w) (known : w.getPlayer id = some p) (found : w.getRoom roomId = some room)
    (registered : w.getPlayer other = some q) (different : q ≠ p) : Stays w ((w.entered room p).moved p (w.rooms room).id) q := by
  refine .frame ((moved_roomId _ _ _).trans (if_neg different)) rfl fun key r listed => ?_
  by_cases same : r = room
  · subst same
    exact (entered_member valid known listed registered).trans (or_iff_right different)
  · exact member_congr (seated_other same)

theorem left_stays (valid : Valid w) (known : w.getPlayer id = some p) (found : w.getRoom roomId = some room)
    (registered : w.getPlayer other = some q) (different : q ≠ p) : Stays w ((w.left room p).moved p noRoom) q := by
  refine .frame ((moved_roomId _ _ _).trans (if_neg different)) rfl fun key r listed => ?_
  by_cases same : r = room
  · subst same
    exact (left_member valid known listed registered).trans (and_iff_right different)
  · exact member_congr (seated_other same)

end World

namespace Server
variable {s next : Server} {session receiver : SessionRef} {pkt : ClientPacket} {message reply : ServerPacket} {answer : Bool}
  {p : PlayerRef} {id : UInt64} {players : List PlayerRef} {events : List Event} {worker : Nat}

theorem handled_stays (valid : s.world.Valid) (handled : Handles s session pkt (.ok (answer,next)))
    (known : s.world.getPlayer id = some p) (apart : pkt.moves ≠ some id) : World.Stays s.world next.world p := by
  have old : p ≠ s.world.playerCount := Nat.ne_of_lt (valid.players id p known).made
  cases handled with
  | nicknameTaken => exact .frame (by simp [World.makePlayer,World.setPlayer,old]) rfl fun _ _ _ => Iff.rfl
  | named => exact .frame (by simp [World.named,old]) rfl fun _ _ _ => Iff.rfl
  | listed | chatted | leavesNowhere => exact .frame rfl rfl fun _ _ _ => Iff.rfl
  | roomTaken =>
    refine .frame rfl rfl fun roomId r found => World.member_congr ?_
    have other : r ≠ s.world.roomCount := Nat.ne_of_lt (valid.rooms roomId r found).made
    simp [World.makeRoom,World.setRoom,other]
  | founded => exact World.founded_stays valid
  | rejected found registered =>
    refine .frame ((World.moved_roomId _ _ _).trans (if_neg fun same => ?_)) rfl fun _ _ _ => Iff.rfl
    subst same
    exact apart (congrArg some (valid.one_key registered known))
  | joined found registered =>
    refine World.entered_stays valid registered found known fun same => ?_
    subst same
    exact apart (congrArg some (valid.one_key registered known))
  | left registered found =>
    refine World.left_stays valid registered (World.roomOf_found found) known fun same => ?_
    subst same
    exact apart (congrArg some (valid.one_key registered known))

structure Speaks (s : Server) (pkt : ClientPacket) (chat : ChatMessage) (msg : Bytes) (player : Option Protocol.Player) : Prop where
  packet : pkt = .cChatRoom msg player
  playerId : chat.playerId = (self player).id
  nickname : chat.nickname = (self player).name
  known : ∃ p room, s.world.getPlayer chat.playerId = some p ∧ s.world.roomOf p = some room ∧ chat.roomId = (s.world.rooms room).id

theorem handled_chats (handled : Handles s session pkt (.ok (answer,next))) : ∃ sent, next.sent = s.sent ++ sent ∧
    ∀ receiver chat, (receiver,.sChatRoom chat) ∈ sent → ∃ msg player, Speaks s pkt chat msg player := by
  cases handled with
  | nicknameTaken =>
    refine ⟨_,List.append_assoc _ _ _,fun receiver chat sent => ?_⟩
    rcases List.mem_append.mp sent with sent | sent
    · cases delivery_message sent
    · cases delivery_message sent
  | named | listed | roomTaken | founded | rejected =>
    refine ⟨_,rfl,fun receiver chat sent => ?_⟩
    cases delivery_message sent
  | joined =>
    refine ⟨_,List.append_assoc _ _ _,fun receiver chat sent => ?_⟩
    rcases List.mem_append.mp sent with sent | sent
    · cases toOwners_message sent
    · cases delivery_message sent
  | chatted known found =>
    refine ⟨_,rfl,fun receiver chat sent => ?_⟩
    cases toOwners_message sent
    exact ⟨_,_,rfl,rfl,rfl,_,_,known,found,rfl⟩
  | leavesNowhere => exact ⟨[],by simp,fun _ _ sent => by cases sent⟩
  | left =>
    refine ⟨_,List.append_assoc _ _ _,fun receiver chat sent => ?_⟩
    rcases List.mem_append.mp sent with sent | sent
    · cases toOwner_message sent
    · cases toOwners_message sent

def OthersStay (s next : Server) (session : SessionRef) : Prop := ∀ id p, s.world.getPlayer id = some p →
  ¬ s.world.OwnedBy p session → World.Stays s.world next.world p

def ChatsOwn (s next : Server) (session : SessionRef) : Prop :=
  ∀ sent, next.sent = s.sent ++ sent → ∀ receiver chat, (receiver,.sChatRoom chat) ∈ sent →
    ∃ p, s.world.getPlayer chat.playerId = some p ∧ s.world.OwnedBy p session ∧ (s.world.players p).name = chat.nickname

-- The player that a packet names in `self` is the session's, and of this name when it chats.
def Honest (s : Server) (session : SessionRef) : ClientPacket → Prop
  | .cJoinRoom _ player | .cLeaveRoom player _ =>
    ∀ p, s.world.getPlayer (self player).id = some p → s.world.OwnedBy p session
  | .cChatRoom _ player => ∀ p, s.world.getPlayer (self player).id = some p →
    s.world.OwnedBy p session ∧ (s.world.players p).name = (self player).name
  | .cSetNickname _ | .cRequestRoomList _ | .cCreateRoom _ _ => True

theorem Honest.moves (honest : s.Honest session pkt) (foreign : ¬ s.world.OwnedBy p session)
    (known : s.world.getPlayer id = some p) : pkt.moves ≠ some id := by
  intro moved
  cases pkt with
  | cJoinRoom | cLeaveRoom =>
    cases moved
    exact foreign (honest p known)
  | cSetNickname | cRequestRoomList | cCreateRoom | cChatRoom => cases moved

-- A packet acts for the player its `self` names, whoever sends it: all other players stay where
-- they are, and a chat message goes out under that id and name. So a session acts only for its
-- own players as long as it names one of them.
theorem acts_for_named (path : Runs (Enabled step) start events s)
    (handled : s.handlePacket worker session pkt = .ok (answer,next)) :
    (∀ id p, s.world.getPlayer id = some p → pkt.moves ≠ some id → World.Stays s.world next.world p) ∧
      (∃ sent, next.sent = s.sent ++ sent ∧ ∀ receiver chat, (receiver,.sChatRoom chat) ∈ sent →
        ∃ msg player, Speaks s pkt chat msg player) ∧
      (s.Honest session pkt → OthersStay s next session ∧ ChatsOwn s next session) := by
  have valid := runs_valid path
  have handled := handled ▸ @handlePacket_handles s worker session pkt
  obtain ⟨sent,more,chats⟩ := handled_chats handled
  refine ⟨fun id p known apart => handled_stays valid handled known apart,⟨sent,more,chats⟩,fun honest => ⟨?_,?_⟩⟩
  · intro id p known foreign
    exact handled_stays valid handled known (honest.moves foreign known)
  · intro others same receiver chat caused
    rw [← List.append_cancel_left (more.symm.trans same)] at caused
    obtain ⟨msg,player,rfl,playerId,nickname,p,room,known,_⟩ := chats receiver chat caused
    obtain ⟨owned,name⟩ := honest p (playerId ▸ known)
    exact ⟨p,known,owned,name.trans nickname.symm⟩

-- "bob" leaves the room in which "ann" stays.
theorem acts_for_named_leaving : ∃ s next answer, Runs (Enabled step) start
    [.connect 0 0,.connect 0 1,.packet 0 0 (.cSetNickname (ascii "ann")),.packet 0 1 (.cSetNickname (ascii "bob")),
      .packet 0 0 (.cCreateRoom (ascii "hall") 4),.packet 0 0 (.cJoinRoom 1 (some ⟨1,ascii "ann"⟩)),
      .packet 0 1 (.cJoinRoom 1 (some ⟨2,ascii "bob"⟩))] s ∧
    s.handlePacket 0 1 (.cLeaveRoom (some ⟨2,ascii "bob"⟩) 1) = .ok (answer,next) ∧ World.Stays s.world next.world 0 := by
  have path : Runs (Enabled step) start _ _ := @execute_runs _ _ _
    [.connect 0 0,.connect 0 1,.packet 0 0 (.cSetNickname (ascii "ann")),.packet 0 1 (.cSetNickname (ascii "bob")),
      .packet 0 0 (.cCreateRoom (ascii "hall") 4),.packet 0 0 (.cJoinRoom 1 (some ⟨1,ascii "ann"⟩)),
      .packet 0 1 (.cJoinRoom 1 (some ⟨2,ascii "bob"⟩))] _ step rfl
  refine ⟨_,_,_,path,by rfl,?_⟩
  exact (@acts_for_named _ _ 1 (.cLeaveRoom (some ⟨2,ascii "bob"⟩) 1) _ _ 0 path (by rfl)).1 1 0 rfl (by decide)

-- The session of "bob" names "ann": its leave takes her out of her room, and its chat is hers.
theorem acts_for_forged : ¬ (∀ events s worker session pkt answer next, Runs (Enabled step) start events s →
      s.handlePacket worker session pkt = .ok (answer,next) → OthersStay s next session) ∧
    ¬ ∀ events s worker session pkt answer next, Runs (Enabled step) start events s →
      s.handlePacket worker session pkt = .ok (answer,next) → ChatsOwn s next session := by
  have path : Runs (Enabled step) start _ _ := @execute_runs _ _ _
    [.connect 0 0,.connect 0 1,.packet 0 0 (.cSetNickname (ascii "ann")),.packet 0 0 (.cCreateRoom (ascii "hall") 4),
      .packet 0 0 (.cJoinRoom 1 (some ⟨1,ascii "ann"⟩))] _ step rfl
  refine ⟨fun always => ?_,fun always => ?_⟩
  · have stays := always _ _ 0 1 (.cLeaveRoom (some ⟨1,ascii "ann"⟩) 1) _ _ path rfl 1 0 rfl fun owned => by cases owned
    exact absurd stays.1 (by decide)
  · have chats := always _ _ 0 1 (.cChatRoom (ascii "hello") (some ⟨1,ascii "ann"⟩)) _ _ path rfl _ rfl 0 ⟨1,1,ascii "ann",ascii "hello",0⟩
      (.head _)
    obtain ⟨p,known,owned,_⟩ := chats
    cases known
    cases owned

end Server
end IocpChatServer.GameServer
