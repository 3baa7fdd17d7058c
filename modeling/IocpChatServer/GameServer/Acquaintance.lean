import IocpChatServer.GameServer.Membership

namespace IocpChatServer.GameServer
open Std ServerCore Protocol Foundations Table TransitionSystem

inductive Phase where
  | guest
  | lobby (id : UInt64)
  | inRoom (id : UInt64)
  deriving DecidableEq, Repr

namespace Protocol

def ServerPacket.IsNews : ServerPacket → Prop
  | .sRoomList _ | .sCreateRoom _ _ | .sRoomEvent _ _ _ _ | .sChatRoom _ => True
  | .sNicknamePrompt _ | .sNicknameResult _ _ | .sEnterRoom _ => False

instance : (pkt : ServerPacket) → Decidable pkt.IsNews
  | .sRoomList _ | .sCreateRoom _ _ | .sRoomEvent _ _ _ _ | .sChatRoom _ => .isTrue trivial
  | .sNicknamePrompt _ | .sNicknameResult _ _ | .sEnterRoom _ => .isFalse id

def ClientPacket.IsQuestion : ClientPacket → Prop
  | .cSetNickname _ | .cJoinRoom _ _ => True
  | .cRequestRoomList _ | .cCreateRoom _ _ | .cChatRoom _ _ | .cLeaveRoom _ _ => False

instance : (pkt : ClientPacket) → Decidable pkt.IsQuestion
  | .cSetNickname _ | .cJoinRoom _ _ => .isTrue trivial
  | .cRequestRoomList _ | .cCreateRoom _ _ | .cChatRoom _ _ | .cLeaveRoom _ _ => .isFalse id

end Protocol

-- The packets a client may send without waiting, and where it stands behind them.
def Phase.tell : Phase → ClientPacket → Option Phase
  | .lobby id,.cRequestRoomList _ => some (.lobby id)
  | .lobby id,.cCreateRoom _ _ => some (.lobby id)
  | .inRoom id,.cChatRoom _ player => if (self player).id = id then some (.inRoom id) else none
  | .inRoom id,.cLeaveRoom player _ => if (self player).id = id then some (.lobby id) else none
  | _,_ => none

def Phase.tells (phase : Phase) (pkts : List ClientPacket) : Option Phase := pkts.foldlM Phase.tell phase

def Phase.Asks (w : World) : Phase → ClientPacket → Prop
  | .guest,.cSetNickname _ => True
  | .lobby id,.cJoinRoom roomId player => (self player).id = id ∧ w.getRoom roomId ≠ none
  | _,_ => False

theorem Phase.Asks.kept {w next : World} {phase : Phase} {pkt : ClientPacket} (asks : phase.Asks w pkt)
    (rooms : ∀ roomId, w.getRoom roomId ≠ none → next.getRoom roomId ≠ none) : phase.Asks next pkt := by
  cases phase with
  | guest => cases pkt <;> exact asks
  | lobby id =>
    cases pkt with
    | cJoinRoom roomId => exact ⟨asks.1,rooms roomId asks.2⟩
    | cSetNickname | cRequestRoomList | cCreateRoom | cChatRoom | cLeaveRoom => exact asks.elim
  | inRoom id => cases pkt <;> exact asks.elim

namespace World

def Owns (w : World) (session : SessionRef) (id : UInt64) (p : PlayerRef) : Prop :=
  w.getPlayer id = some p ∧ (w.players p).ownerSession = some session

def Recognizes (w : World) (session : SessionRef) : Phase → Prop
  | .guest => True
  | .lobby id => ∃ p, w.Owns session id p
  | .inRoom id => ∃ p, w.Owns session id p ∧ w.roomOf p ≠ none

def Fresh (w : World) : Prop := ∀ id p, w.getPlayer id = some p → id.toNat < w.manager.playerId.toNat

structure Retains (w next : World) : Prop where
  players : ∀ id p, w.getPlayer id = some p → next.getPlayer id = some p ∧ (next.players p).ownerSession = (w.players p).ownerSession
  rooms : ∀ roomId room, w.getRoom roomId = some room → next.getRoom roomId = some room

variable {w next : World} {session : SessionRef} {id roomId : UInt64} {p q : PlayerRef} {room : RoomRef} {name : Bytes} {phase : Phase}

theorem Fresh.free (fresh : Fresh w) : w.manager.playerId ∉ w.manager.playerIdToPlayer := by
  intro known
  exact absurd (fresh _ _ (TreeMap.getElem?_eq_some_getElem known)) (Nat.lt_irrefl _)

theorem Retains.frame (listing : next.manager.playerIdToPlayer = w.manager.playerIdToPlayer)
    (registry : next.manager.roomIdToRoom = w.manager.roomIdToRoom)
    (owners : ∀ id p, w.getPlayer id = some p → (next.players p).ownerSession = (w.players p).ownerSession) : Retains w next where
  players id p known := ⟨by rw [getPlayer,listing]; exact known,owners id p known⟩
  rooms roomId room found := by
    rw [getRoom,registry]
    exact found

theorem moved_retains : Retains w (w.moved p roomId) := by
  refine .frame rfl rfl fun id q _ => ?_
  by_cases same : q = p
  · subst same
    simp [moved,setPlayer]
  · simp [moved,setPlayer,same]

theorem Retains.trans {last : World} (first : Retains w next) (second : Retains next last) : Retains w last where
  players id p known := by
    obtain ⟨stays,owner⟩ := first.players id p known
    obtain ⟨staysToo,ownerToo⟩ := second.players id p stays
    exact ⟨staysToo,ownerToo.trans owner⟩
  rooms roomId room found := second.rooms roomId room (first.rooms roomId room found)

theorem seated_retains {players : TreeMap UInt64 PlayerRef} : Retains w (w.seated room players) :=
  .frame rfl rfl fun _ _ _ => rfl

theorem named_retains (valid : Valid w) (fresh : Fresh w) : Retains w (w.named session name) where
  players id p known := by
    have other : p ≠ w.playerCount := Nat.ne_of_lt (valid.players id p known).made
    refine ⟨insert_exact.mpr (.inr ⟨fun same => ?_,known⟩),by simp [named,other]⟩
    rw [← same] at known
    exact fresh.free (TreeMap.mem_iff_isSome_getElem?.mpr (by rw [show w.manager.playerIdToPlayer[_]? = _ from known]; rfl))
  rooms roomId room found := found

theorem founded_retains (valid : Valid w) : Retains w (w.founded name) where
  players id p known := ⟨known,rfl⟩
  rooms roomId room found := by
    refine insert_exact.mpr (.inr ⟨fun same => ?_,found⟩)
    rw [← same] at found
    exact valid.fresh_room (TreeMap.mem_iff_isSome_getElem?.mpr (by rw [show w.manager.roomIdToRoom[_]? = _ from found]; rfl))

theorem made_retains (valid : Valid w) (player : Player) : Retains w (w.makePlayer player).2 :=
  .frame rfl rfl fun id p known => by
    have other : p ≠ w.playerCount := Nat.ne_of_lt (valid.players id p known).made
    simp [makePlayer,setPlayer,other]

theorem handled_retains {s next : Server} {pkt : ClientPacket} {answer : Bool} (valid : s.world.Valid) (fresh : s.world.Fresh)
    (handled : Handles s session pkt (.ok (answer,next))) : Retains s.world next.world := by
  have same : Retains s.world s.world := .frame rfl rfl fun _ _ _ => rfl
  cases handled with
  | nicknameTaken => exact made_retains valid _
  | named => exact named_retains valid fresh
  | listed | chatted | leavesNowhere => exact same
  | roomTaken => exact .frame rfl rfl fun _ _ _ => rfl
  | founded => exact founded_retains valid
  | rejected => exact moved_retains
  | joined | left => exact seated_retains.trans moved_retains

theorem Retains.listed (retains : Retains w next) (roomId : UInt64) (listed : w.getRoom roomId ≠ none) : next.getRoom roomId ≠ none := by
  obtain ⟨room,found⟩ := Option.ne_none_iff_exists'.mp listed
  rw [retains.rooms roomId room found]
  exact Option.some_ne_none _

theorem Retains.owns (retains : Retains w next) (owns : w.Owns session id p) : next.Owns session id p := by
  obtain ⟨stays,owner⟩ := retains.players id p owns.1
  exact ⟨stays,owner.trans owns.2⟩

theorem roomOf_listed (valid : Valid w) (found : w.getRoom roomId = some room) (there : (w.players p).roomId = (w.rooms room).id) :
    w.roomOf p = some room := by
  unfold roomOf
  rw [there,if_neg (valid.not_noRoom found)]
  exact valid.getRoom_id found

theorem Retains.housed (retains : Retains w next) (same : (next.players p).roomId = (w.players p).roomId) (housed : w.roomOf p ≠ none) :
    next.roomOf p ≠ none := by
  obtain ⟨room,found⟩ := Option.ne_none_iff_exists'.mp housed
  unfold roomOf at found ⊢
  rw [same]
  split at found
  · cases found
  · rename_i some_
    rw [if_neg some_,retains.rooms _ _ found]
    exact Option.some_ne_none _

theorem handled_housed {s next : Server} {pkt : ClientPacket} {answer : Bool} (valid : s.world.Valid) (fresh : s.world.Fresh)
    (handled : Handles s session pkt (.ok (answer,next))) (known : s.world.getPlayer id = some p) (housed : s.world.roomOf p ≠ none)
    (stays : ∀ player roomId, pkt = .cLeaveRoom player roomId → s.world.getPlayer (self player).id ≠ some p) :
    next.world.roomOf p ≠ none := by
  have retains := handled_retains valid fresh handled
  have other : p ≠ s.world.playerCount := Nat.ne_of_lt (valid.players id p known).made
  have after := handled_valid valid handled
  have moved {target : World} {room : RoomRef} {roomId : UInt64} {q : PlayerRef} (found : s.world.getRoom roomId = some room)
      (kept : Retains s.world (target.moved q (s.world.rooms room).id)) (goal : Valid (target.moved q (s.world.rooms room).id))
      (ids : (target.rooms room).id = (s.world.rooms room).id) (same : (target.players p).roomId = (s.world.players p).roomId) :
      (target.moved q (s.world.rooms room).id).roomOf p ≠ none := by
    by_cases mine : p = q
    · subst mine
      have there := @roomOf_listed _ roomId p room goal (kept.rooms roomId room found)
        ((moved_roomId p p _).trans ((if_pos rfl).trans ids.symm))
      rw [there]
      exact Option.some_ne_none _
    · exact kept.housed ((moved_roomId q p _).trans ((if_neg mine).trans same)) housed
  cases handled with
  | nicknameTaken => exact retains.housed (by simp [makePlayer,setPlayer,other]) housed
  | named => exact retains.housed (by simp [named,other]) housed
  | listed | chatted | leavesNowhere => exact housed
  | roomTaken | founded => exact retains.housed rfl housed
  | rejected found => exact moved found retains after rfl rfl
  | joined found => exact moved found retains after (seated_id _ _ _) rfl
  | left knows =>
    refine retains.housed ((moved_roomId _ p _).trans (if_neg fun mine => ?_)) housed
    subst mine
    exact stays _ _ rfl knows

theorem handled_knows {s next : Server} {pkt : ClientPacket} {answer : Bool} {other : SessionRef} (valid : s.world.Valid)
    (fresh : s.world.Fresh) (handled : Handles s session pkt (.ok (answer,next))) (knows : s.world.Recognizes other phase)
    (stays : ∀ id player roomId, phase = .inRoom id → pkt = .cLeaveRoom player roomId →
      ∀ p, s.world.Owns other id p → s.world.getPlayer (self player).id ≠ some p) : next.world.Recognizes other phase := by
  have retains := handled_retains valid fresh handled
  cases phase with
  | guest => trivial
  | lobby id =>
    obtain ⟨p,owns⟩ := knows
    exact ⟨p,retains.owns owns⟩
  | inRoom id =>
    obtain ⟨p,owns,housed⟩ := knows
    exact ⟨p,retains.owns owns,handled_housed valid fresh handled owns.1 housed fun player roomId same => stays id player roomId rfl same p owns⟩

theorem handled_fresh {s next : Server} {pkt : ClientPacket} {answer : Bool} (fresh : s.world.Fresh)
    (few : s.world.manager.playerId.toNat + 1 < 2^64) (handled : Handles s session pkt (.ok (answer,next))) :
    next.world.Fresh ∧ next.world.manager.playerId.toNat ≤ s.world.manager.playerId.toNat + 1 := by
  cases handled with
  | nicknameTaken | listed | roomTaken | founded | rejected | joined | chatted | leavesNowhere | left => exact ⟨fresh,Nat.le_succ _⟩
  | named =>
    have count : (s.world.manager.playerId + 1).toNat = s.world.manager.playerId.toNat + 1 := by
      rw [UInt64.toNat_add]
      exact Nat.mod_eq_of_lt few
    refine ⟨fun id p known => ?_,Nat.le_of_eq count⟩
    change id.toNat < (s.world.manager.playerId + 1).toNat
    rcases insert_exact.mp known with ⟨rfl,_⟩ | ⟨_,known⟩
    · omega
    · have below := fresh id p known
      omega

end World

namespace Server
variable {s next : Server} {session receiver other : SessionRef} {pkt : ClientPacket} {answer : Bool} {phase after : Phase}

theorem delivery_sent {message : ServerPacket} {entry : SessionRef × ServerPacket} (sent : entry ∈ s.delivery session message) :
    s.session session = .connected ∧ entry = (session,message) := by
  unfold delivery at sent
  split at sent
  · exact ⟨by assumption,List.mem_singleton.mp sent⟩
  · cases sent

theorem toOwner_sent {message : ServerPacket} {player : PlayerRef} {entry : SessionRef × ServerPacket}
    (sent : entry ∈ s.toOwner player message) : s.session entry.1 = .connected ∧ entry.2 = message := by
  unfold toOwner at sent
  split at sent
  · obtain ⟨connected,rfl⟩ := delivery_sent sent
    exact ⟨connected,rfl⟩
  · cases sent

theorem toOwners_sent {message : ServerPacket} {players : List PlayerRef} {entry : SessionRef × ServerPacket}
    (sent : entry ∈ s.toOwners players message) : s.session entry.1 = .connected ∧ entry.2 = message := by
  obtain ⟨_,_,sent⟩ := List.mem_flatMap.mp sent
  exact toOwner_sent sent

-- Only a question is answered, to the session that asked. All else is news.
def Posts (s : Server) (session : SessionRef) (pkt : ClientPacket) (entry : SessionRef × ServerPacket) : Prop :=
  s.session entry.1 = .connected ∧ (entry.2.IsNews ∨ pkt.IsQuestion ∧ entry.1 = session)

theorem answer_posts {message : ServerPacket} {entry : SessionRef × ServerPacket} (sent : entry ∈ s.delivery session message)
    (question : pkt.IsQuestion) : s.Posts session pkt entry := by
  obtain ⟨connected,rfl⟩ := delivery_sent sent
  exact ⟨connected,.inr ⟨question,rfl⟩⟩

theorem news_posts {message : ServerPacket} {entry : SessionRef × ServerPacket}
    (sent : s.session entry.1 = .connected ∧ entry.2 = message) (news : message.IsNews) : s.Posts session pkt entry :=
  ⟨sent.1,.inl (sent.2 ▸ news)⟩

theorem reply_posts {message : ServerPacket} {entry : SessionRef × ServerPacket} (sent : entry ∈ s.delivery session message)
    (news : message.IsNews) : s.Posts session pkt entry := by
  obtain ⟨connected,rfl⟩ := delivery_sent sent
  exact ⟨connected,.inl news⟩

theorem handled_posts (handled : Handles s session pkt (.ok (answer,next))) (pushed : s.sent = []) :
    ∀ entry ∈ next.sent, s.Posts session pkt entry := by
  intro entry sent
  cases handled with
  | nicknameTaken =>
    simp only [pushed,List.nil_append,List.mem_append] at sent
    rcases sent with sent | sent <;> exact answer_posts sent trivial
  | named | rejected =>
    rw [pushed,List.nil_append] at sent
    exact answer_posts sent trivial
  | listed | roomTaken | founded =>
    rw [pushed,List.nil_append] at sent
    exact reply_posts sent trivial
  | joined =>
    rw [pushed,List.nil_append] at sent
    rcases List.mem_append.mp sent with sent | sent
    · exact news_posts (toOwners_sent sent) trivial
    · exact answer_posts sent trivial
  | chatted =>
    rw [pushed,List.nil_append] at sent
    exact news_posts (toOwners_sent sent) trivial
  | leavesNowhere =>
    rw [pushed] at sent
    cases sent
  | left =>
    rw [pushed,List.nil_append] at sent
    rcases List.mem_append.mp sent with sent | sent
    · exact news_posts (toOwner_sent sent) trivial
    · exact news_posts (toOwners_sent sent) trivial

theorem tell_statement (told : phase.tell pkt = some after) : ¬pkt.IsQuestion := by
  cases phase <;> cases pkt <;> simp [Phase.tell,ClientPacket.IsQuestion] at told ⊢

theorem tell_leaves {player : Option Protocol.Player} {roomId : UInt64} (knows : s.world.Recognizes session phase)
    (told : phase.tell (.cLeaveRoom player roomId) = some after) :
    ∃ id p, phase = .inRoom id ∧ after = .lobby id ∧ (self player).id = id ∧ s.world.Owns session id p := by
  cases phase with
  | guest | lobby => cases told
  | inRoom id =>
    simp only [Phase.tell] at told
    split at told
    · rename_i mine
      cases told
      obtain ⟨p,owns,_⟩ := knows
      exact ⟨id,p,rfl,rfl,mine,owns⟩
    · cases told

theorem handled_tells (valid : s.world.Valid) (fresh : s.world.Fresh) (handled : Handles s session pkt (.ok (answer,next)))
    (knows : s.world.Recognizes session phase) (told : phase.tell pkt = some after) : next.world.Recognizes session after := by
  cases pkt with
  | cLeaveRoom player roomId =>
    obtain ⟨id,p,_,rfl,_,owns⟩ := @tell_leaves s session phase after player roomId knows told
    exact ⟨p,(World.handled_retains valid fresh handled).owns owns⟩
  | cSetNickname | cRequestRoomList | cCreateRoom | cJoinRoom | cChatRoom =>
    have same : after = phase := by
      cases phase <;> simp [Phase.tell] at told <;> simp [told]
    rw [same]
    exact World.handled_knows valid fresh handled knows fun _ _ _ _ leaves => nomatch leaves

theorem handled_others (valid : s.world.Valid) (fresh : s.world.Fresh) (handled : Handles s session pkt (.ok (answer,next)))
    (mine : s.world.Recognizes session phase) (legal : phase.Asks s.world pkt ∨ ∃ after, phase.tell pkt = some after)
    (different : other ≠ session) {theirs : Phase} (knows : s.world.Recognizes other theirs) : next.world.Recognizes other theirs := by
  refine World.handled_knows valid fresh handled knows fun _ player roomId _ leaves p owns named => ?_
  subst leaves
  rcases legal with asked | ⟨after,told⟩
  · cases phase <;> exact asked
  · obtain ⟨_,q,_,_,rfl,ownsToo⟩ := @tell_leaves s session phase after player roomId mine told
    cases named.symm.trans ownsToo.1
    exact different (Option.some.inj (owns.2.symm.trans ownsToo.2))

end Server
end IocpChatServer.GameServer
