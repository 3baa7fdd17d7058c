import IocpChatServer.GameServer.Registry

namespace IocpChatServer.GameServer
open Std ServerCore Protocol Foundations Table TransitionSystem

namespace World

def Member (w : World) (r : RoomRef) (p : PlayerRef) : Prop := ∃ key : UInt64, (w.rooms r).players[key]? = some p

def Agree (w : World) : Prop := ∀ roomId r id p, w.getRoom roomId = some r → w.getPlayer id = some p →
  (w.Member r p ↔ (w.players p).roomId = (w.rooms r).id)

structure Settled (w : World) : Prop extends Valid w where
  placed : ∀ id p, w.getPlayer id = some p →
    (w.players p).roomId = noRoom ∨ (w.players p).roomId.toNat ≤ w.manager.roomIdToRoom.size
  agree : Agree w

-- A join that the player's roomId and the room allow: to the room it is in, or out of none
-- into one that has a place.
def Joins (w : World) (room : RoomRef) (p : PlayerRef) : Prop :=
  (w.players p).roomId = (w.rooms room).id ∨
    (w.rooms room).isFull = false ∧ w.getRoom (w.players p).roomId = none

variable {w next : World} {p q : PlayerRef} {r room : RoomRef} {id roomId key other : UInt64} {name : Bytes}

theorem start_settled : Settled {} := by
  refine ⟨start_valid,?_,?_⟩
  all_goals simp [Agree,getPlayer,getRoom]

theorem Valid.getRoom_id (valid : Valid w) (listed : w.getRoom roomId = some r) : w.getRoom (w.rooms r).id = some r := by
  rw [(valid.rooms _ _ listed).keyed]
  exact listed

theorem Valid.not_noRoom (valid : Valid w) (listed : w.getRoom roomId = some r) : (w.rooms r).id ≠ noRoom := by
  intro same
  have given := (valid.rooms _ _ listed).given
  have few := valid.few
  rw [← (valid.rooms _ _ listed).keyed,same] at given
  unfold SendThread.maxPayload SendBufferChunk.chunkSize PacketHeader.sizeof at few
  have large : noRoom.toNat = 2^64 - 1 := rfl
  omega

theorem Settled.frame (settled : Settled w) (valid : Valid next)
    (registry : next.manager.playerIdToPlayer = w.manager.playerIdToPlayer)
    (listing : next.manager.roomIdToRoom = w.manager.roomIdToRoom)
    (players : ∀ id p, w.getPlayer id = some p → (next.players p).roomId = (w.players p).roomId)
    (rooms : ∀ roomId r, w.getRoom roomId = some r → next.rooms r = w.rooms r) : Settled next where
  toValid := valid
  placed id p known := by
    rw [getPlayer,registry] at known
    rw [players id p known,listing]
    exact settled.placed id p known
  agree roomId r id p listed known := by
    rw [getPlayer,registry] at known
    rw [getRoom,listing] at listed
    unfold Member
    rw [players id p known,rooms roomId r listed]
    exact settled.agree roomId r id p listed known

theorem named_settled (settled : Settled w) (session : SessionRef) (name : Bytes) : Settled (w.named session name) where
  toValid := named_valid settled.toValid session name
  placed id p known := by
    rcases insert_exact.mp known with ⟨_,rfl⟩ | ⟨_,known⟩
    · exact .inr (by simp [named])
    · have other : p ≠ w.playerCount := Nat.ne_of_lt (settled.players id p known).made
      simpa [named,other] using settled.placed id p known
  agree roomId r id p listed known := by
    rcases insert_exact.mp known with ⟨_,rfl⟩ | ⟨_,known⟩
    · -- the new object is in no room, and no room has id 0
      refine iff_of_false ?_ fun same => ?_
      · intro given
        obtain ⟨key,member⟩ := given
        exact Nat.lt_irrefl _ (settled.members _ _ _ _ listed member).made
      · have room := settled.rooms roomId r listed
        have positive := room.positive
        have zero : (w.rooms r).id = 0 := by simpa [named] using same.symm
        rw [← room.keyed,zero] at positive
        exact absurd positive (by decide)
    · have other : p ≠ w.playerCount := Nat.ne_of_lt (settled.players id p known).made
      simpa [named,Member,other] using settled.agree roomId r id p listed known

theorem founded_settled (settled : Settled w) (fits : (w.foundedReply name).Fits) : Settled (w.founded name) := by
  have size : (w.founded name).manager.roomIdToRoom.size = w.manager.roomIdToRoom.size + 1 := settled.founded_count
  have new_listed : (w.founded name).getRoom w.manager.roomId = some w.roomCount :=
    insert_exact.mpr (.inl ⟨rfl,rfl⟩)
  refine ⟨founded_valid settled.toValid fits,fun id p known => ?_,fun roomId r id p listed known => ?_⟩
  · rw [size]
    exact (settled.placed id p known).imp_right Nat.le_succ_of_le
  · rcases insert_exact.mp listed with ⟨_,rfl⟩ | ⟨_,listed⟩
    · -- the new room is empty, and no player has its id yet
      refine iff_of_false (by simp [Member,founded]) fun same => ?_
      have new : (w.players p).roomId = w.manager.roomId := by simpa [founded] using same
      have counter := settled.counter
      rcases settled.placed id p known with out | old
      · exact (founded_valid settled.toValid fits).not_noRoom new_listed (same.symm.trans out)
      · rw [new] at old
        omega
    · have other : r ≠ w.roomCount := Nat.ne_of_lt (settled.rooms roomId r listed).made
      simpa [founded,Member,other] using settled.agree roomId r id p listed known

theorem moved_settled (settled : Settled w) (same : (w.players p).roomId = roomId) : Settled (w.moved p roomId) := by
  refine settled.frame (moved_valid settled.toValid p roomId) rfl rfl (fun id q _ => ?_) fun _ _ _ => rfl
  by_cases mine : q = p
  · simp [moved,setPlayer,mine,same]
  · simp [moved,setPlayer,mine]

theorem Valid.one_player (valid : Valid w) (one : w.getPlayer id = some p) (two : w.getPlayer key = some q)
    (same : (w.players p).playerId = (w.players q).playerId) : p = q := by
  have keys : id = key := (valid.players id p one).keyed.symm.trans (same.trans (valid.players key q two).keyed)
  subst keys
  exact Option.some.inj (one.symm.trans two)

theorem Valid.one_room (valid : Valid w) (one : w.getRoom roomId = some room) (two : w.getRoom key = some r)
    (same : (w.rooms room).id = (w.rooms r).id) : room = r :=
  Option.some.inj ((valid.getRoom_id one).symm.trans (same ▸ valid.getRoom_id two))

theorem Valid.other_key (valid : Valid w) (known : w.getPlayer id = some p) (found : w.getRoom roomId = some room)
    (registered : w.getPlayer other = some q) (different : q ≠ p) (member : (w.rooms room).players[key]? = some q) :
    (w.players p).playerId ≠ key := by
  intro same
  rw [← (valid.members _ _ _ _ found member).keyed] at same
  exact different (valid.one_player known registered same).symm

theorem entered_member (valid : Valid w) (known : w.getPlayer id = some p) (found : w.getRoom roomId = some room)
    (registered : w.getPlayer other = some q) : (w.entered room p).Member room q ↔ q = p ∨ w.Member room q := by
  unfold Member entered
  rw [seated_room]
  constructor
  · intro given
    obtain ⟨key,member⟩ := given
    rcases insert_exact.mp member with ⟨_,rfl⟩ | ⟨_,member⟩
    · exact .inl rfl
    · exact .inr ⟨key,member⟩
  · intro either
    by_cases same : q = p
    · exact ⟨_,insert_exact.mpr (.inl ⟨rfl,same.symm⟩)⟩
    · obtain ⟨key,member⟩ := either.resolve_left same
      exact ⟨key,insert_exact.mpr (.inr ⟨valid.other_key known found registered same member,member⟩)⟩

theorem left_member (valid : Valid w) (known : w.getPlayer id = some p) (found : w.getRoom roomId = some room)
    (registered : w.getPlayer other = some q) : (w.left room p).Member room q ↔ q ≠ p ∧ w.Member room q := by
  unfold Member left
  rw [seated_room]
  constructor
  · intro given
    obtain ⟨key,member⟩ := given
    obtain ⟨away,member⟩ := erase_exact.mp member
    refine ⟨fun same => ?_,key,member⟩
    rw [← same] at away
    exact away (valid.members _ _ _ _ found member).keyed
  · intro given
    obtain ⟨different,key,member⟩ := given
    exact ⟨key,erase_exact.mpr ⟨valid.other_key known found registered different member,member⟩⟩

theorem Settled.relocated (settled : Settled w) (valid : Valid next)
    (registry : next.manager.playerIdToPlayer = w.manager.playerIdToPlayer)
    (listing : next.manager.roomIdToRoom = w.manager.roomIdToRoom)
    (ids : ∀ r, (next.rooms r).id = (w.rooms r).id)
    (players : ∀ q, (next.players q).roomId = if q = p then roomId else (w.players q).roomId)
    (target : roomId = noRoom ∨ roomId.toNat ≤ w.manager.roomIdToRoom.size)
    (others : ∀ key r other q, w.getRoom key = some r → w.getPlayer other = some q → q ≠ p →
      (next.Member r q ↔ w.Member r q))
    (mine : ∀ key r, w.getRoom key = some r → (next.Member r p ↔ roomId = (w.rooms r).id)) : Settled next where
  toValid := valid
  placed id q known := by
    rw [getPlayer,registry] at known
    rw [players,listing]
    split
    · exact target
    · exact settled.placed id q known
  agree key r id q listed known := by
    rw [getPlayer,registry] at known
    rw [getRoom,listing] at listed
    rw [players,ids]
    split
    · rename_i same
      rw [same]
      exact mine key r listed
    · rename_i different
      exact (others key r id q listed known different).trans (settled.agree key r id q listed known)

theorem moved_roomId (p q : PlayerRef) (roomId : UInt64) :
    ((w.moved p roomId).players q).roomId = if q = p then roomId else (w.players q).roomId := by
  by_cases mine : q = p
  · simp [moved,setPlayer,mine]
  · simp [moved,setPlayer,mine]

theorem member_congr (same : next.rooms r = w.rooms r) : next.Member r q ↔ w.Member r q := by
  unfold Member
  rw [same]

theorem joined_settled (settled : Settled w) (found : w.getRoom roomId = some room) (known : w.getPlayer id = some p)
    (notFull : (w.rooms room).isFull = false) (joins : w.Joins room p) :
    Settled ((w.entered room p).moved p (w.rooms room).id) := by
  have valid := settled.toValid
  have place := valid.rooms _ _ found
  refine settled.relocated (moved_valid (entered_valid valid found known notFull) _ _) rfl rfl (fun r => seated_id r _ _)
    (fun q => moved_roomId _ _ _) (.inr (place.keyed ▸ place.given)) (fun key r other q listed registered different => ?_)
    fun key r listed => ?_
  · by_cases same : r = room
    · subst same
      exact (entered_member valid known listed registered).trans (or_iff_right different)
    · exact member_congr (seated_other same)
  · by_cases same : r = room
    · subst same
      exact iff_of_true ((entered_member valid known listed known).mpr (.inl rfl)) rfl
    · -- in no other room before, and so after
      have apart : (w.rooms room).id ≠ (w.rooms r).id := fun ids => same (valid.one_room found listed ids).symm
      refine iff_of_false (fun member => ?_) apart
      have there := (settled.agree key r id p listed known).mp ((member_congr (seated_other same)).mp member)
      rcases joins with here | ⟨_,nowhere⟩
      · exact apart (here.symm.trans there)
      · rw [there,valid.getRoom_id listed] at nowhere
        cases nowhere

theorem left_settled (settled : Settled w) (known : w.getPlayer id = some p) (found : w.roomOf p = some room) :
    Settled ((w.left room p).moved p noRoom) := by
  have valid := settled.toValid
  have found := roomOf_found found
  refine settled.relocated (moved_valid (left_valid valid found p) _ _) rfl rfl (fun r => seated_id r _ _)
    (fun q => moved_roomId _ _ _) (.inl rfl) (fun key r other q listed registered different => ?_) fun key r listed => ?_
  · by_cases same : r = room
    · subst same
      exact (left_member valid known listed registered).trans (and_iff_right different)
    · exact member_congr (seated_other same)
  · refine iff_of_false (fun member => ?_) fun same => valid.not_noRoom listed same.symm
    by_cases same : r = room
    · subst same
      exact ((left_member valid known listed known).mp member).1 rfl
    · have there := (settled.agree key r id p listed known).mp ((member_congr (seated_other same)).mp member)
      rw [there,valid.getRoom_id listed] at found
      exact same (Option.some.inj found)

-- A join that is not one of the allowed puts the player into two rooms or, when the room is
-- full, only its roomId.
theorem rejected_disagrees (settled : Settled w) (found : w.getRoom roomId = some room) (known : w.getPlayer id = some p)
    (refused : ¬ w.Joins room p) : ¬ Agree (w.moved p (w.rooms room).id) := by
  intro agree
  have after := (agree roomId room id p found known).mpr ((moved_roomId p p _).trans (if_pos rfl))
  exact refused (.inl ((settled.agree roomId room id p found known).mp after))

theorem joined_disagrees (settled : Settled w) (known : w.getPlayer id = some p)
    (notFull : (w.rooms room).isFull = false) (refused : ¬ w.Joins room p) :
    ¬ Agree ((w.entered room p).moved p (w.rooms room).id) := by
  intro agree
  unfold Joins at refused
  push Not at refused
  obtain ⟨apart,elsewhere⟩ := refused
  obtain ⟨r,listed⟩ := Option.ne_none_iff_exists'.mp (elsewhere notFull)
  have there : (w.players p).roomId = (w.rooms r).id := (settled.rooms _ _ listed).keyed.symm
  have other : r ≠ room := fun same => apart (same ▸ there)
  have before := (settled.agree _ r id p listed known).mpr there
  have after := (agree _ r id p listed known).mp ((member_congr (seated_other other)).mpr before)
  rw [moved_roomId,if_pos rfl] at after
  exact apart (there.trans ((seated_id r _ _).symm.trans after.symm))

end World

namespace Server

def Admitted (s : Server) : Event → Prop
  | .packet _ _ (.cJoinRoom roomId player) =>
    ∀ room ∈ s.world.getRoom roomId, ∀ p ∈ s.world.getPlayer (self player).id, s.world.Joins room p
  | _ => True

instance (w : World) (room : RoomRef) (p : PlayerRef) : Decidable (w.Joins room p) :=
  inferInstanceAs (Decidable (_ ∨ _ ∧ _))

instance (s : Server) : (event : Event) → Decidable (s.Admitted event)
  | .packet _ _ (.cJoinRoom roomId player) => inferInstanceAs
    (Decidable (∀ room ∈ s.world.getRoom roomId, ∀ p ∈ s.world.getPlayer (self player).id, s.world.Joins room p))
  | .packet _ _ (.cSetNickname _) | .packet _ _ (.cRequestRoomList _) | .packet _ _ (.cCreateRoom _ _)
  | .packet _ _ (.cChatRoom _ _) | .packet _ _ (.cLeaveRoom _ _) => .isTrue trivial
  | .connect _ _ | .disconnect _ | .destroy _ => .isTrue trivial

variable {s : Server} {events : List Event}

theorem step_settled (s : Server) (event : Event) (next : Server) (settled : s.world.Settled)
    (taken : Guarded (Enabled step) Admitted s event next) : next.world.Settled := by
  obtain ⟨taken,admitted⟩ := taken
  rcases step_parts taken with ⟨worker,session,pkt,answer,rfl,_,handled⟩ | ⟨_,sessions,same⟩
  · cases handled with
    | nicknameTaken =>
      refine settled.frame (World.makePlayer_valid settled.toValid _) rfl rfl (fun id p known => ?_) fun _ _ _ => rfl
      have other : p ≠ s.world.playerCount := Nat.ne_of_lt (settled.players id p known).made
      simp [World.makePlayer,World.setPlayer,other]
    | named => exact World.named_settled settled _ _
    | listed | chatted | leavesNowhere => exact settled
    | roomTaken =>
      refine settled.frame (World.makeRoom_valid settled.toValid _) rfl rfl (fun _ _ _ => rfl) fun roomId r listed => ?_
      have other : r ≠ s.world.roomCount := Nat.ne_of_lt (settled.rooms roomId r listed).made
      simp [World.makeRoom,World.setRoom,other]
    | founded free fits => exact World.founded_settled settled fits
    | rejected found known full =>
      have joins := admitted _ found _ known
      exact World.moved_settled settled (joins.resolve_right fun free => absurd (full.symm.trans free.1) (by simp))
    | joined found known notFull =>
      exact World.joined_settled settled found known notFull (admitted _ found _ known)
    | left known found => exact World.left_settled settled known found
  · rw [same]
    exact settled.frame (World.sessions_valid settled.toValid sessions) rfl rfl (fun _ _ _ => rfl) fun _ _ _ => rfl

theorem step_disagrees (s : Server) (event : Event) (next : Server) (settled : s.world.Settled)
    (taken : Enabled step s event next) (refused : ¬ Admitted s event) : ¬ next.world.Agree := by
  unfold Admitted at refused
  split at refused
  · rename_i worker session roomId player
    push Not at refused
    obtain ⟨room,found,p,known,refused⟩ := refused
    rcases step_parts taken with ⟨_,_,_,answer,same,_,handled⟩ | ⟨quiet,_⟩
    · cases same
      cases handled with
      | rejected foundToo knownToo =>
        cases foundToo.symm.trans found
        cases knownToo.symm.trans known
        exact World.rejected_disagrees settled found known refused
      | joined foundToo knownToo notFull =>
        cases foundToo.symm.trans found
        cases knownToo.symm.trans known
        exact World.joined_disagrees settled known notFull refused
    · exact absurd rfl (quiet _ _ _)
  · exact absurd trivial refused

theorem step_functional (s : Server) (event : Event) (one two : Server) (first : Enabled step s event one)
    (second : Enabled step s event two) : one = two := Option.some.inj (first.symm.trans second)

-- The two copies agree in all states of a run exactly when every join of it is allowed.
theorem membership_agrees_exact (path : Runs (Enabled step) start events s) :
    (∀ earlier middle, earlier <+: events → Runs (Enabled step) start earlier middle → middle.world.Agree) ↔
      Runs (Guarded (Enabled step) Admitted) start events s :=
  path.exact step_functional step_settled (fun _ settled => settled.agree) step_disagrees World.start_settled

-- A player that leaves one room and joins another.
theorem membership_agrees_exact_moving : ∃ s, Runs (Enabled step) start
    [.connect 0 0,.packet 0 0 (.cSetNickname (ascii "ann")),.packet 0 0 (.cCreateRoom (ascii "hall") 4),
      .packet 0 0 (.cCreateRoom (ascii "yard") 4),.packet 0 0 (.cJoinRoom 1 (some ⟨1,[]⟩)),
      .packet 0 0 (.cLeaveRoom (some ⟨1,[]⟩) 1),.packet 0 0 (.cJoinRoom 2 (some ⟨1,[]⟩))] s ∧ s.world.Agree := by
  have guarded : Runs (Guarded (Enabled step) Admitted) start _ _ := @guard_runs _ _ _
    [.connect 0 0,.packet 0 0 (.cSetNickname (ascii "ann")),.packet 0 0 (.cCreateRoom (ascii "hall") 4),
      .packet 0 0 (.cCreateRoom (ascii "yard") 4),.packet 0 0 (.cJoinRoom 1 (some ⟨1,[]⟩)),
      .packet 0 0 (.cLeaveRoom (some ⟨1,[]⟩) 1),.packet 0 0 (.cJoinRoom 2 (some ⟨1,[]⟩))] _ step _ _ rfl
  have path := guarded.mono fun _ _ _ taken => taken.1
  exact ⟨_,path,(membership_agrees_exact path).mpr guarded _ _ (List.prefix_refl _) path⟩

-- One that joins the second without leaving the first.
theorem membership_agrees_two_rooms : ¬ ∀ events s, Runs (Enabled step) start events s → s.world.Agree := by
  intro always
  have path : Runs (Enabled step) start _ _ := @execute_runs _ _ _
    [.connect 0 0,.packet 0 0 (.cSetNickname (ascii "ann")),.packet 0 0 (.cCreateRoom (ascii "hall") 4),
      .packet 0 0 (.cCreateRoom (ascii "yard") 4),.packet 0 0 (.cJoinRoom 1 (some ⟨1,[]⟩)),
      .packet 0 0 (.cJoinRoom 2 (some ⟨1,[]⟩))] _ step rfl
  have stays := (always _ _ path 1 0 1 0 rfl rfl).mp ⟨1,rfl⟩
  exact absurd stays (by decide)

end Server
end IocpChatServer.GameServer
