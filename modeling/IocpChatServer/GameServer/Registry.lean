import IocpChatServer.Foundations.Table
import IocpChatServer.GameServer.HandlerResult

namespace IocpChatServer.GameServer
open Std ServerCore Protocol Foundations Table TransitionSystem

namespace World

structure Owned (w : World) (p : PlayerRef) (id : UInt64) : Prop where
  made : p < w.playerCount
  keyed : (w.players p).playerId = id
  owner : (w.players p).ownerSession ≠ none

-- A room in the registry. Its id is one of those given out, its size never passes its maximum.
structure Listed (w : World) (r : RoomRef) (id : UInt64) : Prop where
  made : r < w.roomCount
  keyed : (w.rooms r).id = id
  maximum : (w.rooms r).maxPlayerCount = 16
  size : (w.rooms r).players.size ≤ 16
  positive : 1 ≤ id.toNat
  given : id.toNat ≤ w.manager.roomIdToRoom.size

-- The list of all rooms, sent at each creation, has at least two bytes for each of them.
structure Valid (w : World) : Prop where
  players : ∀ id p, w.manager.playerIdToPlayer[id]? = some p → Owned w p id
  rooms : ∀ id r, w.manager.roomIdToRoom[id]? = some r → Listed w r id
  members : ∀ (id : UInt64) (r : RoomRef) (key : UInt64) (p : PlayerRef), w.manager.roomIdToRoom[id]? = some r →
    (w.rooms r).players[key]? = some p → Owned w p key
  counter : w.manager.roomId.toNat = w.manager.roomIdToRoom.size + 1
  few : 2 * w.manager.roomIdToRoom.size ≤ SendThread.maxPayload

variable {w next : World} {p q : PlayerRef} {r room : RoomRef} {id roomId key : UInt64} {name : Bytes} {session : SessionRef}

theorem start_valid : Valid {} := by
  refine ⟨?_,?_,?_,rfl,by decide⟩
  all_goals simp

theorem Owned.frame (owned : Owned w p id) (more : w.playerCount ≤ next.playerCount)
    (same : (next.players p).playerId = (w.players p).playerId)
    (owner : (next.players p).ownerSession = (w.players p).ownerSession) : Owned next p id :=
  ⟨Nat.lt_of_lt_of_le owned.made more,same.trans owned.keyed,owner ▸ owned.owner⟩

theorem Listed.frame (listed : Listed w r id) (more : w.roomCount ≤ next.roomCount) (same : next.rooms r = w.rooms r)
    (registry : w.manager.roomIdToRoom.size ≤ next.manager.roomIdToRoom.size) : Listed next r id := by
  obtain ⟨made,keyed,maximum,size,positive,given⟩ := listed
  rw [← same] at keyed maximum size
  exact ⟨Nat.lt_of_lt_of_le made more,keyed,maximum,size,positive,Nat.le_trans given registry⟩

theorem Valid.fresh_room (valid : Valid w) : w.manager.roomId ∉ w.manager.roomIdToRoom := by
  intro known
  have given := (valid.rooms _ _ (TreeMap.getElem?_eq_some_getElem known)).given
  have counter := valid.counter
  omega

theorem sessions_valid (valid : Valid w) (sessions : SessionRef → Bool) :
    Valid {w with manager := {w.manager with sessions := sessions}} where
  players id p found := (valid.players id p found).frame (Nat.le_refl _) rfl rfl
  rooms id r found := (valid.rooms id r found).frame (Nat.le_refl _) rfl (Nat.le_refl _)
  members id r key p found member := (valid.members id r key p found member).frame (Nat.le_refl _) rfl rfl
  counter := valid.counter
  few := valid.few

theorem moved_owned (owned : Owned w p id) : Owned (w.moved q roomId) p id := by
  refine owned.frame (Nat.le_refl _) ?_ ?_
  all_goals by_cases same : p = q <;> simp [moved,setPlayer,same]

theorem moved_valid (valid : Valid w) (p : PlayerRef) (roomId : UInt64) : Valid (w.moved p roomId) where
  players id q found := moved_owned (valid.players id q found)
  rooms id r found := (valid.rooms id r found).frame (Nat.le_refl _) rfl (Nat.le_refl _)
  members id r key q found member := moved_owned (valid.members id r key q found member)
  counter := valid.counter
  few := valid.few

theorem makePlayer_owned (owned : Owned w p id) (player : Player) : Owned (w.makePlayer player).2 p id := by
  have other : p ≠ w.playerCount := Nat.ne_of_lt owned.made
  refine owned.frame (Nat.le_succ _) ?_ ?_
  all_goals simp [makePlayer,setPlayer,other]

theorem makePlayer_valid (valid : Valid w) (player : Player) : Valid (w.makePlayer player).2 where
  players id p found := makePlayer_owned (valid.players id p found) player
  rooms id r found := (valid.rooms id r found).frame (Nat.le_refl _) rfl (Nat.le_refl _)
  members id r key p found member := makePlayer_owned (valid.members id r key p found member) player
  counter := valid.counter
  few := valid.few

theorem named_owned (owned : Owned w p id) : Owned (w.named session name) p id := by
  have other : p ≠ w.playerCount := Nat.ne_of_lt owned.made
  refine owned.frame (Nat.le_succ _) ?_ ?_
  all_goals simp [named,other]

theorem named_valid (valid : Valid w) (session : SessionRef) (name : Bytes) : Valid (w.named session name) where
  players id p found := by
    rcases insert_exact.mp found with ⟨same,rfl⟩ | ⟨_,found⟩
    · exact ⟨Nat.lt_succ_self _,by simpa [named] using same,by simp [named]⟩
    · exact named_owned (valid.players id p found)
  rooms id r found := (valid.rooms id r found).frame (Nat.le_refl _) rfl (Nat.le_refl _)
  members id r key p found member := named_owned (valid.members id r key p found member)
  counter := valid.counter
  few := valid.few

theorem makeRoom_valid (valid : Valid w) (made : Room) : Valid (w.makeRoom made).2 where
  players id p found := (valid.players id p found).frame (Nat.le_refl _) rfl rfl
  rooms id r found := by
    have other : r ≠ w.roomCount := Nat.ne_of_lt (valid.rooms id r found).made
    exact (valid.rooms id r found).frame (Nat.le_succ _) (by simp [makeRoom,setRoom,other]) (Nat.le_refl _)
  members id r key p found member := by
    have other : r ≠ w.roomCount := Nat.ne_of_lt (valid.rooms id r found).made
    simp only [makeRoom,setRoom,Function.update_of_ne other] at member
    exact (valid.members id r key p found member).frame (Nat.le_refl _) rfl rfl
  counter := valid.counter
  few := valid.few

theorem summaries_fit {error : ErrorCode} (fits : (ServerPacket.sCreateRoom error w.summaries).Fits) :
    2 * w.manager.roomIdToRoom.size ≤ SendThread.maxPayload := by
  have count : w.summaries.length = w.manager.roomIdToRoom.size := by simp [summaries,getAllRooms]
  have long := Wire.submessageSizes_long (w.summaries.map fun m => m.serialize.length)
  rw [List.map_map,List.length_map] at long
  unfold ServerPacket.Fits ServerPacket.byteSizeLong ServerPacket.serialize PacketHeader.sizeof at fits
  rw [List.length_append,Wire.submessages_size] at fits
  unfold SendThread.maxPayload PacketHeader.sizeof
  simp only [Function.comp_def] at long
  omega

theorem Valid.founded_count (valid : Valid w) :
    (w.founded name).manager.roomIdToRoom.size = w.manager.roomIdToRoom.size + 1 := by
  simp [founded,TreeMap.size_insert,valid.fresh_room]

theorem founded_valid (valid : Valid w) (fits : (w.foundedReply name).Fits) : Valid (w.founded name) := by
  have counter := valid.counter
  have size := @Valid.founded_count w name valid
  have few := summaries_fit fits
  have other {id : UInt64} {r : RoomRef} (found : w.manager.roomIdToRoom[id]? = some r) : r ≠ w.roomCount :=
    Nat.ne_of_lt (valid.rooms id r found).made
  refine ⟨fun id p found => ?_,fun id r found => ?_,fun id r key p found member => ?_,?_,few⟩
  · exact (valid.players id p found).frame (Nat.le_refl _) rfl rfl
  · rcases insert_exact.mp found with ⟨rfl,rfl⟩ | ⟨_,found⟩
    · exact ⟨Nat.lt_succ_self _,by simp [founded],by simp [founded],by simp [founded],by omega,by omega⟩
    · exact (valid.rooms id r found).frame (Nat.le_succ _) (by simp [founded,other found]) (by omega)
  · rcases insert_exact.mp found with ⟨_,rfl⟩ | ⟨_,found⟩
    · simp [founded] at member
    · simp only [founded,Function.update_of_ne (other found)] at member
      exact (valid.members id r key p found member).frame (Nat.le_refl _) rfl rfl
  · -- so few that the counter does not wrap
    unfold SendThread.maxPayload SendBufferChunk.chunkSize at few
    rw [size]
    simp only [founded,UInt64.toNat_add,counter]
    simp
    omega

theorem Listed.notFull (listed : Listed w r id) (notFull : (w.rooms r).isFull = false) : (w.rooms r).players.size < 16 := by
  have size := listed.size
  simp only [Room.isFull,Room.getPlayerCount,listed.maximum,ge_iff_le,decide_eq_false_iff_not,UInt64.le_iff_toNat_le,
    UInt64.toNat_ofNat'] at notFull
  simp at notFull
  omega

theorem seated_owned {players : TreeMap UInt64 PlayerRef} (owned : Owned w p id) : Owned (w.seated room players) p id :=
  owned.frame (Nat.le_refl _) rfl rfl

theorem seated_valid {players : TreeMap UInt64 PlayerRef} (valid : Valid w) (size : players.size ≤ 16)
    (owned : ∀ key p, players[key]? = some p → Owned w p key) : Valid (w.seated room players) where
  players id q known := seated_owned (valid.players id q known)
  rooms id r listed := by
    by_cases same : r = room
    · subst same
      obtain ⟨made,keyed,maximum,_,positive,given⟩ := valid.rooms id r listed
      exact ⟨made,(seated_id r r players).trans keyed,by rw [seated_room]; exact maximum,by rw [seated_room]; exact size,
        positive,given⟩
    · exact (valid.rooms id r listed).frame (Nat.le_refl _) (seated_other same) (Nat.le_refl _)
  members id r key q listed member := by
    by_cases same : r = room
    · subst same
      rw [seated_room] at member
      exact seated_owned (owned key q member)
    · rw [seated_other same] at member
      exact seated_owned (valid.members id r key q listed member)
  counter := valid.counter
  few := valid.few

theorem entered_valid (valid : Valid w) (found : w.getRoom roomId = some room) (known : w.getPlayer id = some p)
    (notFull : (w.rooms room).isFull = false) : Valid (w.entered room p) := by
  refine seated_valid valid (Nat.le_trans TreeMap.size_insert_le ((valid.rooms _ _ found).notFull notFull)) ?_
  intro key q member
  rcases insert_exact.mp member with ⟨keyed,rfl⟩ | ⟨_,member⟩
  · have player := valid.players _ _ known
    exact ⟨player.made,keyed,player.owner⟩
  · exact valid.members _ _ key q found member

theorem left_valid (valid : Valid w) (found : w.getRoom roomId = some room) (p : PlayerRef) : Valid (w.left room p) :=
  seated_valid valid (Nat.le_trans TreeMap.size_erase_le (valid.rooms _ _ found).size) fun key q member =>
    valid.members _ _ key q found (erase_exact.mp member).2

theorem handled_valid {s next : Server} {pkt : ClientPacket} {answer : Bool} (valid : Valid s.world)
    (handled : Handles s session pkt (.ok (answer,next))) : Valid next.world := by
  cases handled with
  | nicknameTaken => exact makePlayer_valid valid _
  | named => exact named_valid valid _ _
  | listed => exact valid
  | roomTaken => exact makeRoom_valid valid _
  | founded free fits => exact founded_valid valid fits
  | rejected => exact moved_valid valid _ _
  | joined found known notFull => exact moved_valid (entered_valid valid found known notFull) _ _
  | chatted => exact valid
  | leavesNowhere => exact valid
  | left known found => exact moved_valid (left_valid valid (roomOf_found found) _) _ _

end World

namespace Server
variable {s next : Server} {event : Event}

theorem connect_does {worker : Nat} {session : SessionRef} (taken : s.step (.connect worker session) = some next) :
    s.session session = .absent ∧ ∃ threads, next = ⟨s.world.addSession session,Function.update s.session session .connected,
      threads,s.sent ++ [(session,.nicknamePrompt)]⟩ := by
  simp only [step,onConnected] at taken
  split at taken
  · rename_i absent
    obtain ⟨threads,made⟩ := @makeSendBuffer_fits {s with
      world := s.world.addSession session
      session := Function.update s.session session .connected} worker _ ServerPacket.nicknamePrompt_fits
    rw [made] at taken
    cases taken
    rw [send_sent]
    exact ⟨absent,threads,by simp [delivery]⟩
  · cases taken

theorem step_parts (taken : s.step event = some next) :
    (∃ worker session pkt answer, event = .packet worker session pkt ∧ s.session session = .connected ∧
      Handles s session pkt (.ok (answer,next))) ∨
    (∀ worker session pkt, event ≠ .packet worker session pkt) ∧
      ∃ sessions, next.world = {s.world with manager := {s.world.manager with sessions := sessions}} := by
  cases event with
  | connect worker session =>
    obtain ⟨_,threads,rfl⟩ := connect_does taken
    exact .inr ⟨by simp,Function.update s.world.manager.sessions session true,rfl⟩
  | disconnect session =>
    simp only [step] at taken
    split at taken
    · cases taken
      exact .inr ⟨by simp,_,rfl⟩
    · cases taken
  | destroy session =>
    simp only [step] at taken
    split at taken
    · cases taken
      exact .inr ⟨by simp,_,rfl⟩
    · cases taken
  | packet worker session pkt =>
    simp only [step] at taken
    split at taken
    · rename_i connected
      have handles := @handlePacket_handles s worker session pkt
      cases handled : s.handlePacket worker session pkt with
      | error fault => simp [handled,Except.map,Except.toOption] at taken
      | ok result =>
        obtain ⟨answer,after⟩ := result
        rw [handled] at handles taken
        cases taken
        exact .inl ⟨worker,session,pkt,answer,rfl,connected,handles⟩
    · cases taken

theorem handled_session {session : SessionRef} {pkt : ClientPacket} {answer : Bool}
    (handled : Handles s session pkt (.ok (answer,next))) : next.session = s.session := by
  cases handled <;> rfl

def SessionStep (s next : Server) : Event → Prop
  | .connect _ session => s.session session = .absent ∧ next.session = Function.update s.session session .connected
  | .disconnect session => s.session session = .connected ∧ next.session = Function.update s.session session .disconnected
  | .destroy session => s.session session = .disconnected ∧ next.session = Function.update s.session session .destroyed
  | .packet _ session _ => s.session session = .connected ∧ next.session = s.session

theorem step_session (taken : s.step event = some next) : SessionStep s next event := by
  cases event with
  | connect worker session =>
    obtain ⟨absent,threads,rfl⟩ := connect_does taken
    exact ⟨absent,rfl⟩
  | disconnect session | destroy session =>
    simp only [step] at taken
    split at taken
    · rename_i before
      cases taken
      exact ⟨before,rfl⟩
    · cases taken
  | packet worker session pkt =>
    rcases step_parts taken with ⟨_,_,_,answer,same,connected,handled⟩ | ⟨quiet,_⟩
    · cases same
      exact ⟨connected,handled_session handled⟩
    · exact absurd rfl (quiet _ _ _)

theorem step_valid (s : Server) (event : Event) (next : Server) (valid : s.world.Valid)
    (taken : Enabled step s event next) : next.world.Valid := by
  rcases step_parts taken with ⟨_,_,_,_,_,_,handled⟩ | ⟨_,sessions,same⟩
  · exact World.handled_valid valid handled
  · rw [same]
    exact World.sessions_valid valid sessions

theorem runs_valid {events : List Event} (path : Runs (Enabled step) start events s) : s.world.Valid :=
  @Runs.invariant _ _ _ _ _ _ (fun s => s.world.Valid) step_valid path World.start_valid

theorem start_connected : ∃ s, Runs (Enabled step) start [.connect 0 0] s ∧ s.world = World.addSession {} 0 ∧
    s.session 0 = .connected := ⟨_,execute_runs rfl,rfl,rfl⟩

end Server
end IocpChatServer.GameServer
