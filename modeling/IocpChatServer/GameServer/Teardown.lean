import IocpChatServer.GameServer.Registry

namespace IocpChatServer.GameServer
open Std ServerCore Protocol Foundations Table TransitionSystem

namespace World

def Knows (w : World) (p : PlayerRef) : Prop :=
  (∃ id, w.getPlayer id = some p) ∨
    ∃ (roomId : UInt64) (room : RoomRef) (key : UInt64), w.getRoom roomId = some room ∧ (w.rooms room).players[key]? = some p

def OwnedBy (w : World) (p : PlayerRef) (session : SessionRef) : Prop := (w.players p).ownerSession = some session

variable {w next : World} {p q : PlayerRef} {room : RoomRef} {id roomId : UInt64} {session : SessionRef} {name : Bytes}

theorem Valid.known_made (valid : Valid w) (known : w.Knows p) : p < w.playerCount := by
  rcases known with ⟨id,found⟩ | ⟨roomId,room,key,found,member⟩
  · exact (valid.players id p found).made
  · exact (valid.members roomId room key p found member).made

theorem Knows.congr (known : next.Knows p) (registry : next.manager.playerIdToPlayer = w.manager.playerIdToPlayer)
    (listing : next.manager.roomIdToRoom = w.manager.roomIdToRoom)
    (rooms : ∀ roomId r, w.getRoom roomId = some r → (next.rooms r).players = (w.rooms r).players) : w.Knows p := by
  rcases known with ⟨id,found⟩ | ⟨roomId,room,key,found,member⟩
  · exact .inl ⟨id,by rw [getPlayer,← registry]; exact found⟩
  · rw [getRoom,listing] at found
    rw [rooms roomId room found] at member
    exact .inr ⟨roomId,room,key,found,member⟩

theorem named_known (known : (w.named session name).Knows p) : w.Knows p ∨ (w.named session name).OwnedBy p session := by
  rcases known with ⟨id,found⟩ | ⟨roomId,room,key,found,member⟩
  · rcases insert_exact.mp found with ⟨_,rfl⟩ | ⟨_,found⟩
    · exact .inr (by simp [OwnedBy,named])
    · exact .inl (.inl ⟨id,found⟩)
  · exact .inl (.inr ⟨roomId,room,key,found,member⟩)

theorem founded_known (valid : Valid w) (known : (w.founded name).Knows p) : w.Knows p := by
  rcases known with ⟨id,found⟩ | ⟨roomId,room,key,found,member⟩
  · exact .inl ⟨id,found⟩
  · rcases insert_exact.mp found with ⟨_,rfl⟩ | ⟨_,found⟩
    · simp [founded] at member
    · have other : room ≠ w.roomCount := Nat.ne_of_lt (valid.rooms roomId room found).made
      simp only [founded,Function.update_of_ne other] at member
      exact .inr ⟨roomId,room,key,found,member⟩

theorem seated_known {players : TreeMap UInt64 PlayerRef} (members : ∀ (key : UInt64) (p : PlayerRef), players[key]? = some p → w.Knows p)
    (known : (w.seated room players).Knows p) : w.Knows p := by
  rcases known with ⟨id,found⟩ | ⟨roomId,r,key,found,member⟩
  · exact .inl ⟨id,found⟩
  · by_cases same : r = room
    · subst same
      rw [seated_room] at member
      exact members key p member
    · rw [seated_other same] at member
      exact .inr ⟨roomId,r,key,found,member⟩

theorem entered_known (found : w.getRoom roomId = some room) (registered : w.getPlayer id = some q)
    (known : (w.entered room q).Knows p) : w.Knows p := by
  refine seated_known (fun key p member => ?_) known
  rcases insert_exact.mp member with ⟨_,rfl⟩ | ⟨_,member⟩
  · exact .inl ⟨id,registered⟩
  · exact .inr ⟨roomId,room,key,found,member⟩

theorem left_known (found : w.getRoom roomId = some room) (known : (w.left room q).Knows p) : w.Knows p :=
  seated_known (fun key _ member => .inr ⟨roomId,room,key,found,(erase_exact.mp member).2⟩) known

theorem moved_owner : ((w.moved q roomId).players p).ownerSession = (w.players p).ownerSession := by
  by_cases same : p = q
  · simp [moved,setPlayer,same]
  · simp [moved,setPlayer,same]

end World

namespace Server

-- A session is disconnected only while it owns no player the server knows.
def Bare (s : Server) : Event → Prop
  | .disconnect session => ∀ p, s.world.Knows p → ¬ s.world.OwnedBy p session
  | _ => True

structure Kept (s : Server) : Prop where
  valid : s.world.Valid
  live : ∀ p, s.world.Knows p → ∃ session, s.world.OwnedBy p session ∧ s.session session = .connected
  named : ∀ (name : Bytes) (id : UInt64), s.world.manager.playerNameToId[name]? = some id → ∃ p, s.world.getPlayer id = some p

variable {s next : Server} {session : SessionRef} {pkt : ClientPacket} {answer : Bool} {events : List Event}
  {p : PlayerRef}

theorem handled_known (valid : s.world.Valid) (handled : Handles s session pkt (.ok (answer,next)))
    (known : next.world.Knows p) :
    s.world.Knows p ∧ (next.world.players p).ownerSession = (s.world.players p).ownerSession ∨
      next.world.OwnedBy p session := by
  cases handled with
  | nicknameTaken =>
    have before : s.world.Knows p := known.congr rfl rfl fun _ _ _ => rfl
    have other : p ≠ s.world.playerCount := Nat.ne_of_lt (valid.known_made before)
    exact .inl ⟨before,by simp [World.makePlayer,World.setPlayer,other]⟩
  | named =>
    refine (World.named_known known).imp_left fun before => ⟨before,?_⟩
    have other : p ≠ s.world.playerCount := Nat.ne_of_lt (valid.known_made before)
    simp [World.named,other]
  | listed | chatted | leavesNowhere => exact .inl ⟨known,rfl⟩
  | roomTaken =>
    refine .inl ⟨known.congr rfl rfl fun roomId r found => ?_,rfl⟩
    have other : r ≠ s.world.roomCount := Nat.ne_of_lt (valid.rooms roomId r found).made
    simp [World.makeRoom,World.setRoom,other]
  | founded => exact .inl ⟨World.founded_known valid known,rfl⟩
  | rejected => exact .inl ⟨known.congr rfl rfl fun _ _ _ => rfl,World.moved_owner⟩
  | joined found registered =>
    refine .inl ⟨World.entered_known found registered (known.congr rfl rfl fun _ _ _ => rfl),?_⟩
    exact World.moved_owner
  | left registered found =>
    refine .inl ⟨World.left_known (World.roomOf_found found) (known.congr rfl rfl fun _ _ _ => rfl),?_⟩
    exact World.moved_owner

theorem handled_kept (kept : Kept s) (connected : s.session session = .connected)
    (handled : Handles s session pkt (.ok (answer,next))) : Kept next where
  valid := World.handled_valid kept.valid handled
  live p known := by
    rw [handled_session handled]
    rcases handled_known kept.valid handled known with ⟨before,owner⟩ | new
    · obtain ⟨other,owned,live⟩ := kept.live p before
      exact ⟨other,owner.trans owned,live⟩
    · exact ⟨session,new,connected⟩
  named name id named := by
    cases handled with
    | named =>
      rcases insert_exact.mp named with ⟨_,rfl⟩ | ⟨_,named⟩
      · exact ⟨_,insert_exact.mpr (.inl ⟨rfl,rfl⟩)⟩
      · obtain ⟨p,found⟩ := kept.named name id named
        by_cases same : s.world.manager.playerId = id
        · exact ⟨_,insert_exact.mpr (.inl ⟨same,rfl⟩)⟩
        · exact ⟨p,insert_exact.mpr (.inr ⟨same,found⟩)⟩
    | nicknameTaken | listed | roomTaken | founded | rejected | joined | chatted | leavesNowhere | left =>
      exact kept.named name id named

theorem Kept.frame (kept : Kept s) (sessions : SessionRef → Bool)
    (same : next.world = {s.world with manager := {s.world.manager with sessions := sessions}})
    (live : ∀ p session, s.world.Knows p → s.world.OwnedBy p session → s.session session = .connected →
      next.session session = .connected) : Kept next where
  valid := by
    rw [same]
    exact World.sessions_valid kept.valid sessions
  live p known := by
    rw [same] at known
    have before : s.world.Knows p := known
    obtain ⟨session,owned,connected⟩ := kept.live p before
    exact ⟨session,by rw [same]; exact owned,live p session before owned connected⟩
  named name id named := by
    rw [same] at named ⊢
    exact kept.named name id named

theorem step_kept (s : Server) (event : Event) (next : Server) (kept : Kept s)
    (taken : Guarded (Enabled step) Bare s event next) : Kept next := by
  obtain ⟨taken,bare⟩ := taken
  have moved := step_session taken
  rcases step_parts taken with ⟨worker,session,pkt,answer,rfl,connected,handled⟩ | ⟨quiet,sessions,same⟩
  · exact handled_kept kept connected handled
  · refine kept.frame sessions same fun p owner known owned live => ?_
    cases event with
    | connect worker session =>
      obtain ⟨_,after⟩ := moved
      by_cases here : owner = session
      · simp [after,here]
      · simpa [after,here] using live
    | disconnect session =>
      obtain ⟨_,after⟩ := moved
      have other : owner ≠ session := fun same => bare p known (same ▸ owned)
      simpa [after,other] using live
    | destroy session =>
      obtain ⟨before,after⟩ := moved
      have other : owner ≠ session := fun same => absurd ((same ▸ live).symm.trans before) (by simp)
      simpa [after,other] using live
    | packet worker session pkt => exact absurd rfl (quiet worker session pkt)

end Server
end IocpChatServer.GameServer
