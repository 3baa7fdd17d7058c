import IocpChatServer.DummyClient.Network

namespace IocpChatServer.GameServer
open Std Foundations Table Protocol ServerCore

namespace World

def Deserted (w : World) : Prop := ∀ roomId room p, w.getRoom roomId = some room → ¬ w.Member room p

def Admits (w : World) : ClientPacket → Prop
  | .cJoinRoom roomId _ => ∃ room ∈ w.getRoom roomId, (w.rooms room).isFull = false
  | _ => False

instance (w : World) : (pkt : ClientPacket) → Decidable (w.Admits pkt)
  | .cJoinRoom roomId _ => inferInstanceAs (Decidable (∃ room ∈ w.getRoom roomId, (w.rooms room).isFull = false))
  | .cSetNickname _ | .cRequestRoomList _ | .cCreateRoom _ _ | .cChatRoom _ _ | .cLeaveRoom _ _ => .isFalse id

variable {w next : World} {name : Bytes} {room : RoomRef} {p : PlayerRef}

theorem Deserted.frame (deserted : Deserted w) (registry : next.manager.roomIdToRoom = w.manager.roomIdToRoom)
    (rooms : ∀ roomId room, w.getRoom roomId = some room → (next.rooms room).players = (w.rooms room).players) : Deserted next := by
  intro roomId room p found member
  rw [getRoom,registry] at found
  rw [Member,rooms roomId room found] at member
  exact deserted roomId room p found member

theorem makeRoom_deserted (valid : Valid w) (deserted : Deserted w) (made : Room) : Deserted (w.makeRoom made).2 := by
  refine deserted.frame rfl fun roomId room found => ?_
  have other : room ≠ w.roomCount := Nat.ne_of_lt (valid.rooms roomId room found).made
  simp [makeRoom,setRoom,other]

theorem founded_deserted (valid : Valid w) (deserted : Deserted w) (name : Bytes) : Deserted (w.founded name) := by
  intro roomId room p found member
  rcases insert_exact.mp found with ⟨_,rfl⟩ | ⟨_,found⟩
  · simp [Member,founded] at member
  · have other : room ≠ w.roomCount := Nat.ne_of_lt (valid.rooms roomId room found).made
    refine deserted roomId room p found ?_
    simpa [Member,founded,other] using member

theorem left_deserted (deserted : Deserted w) (room : RoomRef) (p : PlayerRef) : Deserted (w.left room p) := by
  intro roomId r q found member
  obtain ⟨key,member⟩ := member
  by_cases same : r = room
  · subst same
    rw [left,seated_room] at member
    exact deserted roomId r q found ⟨key,(erase_exact.mp member).2⟩
  · rw [left,seated_other same] at member
    exact deserted roomId r q found ⟨key,member⟩

end World

namespace Server
variable {s next : Server} {session : SessionRef} {pkt : ClientPacket} {answer : Bool}

theorem handled_deserted (valid : s.world.Valid) (deserted : s.world.Deserted) (handled : Handles s session pkt (.ok (answer,next)))
    (refused : ¬ s.world.Admits pkt) : next.world.Deserted := by
  cases handled with
  | nicknameTaken | named | rejected => exact deserted.frame rfl fun _ _ _ => rfl
  | listed | chatted | leavesNowhere => exact deserted
  | roomTaken => exact World.makeRoom_deserted valid deserted _
  | founded => exact World.founded_deserted valid deserted _
  | joined found _ notFull => exact absurd ⟨_,found,notFull⟩ refused
  | left => exact (World.left_deserted deserted _ _).frame rfl fun _ _ _ => rfl

theorem handled_enters (handled : Handles s session pkt (.ok (answer,next))) (receiver : SessionRef)
    (sent : (receiver,.sEnterRoom .ok) ∈ next.sent) : (receiver,.sEnterRoom .ok) ∈ s.sent ∨ s.world.Admits pkt := by
  cases handled with
  | nicknameTaken =>
    simp only [List.mem_append] at sent
    rcases sent with (sent | sent) | sent
    · exact .inl sent
    · cases delivery_message sent
    · cases delivery_message sent
  | named | listed | roomTaken | founded | rejected =>
    rcases List.mem_append.mp sent with sent | sent
    · exact .inl sent
    · cases delivery_message sent
  | joined found _ notFull => exact .inr ⟨_,found,notFull⟩
  | chatted =>
    rcases List.mem_append.mp sent with sent | sent
    · exact .inl sent
    · cases toOwners_message sent
  | leavesNowhere => exact .inl sent
  | left =>
    simp only [List.mem_append] at sent
    rcases sent with (sent | sent) | sent
    · exact .inl sent
    · cases toOwner_message sent
    · cases toOwners_message sent

theorem handled_admitted (valid : s.world.Valid) (handled : Handles s session pkt (.ok (answer,next))) (admits : s.world.Admits pkt) :
    ∃ roomId room p owner, next.world.getRoom roomId = some room ∧ next.world.Member room p ∧
      (next.world.players p).ownerSession = some owner := by
  cases handled with
  | nicknameTaken | named | listed | roomTaken | founded | chatted | leavesNowhere | left => exact admits.elim
  | rejected found _ full =>
    obtain ⟨room,listed,notFull⟩ := admits
    cases found.symm.trans listed
    rw [full] at notFull
    cases notFull
  | @joined roomId room player p _ found known =>
    obtain ⟨owner,owned⟩ := Option.ne_none_iff_exists'.mp (valid.players _ p known).owner
    refine ⟨roomId,room,p,owner,found,⟨(s.world.players p).playerId,?_⟩,?_⟩
    · simp [World.entered,World.moved,World.setPlayer,World.seated_room]
    · simpa [World.entered,World.seated,World.setRoom,World.moved,World.setPlayer] using owned

theorem connect_enters {worker : Nat} {receiver : SessionRef} (taken : s.step (.connect worker session) = some next)
    (sent : (receiver,.sEnterRoom .ok) ∈ next.sent) : (receiver,.sEnterRoom .ok) ∈ s.sent := by
  simp only [step,onConnected] at taken
  split at taken
  · obtain ⟨threads,made⟩ := @makeSendBuffer_fits {s with
      world := s.world.addSession session
      session := Function.update s.session session .connected} worker _ ServerPacket.nicknamePrompt_fits
    rw [made] at taken
    cases taken
    rw [send_sent] at sent
    rcases List.mem_append.mp sent with sent | sent
    · exact sent
    · cases delivery_message sent
  · cases taken

theorem packet_handled {worker : Nat} (taken : s.step (.packet worker session pkt) = some next) :
    ∃ answer, Handles s session pkt (.ok (answer,next)) := by
  rcases step_parts taken with ⟨_,_,_,answer,same,_,handled⟩ | ⟨quiet,_⟩
  · cases same
    exact ⟨answer,handled⟩
  · exact absurd rfl (quiet _ _ _)

theorem connect_world {worker : Nat} (taken : s.step (.connect worker session) = some next) :
    ∃ sessions, next.world = {s.world with manager := {s.world.manager with sessions := sessions}} := by
  rcases step_parts taken with ⟨_,_,_,_,same,_⟩ | ⟨_,sessions⟩
  · cases same
  · exact sessions

end Server
end IocpChatServer.GameServer

namespace IocpChatServer.DummyClient
open GameServer Protocol Foundations TransitionSystem

namespace Client
variable {c : Client} {pkt : ServerPacket} {line : Bytes}

-- No room the client is told of has an id.
theorem handlePacket_roomId (unset : c.currentRoomId = 0) : (c.handlePacket pkt).currentRoomId = 0 := by
  cases pkt with
  | sNicknamePrompt | sRoomList | sCreateRoom | sChatRoom => exact unset
  | sNicknameResult error player =>
    simp only [handlePacket,handleNicknameResult]
    split <;> exact unset
  | sEnterRoom error =>
    simp only [handlePacket,handleEnterRoom]
    split
    · exact unset
    · rfl
  | sRoomEvent type =>
    simp only [handlePacket,handleRoomEvent]
    split <;> exact unset

theorem handlePacket_lobby (out : c.state ≠ .inRoom) (refused : pkt ≠ .sEnterRoom .ok) : (c.handlePacket pkt).state ≠ .inRoom := by
  cases pkt with
  | sNicknamePrompt => simp [handlePacket,handleNicknamePrompt]
  | sRoomList | sCreateRoom | sChatRoom => exact out
  | sNicknameResult error player =>
    simp only [handlePacket,handleNicknameResult]
    split <;> simp
  | sEnterRoom error =>
    have wrong : error ≠ .ok := fun same => refused (same ▸ rfl)
    simpa [handlePacket,handleEnterRoom,wrong] using out
  | sRoomEvent type =>
    simp only [handlePacket,handleRoomEvent]
    split <;> exact out

theorem handleInputLine_client : (c.handleInputLine line).2 = c ∨ (c.handleInputLine line).2 = {c with state := .lobby} := by
  unfold handleInputLine
  split
  · split <;> exact .inl rfl
  · split
    · exact .inl rfl
    · split
      · dsimp only
        split <;> exact .inl rfl
      · split
        · dsimp only
          split
          · exact .inl rfl
          · split <;> exact .inl rfl
        · exact .inl rfl
  · split
    · unfold leaveRoom
      dsimp only
      split
      · exact .inr rfl
      · exact .inl rfl
    · split <;> exact .inl rfl
  · exact .inl rfl

end Client

namespace Network
variable {s next : Network} {event : NetworkEvent}

-- The steps that let nobody in: what the server takes is no join of a room with a place left.
def Unadmitted (s : Network) : NetworkEvent → Prop
  | .serve _ session => ∀ pkt ∈ (s.uplink session).head?, ¬ s.server.world.Admits pkt
  | .connect _ _ | .input _ _ | .deliver _ => True

instance (s : Network) : (event : NetworkEvent) → Decidable (Unadmitted s event)
  | .serve _ session => inferInstanceAs (Decidable (∀ pkt ∈ (s.uplink session).head?, ¬ s.server.world.Admits pkt))
  | .connect _ _ | .input _ _ | .deliver _ => .isTrue trivial

structure Sound (s : Network) : Prop where
  world : s.server.world.Valid
  pushed : s.server.sent = []
  unset : ∀ session, (s.client session).currentRoomId = 0

structure Unentered (s : Network) : Prop extends Sound s where
  deserted : s.server.world.Deserted
  refused : ∀ session, .sEnterRoom .ok ∉ s.downlink session
  out : ∀ session, (s.client session).state ≠ .inRoom

theorem start_unentered : Unentered start where
  world := World.start_valid
  pushed := rfl
  unset _ := rfl
  deserted roomId room p found := by simp [start,Server.start,World.getRoom] at found
  refused _ := List.not_mem_nil
  out _ := by simp [start]

theorem client_moved (Holds : Client → Prop) {client : SessionRef → Client} {session : SessionRef} {c : Client}
    (others : ∀ session, Holds (client session)) (mine : Holds c) (other : SessionRef) : Holds (Function.update client session c other) := by
  by_cases same : other = session
  · subst same
    rwa [Function.update_self]
  · rw [Function.update_of_ne same]
    exact others other

theorem typed_client {session : SessionRef} {line : Bytes} {sent : Option ClientPacket} {client : Client}
    (typed : (s.client session).handleInputLine line = (sent,client)) :
    client = s.client session ∨ client = {s.client session with state := .lobby} := by
  have same := @Client.handleInputLine_client (s.client session) line
  rwa [typed] at same

theorem step_sound (s : Network) (event : NetworkEvent) (next : Network) (sound : Sound s) (taken : Enabled step s event next) : Sound next := by
  have typed {session : SessionRef} {line : Bytes} {sent : Option ClientPacket} {client : Client}
      (typed : (s.client session).handleInputLine line = (sent,client)) : client.currentRoomId = 0 := by
    rcases typed_client typed with rfl | rfl <;> exact sound.unset session
  cases step_does taken with
  | @connects _ _ server served =>
    have world : server.world.Valid := Server.step_valid _ _ _ sound.world served
    exact ⟨world,rfl,sound.unset⟩
  | types silent => exact ⟨sound.world,sound.pushed,client_moved (·.currentRoomId = 0) sound.unset (typed silent)⟩
  | asks sent => exact ⟨sound.world,sound.pushed,client_moved (·.currentRoomId = 0) sound.unset (typed sent)⟩
  | @serves _ _ _ _ server _ served =>
    have world : server.world.Valid := Server.step_valid _ _ _ sound.world served
    exact ⟨world,rfl,sound.unset⟩
  | @delivers session =>
    exact ⟨sound.world,sound.pushed,client_moved (·.currentRoomId = 0) sound.unset (Client.handlePacket_roomId (sound.unset session))⟩

theorem collect_refused {server : Server} (refused : ∀ session, .sEnterRoom .ok ∉ s.downlink session)
    (sent : ∀ session, (session,.sEnterRoom .ok) ∉ server.sent) (session : SessionRef) : .sEnterRoom .ok ∉ (s.collect server).downlink session := by
  intro waiting
  rcases List.mem_append.mp waiting with old | new
  · exact refused session old
  · exact sent session (mem_mail.mp new)

theorem step_unentered (s : Network) (event : NetworkEvent) (next : Network) (unentered : Unentered s)
    (taken : Guarded (Enabled step) Unadmitted s event next) : Unentered next := by
  obtain ⟨taken,unadmitted⟩ := taken
  have sound := step_sound s event next unentered.toSound taken
  have none (session : SessionRef) : (session,.sEnterRoom .ok) ∉ s.server.sent := by simp [unentered.pushed]
  have typed {session : SessionRef} {line : Bytes} {sent : Option ClientPacket} {client : Client}
      (typed : (s.client session).handleInputLine line = (sent,client)) : client.state ≠ .inRoom := by
    rcases typed_client typed with rfl | rfl
    · exact unentered.out session
    · simp
  cases step_does taken with
  | @connects _ _ server served =>
    obtain ⟨_,world⟩ := Server.connect_world served
    have deserted : server.world.Deserted := by
      rw [world]
      exact unentered.deserted.frame rfl fun _ _ _ => rfl
    exact ⟨sound,deserted,collect_refused unentered.refused fun session sent => none session (Server.connect_enters served sent),unentered.out⟩
  | types silent => exact ⟨sound,unentered.deserted,unentered.refused,client_moved (·.state ≠ .inRoom) unentered.out (typed silent)⟩
  | asks sent => exact ⟨sound,unentered.deserted,unentered.refused,client_moved (·.state ≠ .inRoom) unentered.out (typed sent)⟩
  | @serves session pkt _ _ server waiting served =>
    have barred : ¬ s.server.world.Admits pkt := unadmitted pkt (by simp [waiting])
    obtain ⟨answer,handled⟩ := Server.packet_handled served
    have deserted : server.world.Deserted := Server.handled_deserted unentered.world unentered.deserted handled barred
    refine ⟨sound,deserted,collect_refused unentered.refused fun receiver sent => ?_,unentered.out⟩
    rcases Server.handled_enters handled receiver sent with old | admits
    · exact none receiver old
    · exact barred admits
  | @delivers session pkt rest waiting =>
    have fresh : pkt ≠ .sEnterRoom .ok := by
      intro same
      subst same
      exact unentered.refused session (by simp [waiting])
    refine ⟨sound,unentered.deserted,fun other there => ?_,
      client_moved (·.state ≠ .inRoom) unentered.out (Client.handlePacket_lobby (unentered.out session) fresh)⟩
    dsimp only at there
    by_cases same : other = session
    · subst same
      rw [Function.update_self] at there
      exact unentered.refused other (by simp [waiting,there])
    · rw [Function.update_of_ne same] at there
      exact unentered.refused other there

theorem agree_vacant (sound : Sound s) : s.Agree ↔ s.Vacant := by
  constructor
  · intro agree session
    have out (room : RoomRef) : ¬ s.Has session room := by
      intro has
      have zero := (agree session).roomId room has
      obtain ⟨roomId,_,found,_⟩ := has
      have listed := sound.world.rooms roomId room found
      rw [sound.unset,listed.keyed] at zero
      have positive := listed.positive
      rw [← zero] at positive
      exact absurd positive (by decide)
    refine ⟨fun inRoom => ?_,out⟩
    obtain ⟨room,has⟩ := (agree session).inRoom.mp inRoom
    exact out room has
  · intro vacant session
    obtain ⟨lobby,out⟩ := vacant session
    exact ⟨iff_of_false lobby fun ⟨room,has⟩ => out room has,fun room has => absurd has (out room),fun room has => absurd has (out room)⟩

theorem Unentered.vacant (unentered : Unentered s) : s.Vacant := by
  refine fun session => ⟨unentered.out session,fun room has => ?_⟩
  obtain ⟨roomId,p,found,member,_⟩ := has
  exact unentered.deserted roomId room p found member

-- Whoever is let in is in a room whose id the client is not told.
theorem admitted_disagrees (sound : Sound s) (taken : Enabled step s event next) (admitted : ¬ Unadmitted s event) : ¬ next.Agree := by
  intro agree
  have vacant := (agree_vacant (step_sound s event next sound taken)).mp agree
  cases step_does taken with
  | connects | types | asks | delivers => exact admitted trivial
  | @serves session pkt _ _ server waiting served =>
    have admits : s.server.world.Admits pkt := by
      by_contra barred
      exact admitted fun other head => by
        rw [waiting] at head
        cases head
        exact barred
    obtain ⟨answer,handled⟩ := Server.packet_handled served
    obtain ⟨roomId,room,p,owner,found,member,owned⟩ := Server.handled_admitted sound.world handled admits
    exact (vacant owner).2 room ⟨roomId,p,found,member,owned⟩

theorem step_functional (s : Network) (event : NetworkEvent) (one two : Network) (taken : Enabled step s event one)
    (takenToo : Enabled step s event two) : one = two := Option.some.inj (taken.symm.trans takenToo)

-- S_ENTER_ROOM goes out without the room, so that a client in a room has neither its id nor
-- its players. Client and server agree in the states in which nobody is in a room, and in all
-- states of a run when nobody is ever let in.
theorem agrees_unadmitted {events : List NetworkEvent} (path : Runs (Enabled step) start events s) :
    (s.Agree ↔ s.Vacant) ∧
    ((∀ earlier middle, earlier <+: events → Runs (Enabled step) start earlier middle → middle.Agree) ↔
      Runs (Guarded (Enabled step) Unadmitted) start events s) :=
  ⟨agree_vacant (path.invariant step_sound start_unentered.toSound),
    path.exact step_functional step_unentered (fun _ unentered => (agree_vacant unentered.toSound).mpr unentered.vacant)
      (fun _ _ _ unentered taken admitted => admitted_disagrees unentered.toSound taken admitted) start_unentered⟩

def created : List NetworkEvent :=
  [.connect 0 0,.deliver 0,.input 0 (ascii "kim"),.serve 0 0,.deliver 0,.input 0 (ascii "create hall"),.serve 0 0,.deliver 0]

theorem agrees_unadmitted_created : ∃ s, Runs (Enabled step) start created s ∧ (s.client 0).state = .lobby ∧
    (s.server.world.getRoom 1).isSome ∧ s.Vacant := by
  have path : Runs (Guarded (Enabled step) Unadmitted) start created _ := guard_runs rfl
  have plain : Runs (Enabled step) start created _ := path.mono fun _ _ _ taken => taken.1
  obtain ⟨vacant,whole⟩ := agrees_unadmitted plain
  exact ⟨_,plain,rfl,rfl,vacant.mp (whole.mpr path created _ (List.prefix_refl _) plain)⟩

-- The only client joins the only room. It has taken all messages, and is in room 0 with nobody.
theorem agrees_alone : ¬ ∀ events s, Runs (Enabled step) start events s → s.Quiet → s.Agree := by
  intro always
  have path : Runs (Enabled step) start (created ++ [.input 0 (ascii "join 1"),.serve 0 0,.deliver 0,.deliver 0]) _ := execute_runs rfl
  have agree := always _ _ path fun session => by cases session <;> exact ⟨rfl,rfl⟩
  have sound := path.invariant step_sound start_unentered.toSound
  exact ((agree_vacant sound).mp agree 0).1 rfl

end Network
end IocpChatServer.DummyClient
