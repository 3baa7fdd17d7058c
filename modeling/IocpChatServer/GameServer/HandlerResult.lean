import IocpChatServer.GameServer.ClientPacketHandler

namespace IocpChatServer.GameServer
open Std ServerCore Protocol

namespace World
variable (w : World)

-- What a registration, a new room, a new set of members, an entry, an exit and a change of
-- roomId make of the world.
def named (session : SessionRef) (name : Bytes) : World :=
  {w with
    players := Function.update w.players w.playerCount ⟨w.manager.playerId,name,0,some session⟩
    playerCount := w.playerCount + 1
    manager := {w.manager with
      playerId := w.manager.playerId + 1
      playerNameToId := w.manager.playerNameToId.insert name w.manager.playerId
      playerIdToPlayer := w.manager.playerIdToPlayer.insert w.manager.playerId w.playerCount}}

def founded (name : Bytes) : World :=
  {w with
    rooms := Function.update w.rooms w.roomCount ⟨{},name,w.manager.roomId,16⟩
    roomCount := w.roomCount + 1
    manager := {w.manager with
      roomId := w.manager.roomId + 1
      roomNameToId := w.manager.roomNameToId.insert name w.manager.roomId
      roomIdToRoom := w.manager.roomIdToRoom.insert w.manager.roomId w.roomCount}}

def seated (room : RoomRef) (players : TreeMap UInt64 PlayerRef) : World :=
  w.setRoom room {w.rooms room with players := players}

def entered (room : RoomRef) (player : PlayerRef) : World :=
  w.seated room ((w.rooms room).players.insert (w.players player).playerId player)

def left (room : RoomRef) (player : PlayerRef) : World :=
  w.seated room ((w.rooms room).players.erase (w.players player).playerId)

def moved (player : PlayerRef) (roomId : UInt64) : World :=
  w.setPlayer player {w.players player with roomId := roomId}

def roomOf (player : PlayerRef) : Option RoomRef :=
  if (w.players player).roomId = noRoom then none else w.getRoom (w.players player).roomId

def nicknameReply (name : Bytes) : ServerPacket := .sNicknameResult .ok (some ⟨w.manager.playerId,name⟩)
def foundedReply (name : Bytes) : ServerPacket := .sCreateRoom .ok (w.founded name).summaries
def joinedEvent (room : RoomRef) (player : PlayerRef) : ServerPacket :=
  (w.entered room player).roomEvent .playerJoined room player
def leftEvent (room : RoomRef) (player : PlayerRef) : ServerPacket :=
  (w.left room player).roomEvent .playerLeft room player
def chat (room : RoomRef) (self : Protocol.Player) (msg : Bytes) : ServerPacket :=
  .sChatRoom ⟨(w.rooms room).id,self.id,self.name,msg,0⟩

theorem makePlayer_duplicate {name : Bytes} (taken : name ∈ w.manager.playerNameToId) :
    (w.makePlayer {playerId := 1,name := name}).2.addPlayer w.playerCount =
      (false,(w.makePlayer {playerId := 1,name := name}).2) := by
  simp [makePlayer,setPlayer,addPlayer,taken]

theorem makePlayer_named {name : Bytes} (free : name ∉ w.manager.playerNameToId) (session : SessionRef) :
    ∃ added, (w.makePlayer {playerId := 1,name := name}).2.addPlayer w.playerCount = (true,added) ∧
      added.setPlayer w.playerCount {added.players w.playerCount with ownerSession := some session} = w.named session name := by
  simp [makePlayer,setPlayer,addPlayer,free,named]

theorem named_getPlayerByName (session : SessionRef) (name : Bytes) :
    (w.named session name).getPlayerByName name = some w.playerCount ∧
      ((w.named session name).players w.playerCount).playerId = w.manager.playerId := by
  simp [getPlayerByName,named]

theorem makeRoom_duplicate {name : Bytes} (taken : name ∈ w.manager.roomNameToId) :
    (w.makeRoom (Room.setName {} name)).2.addRoom w.roomCount = (false,(w.makeRoom (Room.setName {} name)).2) := by
  simp [makeRoom,setRoom,addRoom,Room.setName,taken]

theorem makeRoom_founded {name : Bytes} (free : name ∉ w.manager.roomNameToId) :
    (w.makeRoom (Room.setName {} name)).2.addRoom w.roomCount = (true,w.founded name) := by
  simp [makeRoom,setRoom,addRoom,Room.setName,free,founded]

variable {w}

theorem seated_room (room : RoomRef) (players : TreeMap UInt64 PlayerRef) :
    (w.seated room players).rooms room = {w.rooms room with players := players} := by
  simp [seated,setRoom]

theorem seated_other {r room : RoomRef} {players : TreeMap UInt64 PlayerRef} (different : r ≠ room) :
    (w.seated room players).rooms r = w.rooms r := by
  simp [seated,setRoom,different]

theorem seated_id (r room : RoomRef) (players : TreeMap UInt64 PlayerRef) :
    ((w.seated room players).rooms r).id = (w.rooms r).id := by
  by_cases same : r = room
  · rw [same,seated_room]
  · rw [seated_other same]

theorem roomOf_found {room : RoomRef} {p : PlayerRef} (found : w.roomOf p = some room) :
    w.getRoom (w.players p).roomId = some room := by
  unfold roomOf at found
  split at found
  · cases found
  · exact found

end World

namespace Server
variable (s : Server)

def delivery (session : SessionRef) (pkt : ServerPacket) : List (SessionRef × ServerPacket) :=
  if s.session session = .connected then [(session,pkt)] else []

def toOwner (player : PlayerRef) (pkt : ServerPacket) : List (SessionRef × ServerPacket) :=
  match s.lock player with
  | some session => s.delivery session pkt
  | none => []

def toOwners (players : List PlayerRef) (pkt : ServerPacket) : List (SessionRef × ServerPacket) :=
  players.flatMap fun player => s.toOwner player pkt

variable {s : Server} {worker : Nat} {session : SessionRef} {pkt : ServerPacket} {players : List PlayerRef}

theorem makeSendBuffer_fits (fits : pkt.Fits) :
    ∃ threads, s.makeSendBuffer worker pkt = .ok {s with threads := threads} := by
  have small : pkt.serialize.length ≤ SendThread.maxPayload := Nat.le_sub_of_add_le fits
  obtain ⟨_,thread,made,_⟩ := @IdleThread.makeSendBuffer_fits (s.threads worker) _ pkt.pktId small
  exact ⟨_,by simp only [makeSendBuffer,made,bind,Except.bind]; rfl⟩

theorem makeSendBuffer_refused (large : ¬ pkt.Fits) :
    s.makeSendBuffer worker pkt = .error (SendThread.refusal pkt.byteSizeLong) := by
  have large : SendThread.maxPayload < pkt.serialize.length := by
    unfold ServerPacket.Fits ServerPacket.byteSizeLong SendBufferChunk.chunkSize PacketHeader.sizeof at large
    unfold SendThread.maxPayload SendBufferChunk.chunkSize PacketHeader.sizeof
    omega
  simp only [makeSendBuffer,IdleThread.makeSendBuffer_refuses large,bind,Except.bind,ServerPacket.byteSizeLong]

theorem send_sent : s.send session pkt = {s with sent := s.sent ++ s.delivery session pkt} := by
  unfold send delivery
  split
  · rfl
  · simp

theorem delivery_message (sent : (receiver,message) ∈ s.delivery session pkt) : message = pkt := by
  unfold delivery at sent
  split at sent
  · cases List.mem_singleton.mp sent
    rfl
  · cases sent

theorem toOwner_message (sent : (receiver,message) ∈ s.toOwner player pkt) : message = pkt := by
  unfold toOwner at sent
  split at sent
  · exact delivery_message sent
  · cases sent

theorem toOwners_message (sent : (receiver,message) ∈ s.toOwners players pkt) : message = pkt := by
  obtain ⟨_,_,sent⟩ := List.mem_flatMap.mp sent
  exact toOwner_message sent

theorem sendAll_live (live : ∀ player ∈ players, s.lock player ≠ none) :
    s.sendAll players pkt = .ok {s with sent := s.sent ++ s.toOwners players pkt} := by
  induction players generalizing s with
  | nil => simp [sendAll,toOwners,pure,Except.pure]
  | cons player rest ih =>
    obtain ⟨session,owner⟩ := Option.ne_none_iff_exists'.mp (live player (by simp))
    have more := @ih (s.send session pkt) (by
      rw [send_sent]
      exact fun other member => live other (by simp [member]))
    simp only [sendAll,List.foldlM_cons,owner,bind,Except.bind] at more ⊢
    rw [more,send_sent]
    simp only [toOwners,toOwner,List.flatMap_cons,owner,List.append_assoc]
    rfl

theorem sendAll_expired (expired : ∃ player ∈ players, s.lock player = none) :
    s.sendAll players pkt = .error (.null .session) := by
  induction players generalizing s with
  | nil => simp at expired
  | cons player rest ih =>
    simp only [sendAll,List.foldlM_cons]
    cases owner : s.lock player with
    | none => rfl
    | some session =>
      refine @ih (s.send session pkt) ?_
      obtain ⟨other,member,gone⟩ := expired
      rw [send_sent]
      rcases List.mem_cons.mp member with rfl | member
      · rw [gone] at owner
        cases owner
      · exact ⟨other,member,gone⟩

theorem sendOwner_sent {player : PlayerRef} :
    s.sendOwner player pkt = {s with sent := s.sent ++ s.toOwner player pkt} := by
  unfold sendOwner toOwner
  cases s.lock player with
  | none => simp
  | some session => exact send_sent

theorem broadcast_sent {room : RoomRef} :
    s.broadcast room pkt = {s with sent := s.sent ++ s.toOwners (s.world.rooms room).members pkt} := by
  unfold broadcast
  generalize (s.world.rooms room).members = players
  induction players generalizing s with
  | nil => simp [toOwners]
  | cons player rest ih =>
    rw [List.foldl_cons,ih,sendOwner_sent]
    simp only [toOwners,List.flatMap_cons,List.append_assoc]
    rfl

end Server

-- All a handler can do: one constructor for each way it ends.
inductive Handles (s : Server) (session : SessionRef) : ClientPacket → Except Fault (Bool × Server) → Prop where
  | nicknameTaken (taken : name ∈ s.world.manager.playerNameToId) : Handles s session (.cSetNickname name)
      (.ok (true,⟨(s.world.makePlayer {playerId := 1,name := name}).2,s.session,threads,s.sent ++
        s.delivery session (.sNicknameResult .duplicateNick none) ++ s.delivery session .nicknamePrompt⟩))
  | nicknameRefused (free : name ∉ s.world.manager.playerNameToId) (large : ¬ (s.world.nicknameReply name).Fits) :
      Handles s session (.cSetNickname name) (.error (SendThread.refusal (s.world.nicknameReply name).byteSizeLong))
  | named (free : name ∉ s.world.manager.playerNameToId) (fits : (s.world.nicknameReply name).Fits) :
      Handles s session (.cSetNickname name)
        (.ok (true,⟨s.world.named session name,s.session,threads,s.sent ++ s.delivery session (s.world.nicknameReply name)⟩))
  | listRefused (large : ¬ (ServerPacket.sRoomList s.world.summaries).Fits) : Handles s session (.cRequestRoomList num)
      (.error (SendThread.refusal (ServerPacket.sRoomList s.world.summaries).byteSizeLong))
  | listed (fits : (ServerPacket.sRoomList s.world.summaries).Fits) : Handles s session (.cRequestRoomList num)
      (.ok (true,⟨s.world,s.session,threads,s.sent ++ s.delivery session (.sRoomList s.world.summaries)⟩))
  | roomTaken (taken : name ∈ s.world.manager.roomNameToId) : Handles s session (.cCreateRoom name maxPlayers)
      (.ok (true,⟨(s.world.makeRoom (Room.setName {} name)).2,s.session,threads,s.sent ++
        s.delivery session (.sCreateRoom .duplicateNick [])⟩))
  | foundingRefused (free : name ∉ s.world.manager.roomNameToId) (large : ¬ (s.world.foundedReply name).Fits) :
      Handles s session (.cCreateRoom name maxPlayers)
        (.error (SendThread.refusal (s.world.foundedReply name).byteSizeLong))
  | founded (free : name ∉ s.world.manager.roomNameToId) (fits : (s.world.foundedReply name).Fits) :
      Handles s session (.cCreateRoom name maxPlayers)
        (.ok (true,⟨s.world.founded name,s.session,threads,s.sent ++ s.delivery session (s.world.foundedReply name)⟩))
  | joinsNowhere (nowhere : s.world.getRoom roomId = none) :
      Handles s session (.cJoinRoom roomId player) (.error (.null .room))
  | nobodyJoins (found : s.world.getRoom roomId = some room) (nobody : s.world.getPlayer (self player).id = none) :
      Handles s session (.cJoinRoom roomId player) (.error (.null .player))
  | rejected (found : s.world.getRoom roomId = some room) (known : s.world.getPlayer (self player).id = some p)
      (full : (s.world.rooms room).isFull = true) : Handles s session (.cJoinRoom roomId player)
        (.ok (true,⟨s.world.moved p (s.world.rooms room).id,s.session,threads,s.sent ++
          s.delivery session (.sEnterRoom .roomFull)⟩))
  | joinRefused (found : s.world.getRoom roomId = some room) (known : s.world.getPlayer (self player).id = some p)
      (notFull : (s.world.rooms room).isFull = false) (large : ¬ (s.world.joinedEvent room p).Fits) :
      Handles s session (.cJoinRoom roomId player)
        (.error (SendThread.refusal (s.world.joinedEvent room p).byteSizeLong))
  | joinExpired (found : s.world.getRoom roomId = some room) (known : s.world.getPlayer (self player).id = some p)
      (notFull : (s.world.rooms room).isFull = false) (fits : (s.world.joinedEvent room p).Fits)
      (expired : ∃ member ∈ ((s.world.entered room p).rooms room).members, s.lock member = none) :
      Handles s session (.cJoinRoom roomId player) (.error (.null .session))
  | joined (found : s.world.getRoom roomId = some room) (known : s.world.getPlayer (self player).id = some p)
      (notFull : (s.world.rooms room).isFull = false) (fits : (s.world.joinedEvent room p).Fits)
      (live : ∀ member ∈ ((s.world.entered room p).rooms room).members, s.lock member ≠ none) :
      Handles s session (.cJoinRoom roomId player)
        (.ok (true,⟨(s.world.entered room p).moved p (s.world.rooms room).id,s.session,threads,s.sent ++
          s.toOwners ((s.world.entered room p).rooms room).members (s.world.joinedEvent room p) ++
          s.delivery session (.sEnterRoom .ok)⟩))
  | nobodyChats (nobody : s.world.getPlayer (self player).id = none) :
      Handles s session (.cChatRoom msg player) (.error (.null .player))
  | chatsNowhere (known : s.world.getPlayer (self player).id = some p) (nowhere : s.world.roomOf p = none) :
      Handles s session (.cChatRoom msg player) (.error (.null .room))
  | chatRefused (known : s.world.getPlayer (self player).id = some p) (found : s.world.roomOf p = some room)
      (large : ¬ (s.world.chat room (self player) msg).Fits) : Handles s session (.cChatRoom msg player)
        (.error (SendThread.refusal (s.world.chat room (self player) msg).byteSizeLong))
  | chatted (known : s.world.getPlayer (self player).id = some p) (found : s.world.roomOf p = some room)
      (fits : (s.world.chat room (self player) msg).Fits) : Handles s session (.cChatRoom msg player)
        (.ok (true,⟨s.world,s.session,threads,s.sent ++
          s.toOwners (s.world.rooms room).members (s.world.chat room (self player) msg)⟩))
  | nobodyLeaves (nobody : s.world.getPlayer (self player).id = none) :
      Handles s session (.cLeaveRoom player roomId) (.error (.null .player))
  | leavesNowhere (known : s.world.getPlayer (self player).id = some p) (nowhere : s.world.roomOf p = none) :
      Handles s session (.cLeaveRoom player roomId) (.ok (false,s))
  | leaveRefused (known : s.world.getPlayer (self player).id = some p) (found : s.world.roomOf p = some room)
      (large : ¬ (s.world.leftEvent room p).Fits) : Handles s session (.cLeaveRoom player roomId)
        (.error (SendThread.refusal (s.world.leftEvent room p).byteSizeLong))
  | leaveExpired (known : s.world.getPlayer (self player).id = some p) (found : s.world.roomOf p = some room)
      (fits : (s.world.leftEvent room p).Fits)
      (expired : ∃ member ∈ ((s.world.left room p).rooms room).members, s.lock member = none) :
      Handles s session (.cLeaveRoom player roomId) (.error (.null .session))
  | left (known : s.world.getPlayer (self player).id = some p) (found : s.world.roomOf p = some room)
      (fits : (s.world.leftEvent room p).Fits)
      (live : ∀ member ∈ ((s.world.left room p).rooms room).members, s.lock member ≠ none) :
      Handles s session (.cLeaveRoom player roomId)
        (.ok (true,⟨(s.world.left room p).moved p noRoom,s.session,threads,s.sent ++
          s.toOwner p (s.world.leftEvent room p) ++
          s.toOwners ((s.world.left room p).rooms room).members (s.world.leftEvent room p)⟩))

namespace Server
variable {s : Server} {worker : Nat} {session : SessionRef} {β : Type} {P : Except Fault β → Prop}
  {next : Server → Except Fault β} {pkt : ServerPacket}

theorem makeSendBuffer_elim (served : pkt.Fits → ∀ threads, P (next {s with threads := threads}))
    (refused : ¬ pkt.Fits → P (.error (SendThread.refusal pkt.byteSizeLong))) : P (s.makeSendBuffer worker pkt >>= next) := by
  by_cases fits : pkt.Fits
  · obtain ⟨threads,made⟩ := @makeSendBuffer_fits s worker pkt fits
    rw [made]
    exact served fits threads
  · rw [makeSendBuffer_refused fits]
    exact refused fits

theorem sendAll_elim {players : List PlayerRef}
    (sent : (∀ player ∈ players, s.lock player ≠ none) → P (next {s with sent := s.sent ++ s.toOwners players pkt}))
    (expired : (∃ player ∈ players, s.lock player = none) → P (.error (.null .session))) :
    P (s.sendAll players pkt >>= next) := by
  by_cases live : ∀ player ∈ players, s.lock player ≠ none
  · rw [sendAll_live live]
    exact sent live
  · have gone : ∃ player ∈ players, s.lock player = none := by simpa using live
    rw [sendAll_expired gone]
    exact expired gone

theorem setNickname_handles (name : Bytes) :
    Handles s session (.cSetNickname name) (s.handleSetNickname worker session name) := by
  have made : (s.world.makePlayer {playerId := 1,name := name}).1 = s.world.playerCount := rfl
  unfold handleSetNickname
  by_cases taken : name ∈ s.world.manager.playerNameToId
  · simp only [made,World.makePlayer_duplicate _ taken,if_true,send_sent]
    refine makeSendBuffer_elim (fun _ threads => ?_) (absurd ServerPacket.nicknameResult_refusal_fits)
    refine makeSendBuffer_elim (fun _ threads => ?_) (absurd ServerPacket.nicknamePrompt_fits)
    exact .nicknameTaken taken
  · obtain ⟨added,isAdded,named⟩ := s.world.makePlayer_named taken session
    obtain ⟨found,id⟩ := s.world.named_getPlayerByName session name
    simp only [made,isAdded,named,found,id,reduceCtorEq,if_false,send_sent]
    exact makeSendBuffer_elim (fun fits threads => .named taken fits) fun large => .nicknameRefused taken large

theorem requestRoomList_handles (num : UInt32) :
    Handles s session (.cRequestRoomList num) (s.handleRequestRoomList worker session) := by
  simp only [handleRequestRoomList,send_sent]
  exact makeSendBuffer_elim (fun fits threads => .listed fits) .listRefused

theorem createRoom_handles (name : Bytes) (maxPlayers : UInt32) :
    Handles s session (.cCreateRoom name maxPlayers) (s.handleCreateRoom worker session name) := by
  have made : (s.world.makeRoom (Room.setName {} name)).1 = s.world.roomCount := rfl
  unfold handleCreateRoom
  by_cases taken : name ∈ s.world.manager.roomNameToId
  · simp only [made,World.makeRoom_duplicate _ taken,if_true,send_sent]
    exact makeSendBuffer_elim (fun _ threads => .roomTaken taken) (absurd ServerPacket.createRoom_refusal_fits)
  · simp only [made,World.makeRoom_founded _ taken,reduceCtorEq,if_false,send_sent]
    exact makeSendBuffer_elim (fun fits threads => .founded taken fits) (.foundingRefused taken)

theorem enter_elim {room : RoomRef} {player : Option PlayerRef} {next : Bool × Server → Except Fault β}
    (full : (s.world.rooms room).isFull = true → P (next (false,s)))
    (nobody : player = none → P (.error (.null .player)))
    (refused : ∀ p, player = some p → (s.world.rooms room).isFull = false → ¬ (s.world.joinedEvent room p).Fits →
      P (.error (SendThread.refusal (s.world.joinedEvent room p).byteSizeLong)))
    (expired : ∀ p, player = some p → (s.world.rooms room).isFull = false → (s.world.joinedEvent room p).Fits →
      (∃ member ∈ ((s.world.entered room p).rooms room).members, s.lock member = none) → P (.error (.null .session)))
    (entered : ∀ p, player = some p → (s.world.rooms room).isFull = false → (s.world.joinedEvent room p).Fits →
      (∀ member ∈ ((s.world.entered room p).rooms room).members, s.lock member ≠ none) → ∀ threads,
      P (next (true,⟨s.world.entered room p,s.session,threads,
        s.sent ++ s.toOwners ((s.world.entered room p).rooms room).members (s.world.joinedEvent room p)⟩))) :
    P (s.enter worker room player >>= next) := by
  unfold enter
  cases isFull : (s.world.rooms room).isFull with
  | true =>
    simp only [isFull,if_true,pure_bind]
    exact full isFull
  | false =>
    simp only [isFull,Bool.false_eq_true,if_false]
    cases player with
    | none => exact nobody rfl
    | some p =>
      simp only [bind_assoc,pure_bind]
      refine makeSendBuffer_elim (fun fits threads => ?_) (refused p rfl isFull)
      exact sendAll_elim (fun live => entered p rfl isFull fits live threads) (expired p rfl isFull fits)

theorem leave_elim {room : RoomRef} {player : Option PlayerRef} (nobody : player = none → P (.error (.null .player)))
    (refused : ∀ p, player = some p → ¬ (s.world.leftEvent room p).Fits →
      P (.error (SendThread.refusal (s.world.leftEvent room p).byteSizeLong)))
    (expired : ∀ p, player = some p → (s.world.leftEvent room p).Fits →
      (∃ member ∈ ((s.world.left room p).rooms room).members, s.lock member = none) → P (.error (.null .session)))
    (left : ∀ p, player = some p → (s.world.leftEvent room p).Fits →
      (∀ member ∈ ((s.world.left room p).rooms room).members, s.lock member ≠ none) → ∀ threads,
      P (next ⟨s.world.left room p,s.session,threads,s.sent ++ s.toOwner p (s.world.leftEvent room p) ++
        s.toOwners ((s.world.left room p).rooms room).members (s.world.leftEvent room p)⟩)) :
    P (s.leave worker room player >>= next) := by
  unfold leave
  cases player with
  | none => exact nobody rfl
  | some p =>
    simp only [bind_assoc]
    refine makeSendBuffer_elim (fun fits threads => ?_) (refused p rfl)
    simp only [sendOwner_sent]
    exact sendAll_elim (fun live => left p rfl fits live threads) (expired p rfl fits)

theorem joinRoom_handles (roomId : UInt64) (player : Option Protocol.Player) :
    Handles s session (.cJoinRoom roomId player) (s.handleJoinRoom worker session roomId (self player).id) := by
  unfold handleJoinRoom
  cases found : s.world.getRoom roomId with
  | none =>
    refine makeSendBuffer_elim (fun _ threads => ?_) (absurd (ServerPacket.enterRoom_fits _))
    refine makeSendBuffer_elim (fun _ threads => ?_) (absurd (ServerPacket.enterRoom_fits _))
    exact .joinsNowhere found
  | some room =>
    simp only [pure_bind]
    refine enter_elim (fun full => ?_) (.nobodyJoins found) (fun p known => .joinRefused found known)
      (fun p known => .joinExpired found known) fun p known notFull fits live threads => ?_
    · refine makeSendBuffer_elim (fun _ threads => ?_) (absurd (ServerPacket.enterRoom_fits _))
      refine makeSendBuffer_elim (fun _ threads => ?_) (absurd (ServerPacket.enterRoom_fits _))
      cases known : s.world.getPlayer (self player).id with
      | none => exact .nobodyJoins found known
      | some p =>
        simp only [send_sent]
        exact .rejected found known full
    · refine makeSendBuffer_elim (fun _ threads => ?_) (absurd (ServerPacket.enterRoom_fits _))
      refine makeSendBuffer_elim (fun _ threads => ?_) (absurd (ServerPacket.enterRoom_fits _))
      have id : ((s.world.entered room p).rooms room).id = (s.world.rooms room).id := World.seated_id _ _ _
      simp only [known,send_sent,id]
      exact .joined found known notFull fits live

theorem getRoomFromPlayerId_known {id : UInt64} {p : PlayerRef} (known : s.world.getPlayer id = some p) :
    s.getRoomFromPlayerId id = .ok (s.world.roomOf p) := by
  simp only [getRoomFromPlayerId,known,World.roomOf]
  split <;> rfl

theorem getRoomFromPlayerId_unknown {id : UInt64} (unknown : s.world.getPlayer id = none) :
    s.getRoomFromPlayerId id = .error (.null .player) := by
  simp only [getRoomFromPlayerId,unknown]

theorem chatRoom_handles (msg : Bytes) (player : Option Protocol.Player) :
    Handles s session (.cChatRoom msg player) (s.handleChatRoom worker msg (self player)) := by
  unfold handleChatRoom
  cases known : s.world.getPlayer (self player).id with
  | none =>
    rw [getRoomFromPlayerId_unknown known]
    exact .nobodyChats known
  | some p =>
    rw [getRoomFromPlayerId_known known]
    cases found : s.world.roomOf p with
    | none => exact .chatsNowhere known found
    | some room =>
      refine makeSendBuffer_elim (fun fits threads => ?_) (.chatRefused known found)
      rw [broadcast_sent]
      exact .chatted known found fits

theorem leaveRoom_handles (player : Option Protocol.Player) (roomId : UInt64) :
    Handles s session (.cLeaveRoom player roomId) (s.handleLeaveRoom worker (self player).id) := by
  unfold handleLeaveRoom
  cases known : s.world.getPlayer (self player).id with
  | none =>
    rw [getRoomFromPlayerId_unknown known]
    exact .nobodyLeaves known
  | some p =>
    rw [getRoomFromPlayerId_known known]
    cases found : s.world.roomOf p with
    | none => exact .leavesNowhere known found
    | some room =>
      refine leave_elim (nomatch ·) (fun q same => ?_) (fun q same => ?_) fun q same fits live threads => ?_
      all_goals cases same
      · exact .leaveRefused known found
      · exact .leaveExpired known found
      · have still : (s.world.left room p).getPlayer (self player).id = some p := known
        simp only [still]
        exact .left known found fits live

theorem handlePacket_handles : (pkt : ClientPacket) → Handles s session pkt (s.handlePacket worker session pkt)
  | .cSetNickname nickname => setNickname_handles nickname
  | .cRequestRoomList num => requestRoomList_handles num
  | .cCreateRoom name maxPlayers => createRoom_handles name maxPlayers
  | .cJoinRoom roomId player => joinRoom_handles roomId player
  | .cChatRoom msg player => chatRoom_handles msg player
  | .cLeaveRoom player roomId => leaveRoom_handles player roomId

end Server
end IocpChatServer.GameServer
