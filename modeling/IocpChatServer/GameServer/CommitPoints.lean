import IocpChatServer.GameServer.PendingWrites

namespace IocpChatServer.GameServer
open Std ServerCore Protocol Foundations Table TransitionSystem

namespace World
variable (w : World) {name : Bytes}

-- After AddPlayer has taken the player, and before it has an owner.
def enlisted (name : Bytes) : World :=
  {w with
    players := Function.update w.players w.playerCount ⟨w.manager.playerId,name,0,none⟩
    playerCount := w.playerCount + 1
    manager := {w.manager with
      playerId := w.manager.playerId + 1
      playerNameToId := w.manager.playerNameToId.insert name w.manager.playerId
      playerIdToPlayer := w.manager.playerIdToPlayer.insert w.manager.playerId w.playerCount}}

theorem makePlayer_enlisted (free : name ∉ w.manager.playerNameToId) :
    (w.makePlayer {playerId := 1,name := name}).2.addPlayer w.playerCount = (true,w.enlisted name) := by
  simp [makePlayer,setPlayer,addPlayer,free,enlisted]

variable {w} {there : World} {room r : RoomRef} {p q : PlayerRef} {roomId key : UInt64} {sendBuffer : ServerPacket}

theorem Owns.owned {session : SessionRef} {id : UInt64} (owns : w.Owns session id p) : (w.players p).ownerSession ≠ none := by
  rw [owns.2]
  exact Option.some_ne_none _

theorem tells_all {players : List PlayerRef} {checked : Bool} (about : sendBuffer.newsOf = some roomId)
    (found : w.getRoom roomId = some room) (owned : ∀ q ∈ players, ∃ session id, w.Owns session id q) : w.Tells room sendBuffer (players.map fun p => (p,checked)) := by
  refine ⟨⟨roomId,about,found⟩,fun entry member => ?_⟩
  obtain ⟨q,there,rfl⟩ := List.mem_map.mp member
  exact owned q there

end World

namespace Linearized
variable {c : Workers} {s : Server} {server : Server} {session : SessionRef} {worker : Nat} {name : Bytes} {p : PlayerRef}
  {id roomId : UInt64}
  {room : RoomRef} {call : Handling}

theorem getPlayer_same (linearized : Linearized c s) : s.world.getPlayer id = c.server.world.getPlayer id := by
  unfold World.getPlayer
  rw [linearized.manager]

theorem getRoom_same (linearized : Linearized c s) : s.world.getRoom roomId = c.server.world.getRoom roomId := by
  unfold World.getRoom
  rw [linearized.manager]

theorem made (linearized : Linearized c s) (valid : s.world.Valid) (known : c.server.world.getPlayer id = some p) :
    p ≠ c.server.world.playerCount := by
  rw [← linearized.playerCount]
  exact Nat.ne_of_lt (valid.players id p (linearized.getPlayer_same.trans known)).made

theorem connected (linearized : Linearized c s) (busy : c.call session ≠ .idle) : s.session session = .connected := by
  rw [linearized.session]
  exact linearized.busy session busy

theorem silent {others : PlayerRef → Prop} (linearized : Linearized c s) (keeps : Undisturbed c.server.world server.world others)
    (here : roomNews server.sent = roomNews c.server.sent) (sessions : server.session = c.server.session)
    (rooms : ∀ roomId room, server.world.getRoom roomId = some room → c.server.world.getRoom roomId = some room ∨ c.lock room = none)
    (owners : ∀ p owner, (server.world.players p).ownerSession = some owner → (c.server.world.players p).ownerSession = some owner)
    (busy : c.call session ≠ .idle) (outside : (c.call session).holds = none ∧ call.holds = none) :
    (c.becomes server session call).Told (roomNews s.sent ++ roomNews []) :=
  linearized.told.still linearized.sound (congrArg roomNews (List.append_nil _)) here sessions keeps rooms
    (fun p owner owns => .inl (owners p owner owns)) outside (linearized.busy session busy)

theorem idles {pkt : ClientPacket} {news : List (SessionRef × ServerPacket)} (linearized : Linearized c s) (busy : c.call session ≠ .idle)
    (takes : s.Takes worker session pkt s.world news) (world : server.world = c.server.world) (sessions : server.session = c.server.session)
    (told : (c.becomes server session call).Told (roomNews s.sent ++ roomNews news))
    (nothing : (c.call session).writes c.server.world session = none) (after : call.writes c.server.world session = none)
    (sound : call.Sound c.server.world session) :
    ∃ next, s.step (.packet worker session pkt) = some next ∧ Linearized (c.becomes server session call) next := by
  rw [← world] at sound after
  have alike := linearized.toAlike.elsewhere world sessions
  refine linearized.commits takes sessions alike.manager alike.rooms alike.playerCount alike.roomCount told
    ((undisturbed world).mono fun _ _ => trivial) (fun _ _ _ _ => rfl) (fun p _ others => ?_)
    (fun p player writes => absurd (after.symm.trans writes) (Option.some_ne_none _).symm) sound (fun room key p seated => .inl ?_) busy
  · rw [world]
    exact linearized.nothing_same nothing others
  · rwa [world] at seated

theorem mine_same (linearized : Linearized c s) (nothing : (c.call session).writes c.server.world session = none)
    (owns : c.server.world.Owns session id p) : s.world.Owns session id p ∧ s.world.players p = c.server.world.players p :=
  ⟨⟨linearized.getPlayer_same.trans owns.1,linearized.owner_same owns.2⟩,linearized.player_same owns.2 nothing⟩

theorem roomOf_same (linearized : Linearized c s) (same : s.world.players p = c.server.world.players p) :
    s.world.roomOf p = c.server.world.roomOf p := by
  unfold World.roomOf World.getRoom
  rw [same,linearized.manager]

theorem lock_same (linearized : Linearized c s) (owned : (c.server.world.players p).ownerSession ≠ none) : s.lock p = c.server.lock p := by
  obtain ⟨owner,owns⟩ := Option.ne_none_iff_exists'.mp owned
  unfold Server.lock
  rw [owns,linearized.owner_same owns,linearized.session]

theorem toOwner_same (linearized : Linearized c s) (message : ServerPacket) (owned : (c.server.world.players p).ownerSession ≠ none) :
    s.toOwner p message = c.server.toOwner p message := by
  unfold Server.toOwner Server.delivery
  rw [linearized.lock_same owned,linearized.session]

theorem toOwners_same {players : List PlayerRef} (linearized : Linearized c s) (message : ServerPacket)
    (owned : ∀ p ∈ players, (c.server.world.players p).ownerSession ≠ none) :
    s.toOwners players message = c.server.toOwners players message :=
  List.flatMap_congr fun p member => linearized.toOwner_same message (owned p member)

theorem members_owned (linearized : Linearized c s) (room : RoomRef) :
    ∀ p ∈ (c.server.world.rooms room).members, ∃ owner id, c.server.world.Owns owner id p := by
  intro p member
  obtain ⟨key,there⟩ := entries_exact.mp member
  exact linearized.members room key p there

theorem listed_once (linearized : Linearized c s) (valid : s.world.Valid) (listed : c.server.world.getRoom roomId = some room)
    (other : UInt64) (again : c.server.world.getRoom other = some room) : other = roomId := by
  have one := (valid.rooms roomId room (linearized.getRoom_same.trans listed)).keyed
  have two := (valid.rooms other room (linearized.getRoom_same.trans again)).keyed
  exact two.symm.trans one

theorem listed_id (linearized : Linearized c s) (valid : s.world.Valid) (listed : c.server.world.getRoom roomId = some room) :
    (c.server.world.rooms room).id = roomId := by
  rw [← linearized.rooms]
  exact (valid.rooms roomId room (linearized.getRoom_same.trans listed)).keyed

theorem reseated {w next : World} {others : PlayerRef → Prop} (manager : next.manager = w.manager) (players : next.players = w.players)
    (ids : ∀ r, (next.rooms r).id = (w.rooms r).id) : Undisturbed w next others := by
  refine ⟨fun _ id q owns => ?_,fun id q known => ?_,fun roomId r listed => ⟨?_,ids r⟩,fun _ q _ _ => by rw [players]⟩
  · unfold World.Owns World.getPlayer at owns ⊢
    rwa [manager,players]
  · unfold World.getPlayer at known ⊢
    rwa [manager]
  · unfold World.getRoom at listed ⊢
    rwa [manager]

theorem moves {pkt : ClientPacket} {there : World} {news : List (SessionRef × ServerPacket)} (linearized : Linearized c s)
    (busy : c.call session ≠ .idle) (nothing : (c.call session).writes c.server.world session = none)
    (owns : c.server.world.Owns session id p)
    (takes : s.Takes worker session pkt (there.moved p roomId) news) (sessions : server.session = c.server.session)
    (manager : server.world.manager = c.server.world.manager) (managerThere : there.manager = s.world.manager)
    (players : server.world.players = c.server.world.players) (playersThere : there.players = s.world.players)
    (rooms : there.rooms = server.world.rooms) (ids : ∀ r, (server.world.rooms r).id = (c.server.world.rooms r).id)
    (counts : server.world.playerCount = c.server.world.playerCount ∧ server.world.roomCount = c.server.world.roomCount)
    (countsThere : there.playerCount = s.world.playerCount ∧ there.roomCount = s.world.roomCount)
    (told : (c.becomes server session call).Told (roomNews s.sent ++ roomNews news))
    (member : ∀ r (key : UInt64) q, (server.world.rooms r).players[key]? = some q → q = p ∨ (c.server.world.rooms r).players[key]? = some q)
    (writes : call.writes server.world session = some (p,{server.world.players p with roomId := roomId}))
    (sound : call.Sound server.world session) :
    ∃ next, s.step (.packet worker session pkt) = some next ∧ Linearized (c.becomes server session call) next := by
  obtain ⟨mine,same⟩ := linearized.mine_same nothing owns
  have elsewhere {q : PlayerRef} (other : q ≠ p) : (there.moved p roomId).players q = s.world.players q := by
    rw [← playersThere]
    exact Function.update_of_ne other ..
  have keeps : Undisturbed c.server.world server.world fun q => (s.world.players q).ownerSession ≠ some session :=
    reseated manager players ids
  refine linearized.commits takes sessions ?_ rooms (countsThere.1.trans (linearized.playerCount.trans counts.1.symm))
    (countsThere.2.trans (linearized.roomCount.trans counts.2.symm)) told keeps
    (fun id q known other => elsewhere fun is => other ?_) (fun q here others => ?_) (fun q player will => ?_) sound
    (fun r key q seated => ?_) busy
  · rw [manager]
    exact managerThere.trans linearized.manager
  · rw [is]
    exact mine.2
  · have other : q ≠ p := fun is => here _ (is ▸ writes)
    rw [elsewhere other,players]
    exact linearized.nothing_same nothing others
  · rw [writes] at will
    cases will
    rw [players,← same,← playersThere]
    exact Function.update_self ..
  · rcases member r key q seated with rfl | before
    · exact .inr ⟨session,id,keeps.owned session id q owns⟩
    · exact .inl before

theorem recipients_players {players : List PlayerRef} {checked : Bool} : (players.map fun p => (p,checked)).map (·.1) = players := by
  rw [List.map_map]
  exact List.map_id _

theorem chatted {msg : Bytes} {player : Option Protocol.Player} {threads : Nat → IdleThread} (linearized : Linearized c s)
    (valid : s.world.Valid) (chatting : c.call session = .chatting msg player room) (free : c.lock room = none)
    (fits : (c.server.world.chat room (self player) msg).Fits) :
    ∃ next, s.step (.packet worker session (.cChatRoom msg player)) = some next ∧
      Linearized (c.becomes {c.server with threads := threads} session
        (.pushing room .broadcast (c.server.world.chat room (self player) msg)
          ((c.server.world.rooms room).members.map fun p => (p,true)))) next := by
  have busy : c.call session ≠ .idle := by simp [chatting]
  have nothing : (c.call session).writes c.server.world session = none := by rw [chatting]; rfl
  have sound := linearized.sound session
  rw [chatting] at sound
  obtain ⟨p,owns,housed⟩ := sound
  have found := World.roomOf_found housed
  obtain ⟨mine,same⟩ := linearized.mine_same nothing owns
  have chat : s.world.chat room (self player) msg = c.server.world.chat room (self player) msg := by
    unfold World.chat
    rw [linearized.rooms]
  have about : (c.server.world.chat room (self player) msg).newsOf = some (c.server.world.players p).roomId :=
    congrArg some (linearized.listed_id valid found)
  have belongs (q : PlayerRef) (member : q ∈ (c.server.world.rooms room).members) : (c.server.world.players q).ownerSession ≠ none := by
    obtain ⟨_,_,owns⟩ := linearized.members_owned room q member
    exact owns.owned
  refine linearized.idles busy (takes_chat (linearized.connected busy) (linearized.getPlayer_same.trans owns.1)
    ((linearized.roomOf_same same).trans housed) (by rwa [chat])) rfl rfl
    (linearized.told.begins linearized.sound (undisturbed rfl) rfl rfl rfl (linearized.listed_once valid found) (by rw [chatting]; rfl) free
      about found rfl ?_) nothing rfl (World.tells_all about found (linearized.members_owned room))
  rw [recipients_players,chat,linearized.rooms,linearized.toOwners_same _ belongs,roomNews_append]
  simp only [roomNews,List.filter_filter,Bool.and_self]

end Linearized

end IocpChatServer.GameServer
