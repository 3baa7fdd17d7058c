import Mathlib.Data.Finset.Basic
import IocpChatServer.Foundations.Table
import IocpChatServer.GameServer.HandlerResult

namespace IocpChatServer.GameServer
open Std ServerCore Protocol Foundations Table TransitionSystem

-- The calls of Room. Broadcast is given a chat message.
inductive MemberCall where
  | enter (worker : Nat) (player : PlayerRef)
  | leave (worker : Nat) (player : PlayerRef)
  | broadcast (chat : ChatMessage)
  deriving DecidableEq, Repr

structure Story where
  server : Server
  events : List ServerPacket

def replay (events : List ServerPacket) : Finset UInt64 :=
  events.foldl (fun ids event => match event with
    | .sRoomEvent .playerJoined _ id _ => insert id ids
    | .sRoomEvent .playerLeft _ id _ => ids.erase id
    | _ => ids) ∅

namespace Story
variable (room : RoomRef) (s : Story)

def step : MemberCall → Option Story
  | .enter worker player =>
    match s.server.enter worker room (some player) with
    | .ok (true,next) => some ⟨next,s.events ++ [next.world.roomEvent .playerJoined room player]⟩
    | .ok (false,next) => some ⟨next,s.events⟩
    | .error _ => none
  | .leave worker player =>
    match s.server.leave worker room (some player) with
    | .ok next => some ⟨next,s.events ++ [next.world.roomEvent .playerLeft room player]⟩
    | .error _ => none
  | .broadcast chat => some ⟨s.server.broadcast room (.sChatRoom chat),s.events⟩

def Able : MemberCall → Prop
  | .enter _ player => s.server.lock player ≠ none ∧
      ((s.server.world.rooms room).isFull = false → (s.server.world.joinedEvent room player).Fits)
  | .leave _ player => s.server.lock player ≠ none ∧ (s.server.world.leftEvent room player).Fits
  | .broadcast _ => True

instance : (call : MemberCall) → Decidable (s.Able room call)
  | .enter _ _ | .leave _ _ => inferInstanceAs (Decidable (_ ∧ _))
  | .broadcast _ => .isTrue trivial

def named (id : UInt64) (name : Bytes) (maxPlayerCount : UInt64) : Room := Room.setName {id := id} name maxPlayerCount

def size : Nat := (s.server.world.rooms room).players.size

def Tells (type : RoomEventType) (id : UInt64) (name : Bytes) (maxPlayerCount : UInt64) (w : World) (player : PlayerRef) : Prop :=
  ∃ count : UInt64, count.toNat = (w.rooms room).players.size ∧
    w.roomEvent type room player = .sRoomEvent type ⟨id,name,count,maxPlayerCount⟩ (w.players player).playerId (w.players player).name

-- What a call comes to: what becomes of the room, and who is told what.
def Accurate (id : UInt64) (name : Bytes) (maxPlayerCount : UInt64) : MemberCall → Prop
  | .enter worker player =>
    if maxPlayerCount.toNat ≤ s.size room then s.server.enter worker room (some player) = .ok (false,s.server)
    else ∃ next, s.server.enter worker room (some player) = .ok (true,next) ∧ next.world = s.server.world.entered room player ∧
      Tells room .playerJoined id name maxPlayerCount next.world player ∧
      next.sent = s.server.sent ++ s.server.toOwners (next.world.rooms room).members (next.world.roomEvent .playerJoined room player)
  | .leave worker player =>
    ∃ next, s.server.leave worker room (some player) = .ok next ∧ next.world = s.server.world.left room player ∧
      Tells room .playerLeft id name maxPlayerCount next.world player ∧
      next.sent = s.server.sent ++ s.server.toOwner player (next.world.roomEvent .playerLeft room player) ++
        s.server.toOwners (next.world.rooms room).members (next.world.roomEvent .playerLeft room player)
  | .broadcast chat => (s.server.broadcast room (.sChatRoom chat)).world = s.server.world ∧
      (s.server.broadcast room (.sChatRoom chat)).sent = s.server.sent ++ s.server.toOwners (s.server.world.rooms room).members (.sChatRoom chat)

structure Kept (id : UInt64) (name : Bytes) (maxPlayerCount : UInt64) (s : Story) : Prop where
  id : (s.server.world.rooms room).id = id
  name : (s.server.world.rooms room).name = name
  maximum : (s.server.world.rooms room).maxPlayerCount = maxPlayerCount
  size : s.size room ≤ maxPlayerCount.toNat
  members : ∀ key, key ∈ (s.server.world.rooms room).players ↔ key ∈ replay s.events
  live : ∀ (key : UInt64) (p : PlayerRef), (s.server.world.rooms room).players[key]? = some p → s.server.lock p ≠ none

variable {room : RoomRef} {s next : Story} {id maxPlayerCount : UInt64} {name : Bytes} {call : MemberCall} {calls : List MemberCall}
  {p : PlayerRef} {worker : Nat} {events : List ServerPacket}

theorem replay_joined (summary : RoomSummary) (key : UInt64) (nickname : Bytes) :
    replay (events ++ [.sRoomEvent .playerJoined summary key nickname]) = insert key (replay events) := by
  simp only [replay,List.foldl_append,List.foldl_cons,List.foldl_nil]

theorem replay_left (summary : RoomSummary) (key : UInt64) (nickname : Bytes) :
    replay (events ++ [.sRoomEvent .playerLeft summary key nickname]) = (replay events).erase key := by
  simp only [replay,List.foldl_append,List.foldl_cons,List.foldl_nil]

theorem count_exact (r : Room) (small : r.players.size ≤ maxPlayerCount.toNat) : r.getPlayerCount.toNat = r.players.size := by
  have bound := maxPlayerCount.toNat_lt
  rw [Room.getPlayerCount,UInt64.toNat_ofNat']
  omega

theorem Kept.full (kept : Kept room id name maxPlayerCount s) :
    (s.server.world.rooms room).isFull = true ↔ maxPlayerCount.toNat ≤ s.size room := by
  have count := count_exact _ kept.size
  simp only [Room.isFull,ge_iff_le,decide_eq_true_eq,UInt64.le_iff_toNat_le,count,kept.maximum]
  rfl

theorem Kept.alive (kept : Kept room id name maxPlayerCount s) (mine : s.server.lock p ≠ none) :
    (∀ member ∈ ((s.server.world.entered room p).rooms room).members, s.server.lock member ≠ none) ∧
      ∀ member ∈ ((s.server.world.left room p).rooms room).members, s.server.lock member ≠ none := by
  refine ⟨fun member listed => ?_,fun member listed => ?_⟩
  · obtain ⟨key,found⟩ := entries_exact.mp listed
    rw [World.entered,World.seated_room] at found
    rcases insert_exact.mp found with ⟨_,rfl⟩ | ⟨_,found⟩
    · exact mine
    · exact kept.live key member found
  · obtain ⟨key,found⟩ := entries_exact.mp listed
    rw [World.left,World.seated_room] at found
    exact kept.live key member (erase_exact.mp found).2

theorem Kept.tells (kept : Kept room id name maxPlayerCount s) {players : TreeMap UInt64 PlayerRef} (small : players.size ≤ maxPlayerCount.toNat)
    (type : RoomEventType) (p : PlayerRef) : Tells room type id name maxPlayerCount (s.server.world.seated room players) p := by
  have room_ := @World.seated_room s.server.world room players
  refine ⟨((s.server.world.seated room players).rooms room).getPlayerCount,?_,?_⟩
  · rw [room_]
    exact @count_exact maxPlayerCount _ small
  · simp only [World.roomEvent,Room.getSummary,room_,kept.id,kept.name,kept.maximum]

theorem Kept.entered_size (kept : Kept room id name maxPlayerCount s) (notFull : (s.server.world.rooms room).isFull = false) (p : PlayerRef) :
    ((s.server.world.rooms room).players.insert (s.server.world.players p).playerId p).size ≤ maxPlayerCount.toNat := by
  have below : ¬ maxPlayerCount.toNat ≤ s.size room := by
    rw [← kept.full]
    simp [notFull]
  refine Nat.le_trans TreeMap.size_insert_le ?_
  unfold Story.size at below
  omega

theorem Kept.left_size (kept : Kept room id name maxPlayerCount s) (p : PlayerRef) :
    ((s.server.world.rooms room).players.erase (s.server.world.players p).playerId).size ≤ maxPlayerCount.toNat :=
  Nat.le_trans TreeMap.size_erase_le kept.size

theorem Kept.enters (kept : Kept room id name maxPlayerCount s) (able : s.Able room (.enter worker p))
    (notFull : (s.server.world.rooms room).isFull = false) : ∃ threads, s.server.enter worker room (some p) =
      .ok (true,⟨s.server.world.entered room p,s.server.session,threads,
        s.server.sent ++ s.server.toOwners ((s.server.world.entered room p).rooms room).members (s.server.world.joinedEvent room p)⟩) := by
  obtain ⟨alive,fits⟩ := able
  rw [← bind_pure (s.server.enter worker room (some p))]
  refine @Server.enter_elim s.server worker _ (fun result => ∃ threads, result = .ok (true,⟨s.server.world.entered room p,s.server.session,threads,
    s.server.sent ++ s.server.toOwners ((s.server.world.entered room p).rooms room).members (s.server.world.joinedEvent room p)⟩))
    room (some p) pure (fun full => ?_) (fun nobody => ?_) (fun q same _ large => ?_) (fun q same _ _ expired => ?_)
    fun q same _ _ _ threads => ?_
  · rw [notFull] at full
    cases full
  · cases nobody
  · cases same
    exact absurd (fits notFull) large
  · cases same
    obtain ⟨member,listed,gone⟩ := expired
    exact absurd gone ((kept.alive alive).1 member listed)
  · cases same
    exact ⟨threads,rfl⟩

theorem Kept.leaves (kept : Kept room id name maxPlayerCount s) (able : s.Able room (.leave worker p)) :
    ∃ threads, s.server.leave worker room (some p) = .ok ⟨s.server.world.left room p,s.server.session,threads,
      s.server.sent ++ s.server.toOwner p (s.server.world.leftEvent room p) ++
        s.server.toOwners ((s.server.world.left room p).rooms room).members (s.server.world.leftEvent room p)⟩ := by
  obtain ⟨alive,fits⟩ := able
  rw [← bind_pure (s.server.leave worker room (some p))]
  refine @Server.leave_elim s.server worker _ (fun result => ∃ threads, result = .ok ⟨s.server.world.left room p,s.server.session,threads,
    s.server.sent ++ s.server.toOwner p (s.server.world.leftEvent room p) ++
      s.server.toOwners ((s.server.world.left room p).rooms room).members (s.server.world.leftEvent room p)⟩)
    pure room (some p) (fun nobody => ?_) (fun q same large => ?_) (fun q same _ expired => ?_) fun q same _ _ threads => ?_
  · cases nobody
  · cases same
    exact absurd fits large
  · cases same
    obtain ⟨member,listed,gone⟩ := expired
    exact absurd gone ((kept.alive alive).2 member listed)
  · cases same
    exact ⟨threads,rfl⟩

theorem enter_full (worker : Nat) (p : PlayerRef) (full : (s.server.world.rooms room).isFull = true) :
    s.server.enter worker room (some p) = .ok (false,s.server) := by
  simp [Server.enter,full,pure,Except.pure]

theorem Kept.accurate (kept : Kept room id name maxPlayerCount s) (able : s.Able room call) : s.Accurate room id name maxPlayerCount call := by
  cases call with
  | enter worker p =>
    simp only [Accurate]
    split
    · rename_i full
      exact enter_full worker p (kept.full.mpr full)
    · rename_i below
      have notFull : (s.server.world.rooms room).isFull = false := by simpa using mt kept.full.mp below
      obtain ⟨threads,entered⟩ := kept.enters able notFull
      exact ⟨_,entered,rfl,kept.tells (kept.entered_size notFull p) _ p,rfl⟩
  | leave worker p =>
    obtain ⟨threads,left⟩ := kept.leaves able
    exact ⟨_,left,rfl,kept.tells (kept.left_size p) _ p,rfl⟩
  | broadcast chat =>
    simp only [Accurate,Server.broadcast_sent,and_self]

theorem step_kept (s : Story) (call : MemberCall) (next : Story) (kept : Kept room id name maxPlayerCount s)
    (taken : Guarded (Enabled (step room)) (Able room) s call next) : Kept room id name maxPlayerCount next := by
  obtain ⟨taken,able⟩ := taken
  simp only [Enabled] at taken
  cases call with
  | enter worker p =>
    simp only [step] at taken
    cases isFull : (s.server.world.rooms room).isFull with
    | true =>
      rw [enter_full worker p isFull] at taken
      cases taken
      exact kept
    | false =>
      obtain ⟨threads,entered⟩ := kept.enters able isFull
      rw [entered] at taken
      cases taken
      have room_ := @World.seated_room s.server.world room ((s.server.world.rooms room).players.insert (s.server.world.players p).playerId p)
      have small := kept.entered_size isFull p
      refine ⟨?_,?_,?_,?_,fun key => ?_,fun key q found => ?_⟩
      · simp only [World.entered,room_,kept.id]
      · simp only [World.entered,room_,kept.name]
      · simp only [World.entered,room_,kept.maximum]
      · simpa only [Story.size,World.entered,room_] using small
      · simp only [World.entered,room_,World.roomEvent,replay_joined,TreeMap.mem_insert,Finset.mem_insert,kept.members]
        exact or_congr (compare_eq_iff_eq.trans eq_comm) Iff.rfl
      · simp only [World.entered,room_] at found
        rcases insert_exact.mp found with ⟨_,rfl⟩ | ⟨_,found⟩
        · exact able.1
        · exact kept.live key q found
  | leave worker p =>
    simp only [step] at taken
    obtain ⟨threads,left⟩ := kept.leaves able
    rw [left] at taken
    cases taken
    have room_ := @World.seated_room s.server.world room ((s.server.world.rooms room).players.erase (s.server.world.players p).playerId)
    have small := kept.left_size p
    refine ⟨?_,?_,?_,?_,fun key => ?_,fun key q found => ?_⟩
    · simp only [World.left,room_,kept.id]
    · simp only [World.left,room_,kept.name]
    · simp only [World.left,room_,kept.maximum]
    · simpa only [Story.size,World.left,room_] using small
    · simp only [World.left,room_,World.roomEvent,replay_left,TreeMap.mem_erase,Finset.mem_erase,kept.members]
      exact and_congr (not_congr (compare_eq_iff_eq.trans eq_comm)) Iff.rfl
    · simp only [World.left,room_] at found
      exact kept.live key q (erase_exact.mp found).2
  | broadcast chat =>
    simp only [step,Server.broadcast_sent] at taken
    cases taken
    exact ⟨kept.id,kept.name,kept.maximum,kept.size,kept.members,kept.live⟩

theorem room_capacity {server : Server} (fresh : server.world.rooms room = named id name maxPlayerCount)
    (path : Runs (Guarded (Enabled (step room)) (Able room)) ⟨server,[]⟩ calls s) : s.size room ≤ maxPlayerCount.toNat ∧
      (∀ key, key ∈ (s.server.world.rooms room).players ↔ key ∈ replay s.events) ∧
      ∀ call, s.Able room call → s.Accurate room id name maxPlayerCount call := by
  have start : Kept room id name maxPlayerCount ⟨server,[]⟩ := by
    refine ⟨?_,?_,?_,?_,fun key => ?_,fun key p found => ?_⟩
    · simp only [fresh,named,Room.setName]
    · simp only [fresh,named,Room.setName]
    · simp only [fresh,named,Room.setName]
    · simp [Story.size,fresh,named,Room.setName]
    · simp [fresh,named,Room.setName,replay]
    · simp [fresh,named,Room.setName] at found
  have kept := path.invariant step_kept start
  exact ⟨kept.size,kept.members,fun call able => kept.accurate able⟩

-- A room for one player. Another one is turned away, leaves all the same, and hears nothing of the chat.
def one : Server := ⟨{players := fun p => {playerId := if p = 0 then 1 else 2,name := ascii "kim",ownerSession := some 0}
                      rooms := fun _ => named 5 (ascii "hall") 1},fun _ => .connected,fun _ => .start,[]⟩

theorem room_capacity_one : ∃ s, Runs (Guarded (Enabled (step 0)) (Able 0)) ⟨one,[]⟩ [.enter 0 0,.enter 0 1,.leave 0 1,.broadcast ⟨5,1,[],[],0⟩] s ∧
    s.size 0 ≤ (1 : UInt64).toNat ∧ (∀ key, key ∈ (s.server.world.rooms 0).players ↔ key ∈ replay s.events) ∧
    ∀ call, s.Able 0 call → s.Accurate 0 5 (ascii "hall") 1 call := by
  have path : Runs (Guarded (Enabled (step 0)) (Able 0)) ⟨one,[]⟩ [.enter 0 0,.enter 0 1,.leave 0 1,.broadcast ⟨5,1,[],[],0⟩] _ := guard_runs rfl
  exact ⟨_,path,room_capacity rfl path⟩

end Story
end IocpChatServer.GameServer
