import IocpChatServer.Foundations.Index
import IocpChatServer.Foundations.TransitionSystem
import IocpChatServer.GameServer.World

namespace IocpChatServer.GameServer
open Std Foundations Index TransitionSystem

namespace World

def PlayersIndexed (w : World) (accepted : List PlayerRef) : Prop :=
  Indexed w.manager.playerNameToId w.manager.playerIdToPlayer (fun p => (w.players p).name)
    (fun p => (w.players p).playerId) w.manager.playerId accepted

def RoomsIndexed (w : World) (accepted : List RoomRef) : Prop :=
  Indexed w.manager.roomNameToId w.manager.roomIdToRoom (fun r => (w.rooms r).name) (fun r => (w.rooms r).id)
    w.manager.roomId accepted

variable {w : World} {accepted rooms players : List Nat} {p : PlayerRef} {r : RoomRef}

theorem addPlayer_refused (taken : (w.players p).name ∈ w.manager.playerNameToId) : w.addPlayer p = (false,w) := by
  simp [addPlayer,taken]

theorem addPlayer_accepted (free : (w.players p).name ∉ w.manager.playerNameToId) (new : p ∉ accepted)
    (few : accepted.length + 1 < 2^64) (indexed : PlayersIndexed w accepted) :
    PlayersIndexed (w.addPlayer p).2 (accepted ++ [p]) := by
  -- writing the new id into the object touches none of those registered before
  have kept : Indexed w.manager.playerNameToId w.manager.playerIdToPlayer (fun q => (((w.addPlayer p).2).players q).name)
      (fun q => (((w.addPlayer p).2).players q).playerId) w.manager.playerId accepted := by
    refine indexed.congr fun q member => ?_
    have other : q ≠ p := fun same => new (same ▸ member)
    simp [addPlayer,free,setPlayer,other]
  have name : (((w.addPlayer p).2).players p).name = (w.players p).name := by simp [addPlayer,free,setPlayer]
  have added := kept.add few (name ▸ free) (by simp [addPlayer,free,setPlayer])
  simpa [PlayersIndexed,addPlayer,free,setPlayer] using added

theorem addPlayer_rooms (indexed : RoomsIndexed w rooms) : RoomsIndexed (w.addPlayer p).2 rooms := by
  simp only [addPlayer]
  split
  · exact indexed
  · exact indexed

theorem removePlayer_indexed (few : accepted.length < 2^64) (member : p ∈ accepted) (indexed : PlayersIndexed w accepted) :
    PlayersIndexed (w.removePlayer p).2 accepted := by
  by_cases listed : (w.players p).playerId ∈ w.manager.playerIdToPlayer
  · have removed := Indexed.remove indexed few member listed
    simpa [PlayersIndexed,removePlayer,listed] using removed
  · simpa [removePlayer,listed] using indexed

theorem removePlayer_rooms (indexed : RoomsIndexed w rooms) : RoomsIndexed (w.removePlayer p).2 rooms := by
  simp only [removePlayer]
  split
  · exact indexed
  · exact indexed

theorem addRoom_refused (taken : (w.rooms r).name ∈ w.manager.roomNameToId) : w.addRoom r = (false,w) := by
  simp [addRoom,taken]

theorem addRoom_accepted (free : (w.rooms r).name ∉ w.manager.roomNameToId) (new : r ∉ accepted)
    (few : accepted.length + 1 < 2^64) (indexed : RoomsIndexed w accepted) :
    RoomsIndexed (w.addRoom r).2 (accepted ++ [r]) := by
  have kept : Indexed w.manager.roomNameToId w.manager.roomIdToRoom (fun q => (((w.addRoom r).2).rooms q).name)
      (fun q => (((w.addRoom r).2).rooms q).id) w.manager.roomId accepted := by
    refine indexed.congr fun q member => ?_
    have other : q ≠ r := fun same => new (same ▸ member)
    simp [addRoom,free,setRoom,other]
  have name : (((w.addRoom r).2).rooms r).name = (w.rooms r).name := by simp [addRoom,free,setRoom]
  have added := kept.add few (name ▸ free) (by simp [addRoom,free,setRoom])
  simpa [RoomsIndexed,addRoom,free,setRoom] using added

theorem addRoom_players (indexed : PlayersIndexed w players) : PlayersIndexed (w.addRoom r).2 players := by
  simp only [addRoom]
  split
  · exact indexed
  · exact indexed

theorem removeRoom_indexed (few : accepted.length < 2^64) (member : r ∈ accepted) (indexed : RoomsIndexed w accepted) :
    RoomsIndexed (w.removeRoom (some r)).2 accepted := by
  by_cases listed : (w.rooms r).id ∈ w.manager.roomIdToRoom
  · have removed := Indexed.remove indexed few member listed
    simpa [RoomsIndexed,removeRoom,listed] using removed
  · simpa [removeRoom,listed] using indexed

theorem removeRoom_players (indexed : PlayersIndexed w players) : PlayersIndexed (w.removeRoom (some r)).2 players := by
  simp only [removeRoom]
  split
  · exact indexed
  · exact indexed

end World

-- The manager with the objects AddPlayer and AddRoom have ever accepted, in order.
structure Calls where
  world : World
  players : List PlayerRef
  rooms : List RoomRef

-- Besides the four calls, the owners of the objects may write to them.
inductive Call where
  | addPlayer (player : Option PlayerRef)
  | removePlayer (player : PlayerRef)
  | addRoom (room : RoomRef)
  | removeRoom (room : Option RoomRef)
  | writePlayer (player : PlayerRef) (value : Player)
  | writeRoom (room : RoomRef) (value : Room)

def Call.isAddition : Call → Bool
  | .addPlayer _ | .addRoom _ => true
  | _ => false

namespace Calls

def start : Calls := ⟨{},[],[]⟩

-- An object is added while it has never been accepted and removed only after it has been;
-- its name and id stay as they are from then on. Each call runs under the manager's lock.
def step (s : Calls) : Call → Option Calls
  | .addPlayer none => some s
  | .addPlayer (some p) =>
    if p ∈ s.players then none
    else
      let (added,world) := s.world.addPlayer p
      some {s with world := world,players := if added then s.players ++ [p] else s.players}
  | .removePlayer p => if p ∈ s.players then some {s with world := (s.world.removePlayer p).2} else none
  | .addRoom r =>
    if r ∈ s.rooms then none
    else
      let (added,world) := s.world.addRoom r
      some {s with world := world,rooms := if added then s.rooms ++ [r] else s.rooms}
  | .removeRoom none => some s
  | .removeRoom (some r) => if r ∈ s.rooms then some {s with world := (s.world.removeRoom (some r)).2} else none
  | .writePlayer p value =>
    if p ∈ s.players → value.name = (s.world.players p).name ∧ value.playerId = (s.world.players p).playerId then
      some {s with world := s.world.setPlayer p value}
    else none
  | .writeRoom r value =>
    if r ∈ s.rooms → value.name = (s.world.rooms r).name ∧ value.id = (s.world.rooms r).id then
      some {s with world := s.world.setRoom r value}
    else none

inductive Does (s : Calls) : Call → Calls → Prop where
  | refused : Does s call s
  | playerAdded (new : p ∉ s.players) (free : (s.world.players p).name ∉ s.world.manager.playerNameToId) :
      Does s (.addPlayer (some p)) {s with world := (s.world.addPlayer p).2,players := s.players ++ [p]}
  | playerRemoved (member : p ∈ s.players) : Does s (.removePlayer p) {s with world := (s.world.removePlayer p).2}
  | roomAdded (new : r ∉ s.rooms) (free : (s.world.rooms r).name ∉ s.world.manager.roomNameToId) :
      Does s (.addRoom r) {s with world := (s.world.addRoom r).2,rooms := s.rooms ++ [r]}
  | roomRemoved (member : r ∈ s.rooms) : Does s (.removeRoom (some r)) {s with world := (s.world.removeRoom (some r)).2}
  | playerWritten (value : Player)
      (same : p ∈ s.players → value.name = (s.world.players p).name ∧ value.playerId = (s.world.players p).playerId) :
      Does s (.writePlayer p value) {s with world := s.world.setPlayer p value}
  | roomWritten (value : Room)
      (same : r ∈ s.rooms → value.name = (s.world.rooms r).name ∧ value.id = (s.world.rooms r).id) :
      Does s (.writeRoom r value) {s with world := s.world.setRoom r value}

variable {s next : Calls} {call : Call} {events : List Call}

theorem step_does (taken : step s call = some next) : Does s call next := by
  cases call with
  | addPlayer player =>
    cases player with
    | none =>
      cases taken
      exact .refused
    | some p =>
      simp only [step] at taken
      split at taken
      · cases taken
      · rename_i new
        by_cases free : (s.world.players p).name ∈ s.world.manager.playerNameToId
        · rw [World.addPlayer_refused free] at taken
          cases taken
          exact .refused
        · have answer : (s.world.addPlayer p).1 = true := by simp [World.addPlayer,free]
          simp only [answer,if_true] at taken
          cases taken
          exact .playerAdded new free
  | removePlayer p =>
    simp only [step] at taken
    split at taken
    · rename_i member
      cases taken
      exact .playerRemoved member
    · cases taken
  | addRoom r =>
    simp only [step] at taken
    split at taken
    · cases taken
    · rename_i new
      by_cases free : (s.world.rooms r).name ∈ s.world.manager.roomNameToId
      · rw [World.addRoom_refused free] at taken
        cases taken
        exact .refused
      · have answer : (s.world.addRoom r).1 = true := by simp [World.addRoom,free]
        simp only [answer,if_true] at taken
        cases taken
        exact .roomAdded new free
  | removeRoom room =>
    cases room with
    | none =>
      cases taken
      exact .refused
    | some r =>
      simp only [step] at taken
      split at taken
      · rename_i member
        cases taken
        exact .roomRemoved member
      · cases taken
  | writePlayer p value =>
    simp only [step] at taken
    split at taken
    · rename_i same
      cases taken
      exact .playerWritten value same
    · cases taken
  | writeRoom r value =>
    simp only [step] at taken
    split at taken
    · rename_i same
      cases taken
      exact .roomWritten value same
    · cases taken

structure Valid (s : Calls) : Prop where
  players : s.players.length < 2^64 → s.world.PlayersIndexed s.players
  rooms : s.rooms.length < 2^64 → s.world.RoomsIndexed s.rooms

theorem start_valid : Valid start := ⟨fun _ => empty_indexed,fun _ => empty_indexed⟩

theorem step_valid (s : Calls) (call : Call) (next : Calls) (valid : Valid s) (taken : step s call = some next) :
    Valid next := by
  obtain ⟨players,rooms⟩ := valid
  cases step_does taken with
  | refused => exact ⟨players,rooms⟩
  | playerAdded new free =>
    refine ⟨fun few => ?_,fun few => World.addPlayer_rooms (rooms few)⟩
    simp only [List.length_append,List.length_singleton] at few
    exact World.addPlayer_accepted free new few (players (by omega))
  | playerRemoved member =>
    exact ⟨fun few => World.removePlayer_indexed few member (players few),fun few => World.removePlayer_rooms (rooms few)⟩
  | roomAdded new free =>
    refine ⟨fun few => World.addRoom_players (players few),fun few => ?_⟩
    simp only [List.length_append,List.length_singleton] at few
    exact World.addRoom_accepted free new few (rooms (by omega))
  | roomRemoved member =>
    exact ⟨fun few => World.removeRoom_players (players few),fun few => World.removeRoom_indexed few member (rooms few)⟩
  | @playerWritten p value same =>
    refine ⟨fun few => (players few).congr fun q member => ?_,rooms⟩
    by_cases here : q = p
    · subst here
      simpa [World.setPlayer] using same member
    · simp [World.setPlayer,here]
  | @roomWritten r value same =>
    refine ⟨players,fun few => (rooms few).congr fun q member => ?_⟩
    by_cases here : q = r
    · subst here
      simpa [World.setRoom] using same member
    · simp [World.setRoom,here]

theorem step_additions (taken : step s call = some next) :
    next.players.length + next.rooms.length ≤ s.players.length + s.rooms.length + if call.isAddition then 1 else 0 := by
  cases step_does taken with
  | refused => exact Nat.le_add_right _ _
  | playerAdded | roomAdded =>
    simp only [Call.isAddition,if_true,List.length_append,List.length_singleton]
    omega
  | playerRemoved | roomRemoved | playerWritten | roomWritten => exact Nat.le_add_right _ _

theorem runs_additions (path : Runs (Enabled step) start events s) :
    s.players.length + s.rooms.length ≤ (events.filter Call.isAddition).length := by
  induction path with
  | nil => exact Nat.le_refl 0
  | @step earlier middle call next _ taken ih =>
    have more := step_additions taken
    rw [List.filter_append,List.length_append]
    cases addition : call.isAddition with
    | true =>
      simp only [addition,if_true,List.filter_cons,List.filter_nil,List.length_singleton] at more ⊢
      omega
    | false =>
      simp only [addition,Bool.false_eq_true,if_false,List.filter_cons,List.filter_nil,List.length_nil] at more ⊢
      omega

end Calls

structure World.IndexesAgree (w : World) : Prop where
  playerSizes : w.manager.playerNameToId.size = w.manager.playerIdToPlayer.size
  players : ∀ (name : Bytes) (id : UInt64), w.manager.playerNameToId[name]? = some id ↔
    ∃ p, w.manager.playerIdToPlayer[id]? = some p ∧ (w.players p).name = name ∧ (w.players p).playerId = id
  getPlayer : ∀ name p, w.getPlayerByName name = some p ↔
    (w.players p).name = name ∧ w.getPlayer (w.players p).playerId = some p
  roomSizes : w.manager.roomNameToId.size = w.manager.roomIdToRoom.size
  rooms : ∀ (name : Bytes) (id : UInt64), w.manager.roomNameToId[name]? = some id ↔
    ∃ r, w.manager.roomIdToRoom[id]? = some r ∧ (w.rooms r).name = name ∧ (w.rooms r).id = id
  getRoom : ∀ name r, w.getRoomByName name = some r ↔ (w.rooms r).name = name ∧ w.getRoom (w.rooms r).id = some r

structure World.FailuresHarmless (w : World) : Prop where
  addPlayer : ∀ p, (w.addPlayer p).1 = false → (w.addPlayer p).2.manager = w.manager
  removePlayer : ∀ p, (w.removePlayer p).1 = false → (w.removePlayer p).2.manager = w.manager
  addRoom : ∀ r, (w.addRoom r).1 = false → (w.addRoom r).2.manager = w.manager
  removeRoom : ∀ r, (w.removeRoom r).1 = false → (w.removeRoom r).2.manager = w.manager

namespace World
variable {w : World} {accepted rooms : List Nat}

theorem failures_harmless (w : World) : FailuresHarmless w where
  addPlayer p refused := by
    by_cases taken : (w.players p).name ∈ w.manager.playerNameToId <;> simp [World.addPlayer,taken] at refused ⊢
  removePlayer p refused := by
    by_cases listed : (w.players p).playerId ∈ w.manager.playerIdToPlayer <;> simp [World.removePlayer,listed] at refused ⊢
  addRoom r refused := by
    by_cases taken : (w.rooms r).name ∈ w.manager.roomNameToId <;> simp [World.addRoom,taken] at refused ⊢
  removeRoom room refused := by
    cases room with
    | none => rfl
    | some r => by_cases listed : (w.rooms r).id ∈ w.manager.roomIdToRoom <;> simp [World.removeRoom,listed] at refused ⊢

theorem indexes_agree (players : PlayersIndexed w accepted) (listed : RoomsIndexed w rooms) : IndexesAgree w where
  playerSizes := players.size
  players name id := players.exact name id
  getPlayer name p := by
    simp only [getPlayerByName,World.getPlayer,Option.bind_eq_some_iff]
    constructor
    · intro given
      obtain ⟨id,named,found⟩ := given
      obtain ⟨q,foundToo,here,keyed⟩ := (players.exact name id).mp named
      cases found.symm.trans foundToo
      exact ⟨here,keyed ▸ found⟩
    · intro given
      obtain ⟨here,found⟩ := given
      exact ⟨_,(players.exact name _).mpr ⟨p,found,here,rfl⟩,found⟩
  roomSizes := listed.size
  rooms name id := listed.exact name id
  getRoom name r := by
    simp only [getRoomByName,World.getRoom,Option.bind_eq_some_iff]
    constructor
    · intro given
      obtain ⟨id,named,found⟩ := given
      obtain ⟨q,foundToo,here,keyed⟩ := (listed.exact name id).mp named
      cases found.symm.trans foundToo
      exact ⟨here,keyed ▸ found⟩
    · intro given
      obtain ⟨here,found⟩ := given
      exact ⟨_,(listed.exact name _).mpr ⟨r,found,here,rfl⟩,found⟩

end World

namespace Calls
variable {s : Calls} {events : List Call}

theorem indexes_inverse (path : Runs (Enabled step) start events s)
    (few : (events.filter Call.isAddition).length < 2^64) :
    s.world.IndexesAgree ∧ (s.players.map fun p => (s.world.players p).playerId).Nodup ∧
      (s.rooms.map fun r => (s.world.rooms r).id).Nodup ∧ s.world.FailuresHarmless := by
  have accepted := runs_additions path
  obtain ⟨players,rooms⟩ := path.invariant step_valid start_valid
  have players := players (by omega)
  have rooms := rooms (by omega)
  exact ⟨World.indexes_agree players rooms,players.ids_nodup (by omega),rooms.ids_nodup (by omega),
    World.failures_harmless s.world⟩

-- A name comes back under a new id, while a third object of that name is refused.
def renewal : List Call :=
  [.writePlayer 0 {name := [97]},.addPlayer (some 0),.removePlayer 0,.writePlayer 1 {name := [97]},.addPlayer (some 1),
    .writePlayer 2 {name := [97]},.addPlayer (some 2),.removePlayer 0]

theorem indexes_inverse_renewal : ∃ s, Runs (Enabled step) start renewal s ∧ s.players = [0,1] ∧
    s.world.getPlayerByName [97] = some 1 ∧ s.world.getPlayer 2 = some 1 ∧ s.world.IndexesAgree := by
  have path : Runs (Enabled step) start renewal _ := execute_runs rfl
  exact ⟨_,path,rfl,rfl,rfl,(indexes_inverse path (by decide)).1⟩

end Calls
end IocpChatServer.GameServer
