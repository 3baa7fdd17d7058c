import IocpChatServer.Foundations.TransitionSystem
import IocpChatServer.GameServer.World

namespace IocpChatServer.GameServer
open Std Foundations TransitionSystem

-- The manager, the objects made for it, and those of them that AddPlayer and AddRoom have
-- accepted.
structure Registrations where
  world : World := {}
  players : List PlayerRef := []
  rooms : List RoomRef := []

-- The handlers make a Player with a name and the id 1, and a Room with a name.
inductive Request where
  | makePlayer (name : Bytes)
  | addPlayer (player : PlayerRef)
  | removePlayer (player : PlayerRef)
  | makeRoom (name : Bytes)
  | addRoom (room : RoomRef)
  | removeRoom (room : RoomRef)
  deriving DecidableEq, Repr

def Untouched (w : World) (result : Bool × World) : Prop := result.1 = false ∧ result.2.manager = w.manager

namespace Registrations
variable (s : Registrations)

def addPlayer (player : PlayerRef) : Registrations :=
  let (accepted,world) := s.world.addPlayer player
  {s with world := world,players := if accepted then player :: s.players else s.players}

def addRoom (room : RoomRef) : Registrations :=
  let (accepted,world) := s.world.addRoom room
  {s with world := world,rooms := if accepted then room :: s.rooms else s.rooms}

def step : Request → Option Registrations
  | .makePlayer name => some {s with world := (s.world.makePlayer {playerId := 1,name := name}).2}
  | .addPlayer player => if player < s.world.playerCount then some (s.addPlayer player) else none
  | .removePlayer player => if player < s.world.playerCount then some {s with world := (s.world.removePlayer player).2} else none
  | .makeRoom name => some {s with world := (s.world.makeRoom (Room.setName {} name)).2}
  | .addRoom room => if room < s.world.roomCount then some (s.addRoom room) else none
  | .removeRoom room => if room < s.world.roomCount then some {s with world := (s.world.removeRoom (some room)).2} else none

-- An object that was never accepted has the id it was made with. The ids of rooms start at 1.
structure Provisional (s : Registrations) : Prop where
  players : ∀ p < s.world.playerCount, p ∉ s.players → (s.world.players p).playerId = 1
  rooms : ∀ r < s.world.roomCount, r ∉ s.rooms → (s.world.rooms r).id = 0
  given : s.rooms.length + 1 < 2^64 → s.world.manager.roomId.toNat = s.rooms.length + 1 ∧ 0 ∉ s.world.manager.roomIdToRoom

variable {s next : Registrations} {request : Request} {requests : List Request} {p : PlayerRef} {r : RoomRef}

theorem start_provisional : Provisional {} where
  players p made := absurd made (Nat.not_lt_zero p)
  rooms r made := absurd made (Nat.not_lt_zero r)
  given _ := ⟨rfl,by simp⟩

theorem makePlayer_provisional (provisional : Provisional s) (name : Bytes) :
    Provisional {s with world := (s.world.makePlayer {playerId := 1,name := name}).2} where
  players p made never := by
    by_cases new : p = s.world.playerCount
    · subst new
      simp [World.makePlayer,World.setPlayer]
    · have old : p < s.world.playerCount := Nat.lt_of_le_of_ne (Nat.le_of_lt_succ made) new
      simpa [World.makePlayer,World.setPlayer,new] using provisional.players p old never
  rooms := provisional.rooms
  given := provisional.given

theorem makeRoom_provisional (provisional : Provisional s) (name : Bytes) :
    Provisional {s with world := (s.world.makeRoom (Room.setName {} name)).2} where
  players := provisional.players
  rooms r made never := by
    by_cases new : r = s.world.roomCount
    · subst new
      simp [World.makeRoom,World.setRoom,Room.setName]
    · have old : r < s.world.roomCount := Nat.lt_of_le_of_ne (Nat.le_of_lt_succ made) new
      simpa [World.makeRoom,World.setRoom,new] using provisional.rooms r old never
  given := provisional.given

theorem addPlayer_provisional (provisional : Provisional s) (p : PlayerRef) : Provisional (s.addPlayer p) := by
  by_cases taken : (s.world.players p).name ∈ s.world.manager.playerNameToId
  · simpa [addPlayer,World.addPlayer,taken] using provisional
  · simp only [addPlayer,World.addPlayer,taken,if_false,if_true]
    refine ⟨fun q made never => ?_,provisional.rooms,provisional.given⟩
    obtain ⟨other,never⟩ := not_or.mp (mt List.mem_cons.mpr never)
    simpa [World.setPlayer,other] using provisional.players q made never

theorem addRoom_provisional (provisional : Provisional s) (r : RoomRef) : Provisional (s.addRoom r) := by
  by_cases taken : (s.world.rooms r).name ∈ s.world.manager.roomNameToId
  · simpa [addRoom,World.addRoom,taken] using provisional
  · simp only [addRoom,World.addRoom,taken,if_false,if_true]
    refine ⟨provisional.players,fun q made never => ?_,fun few => ?_⟩
    · obtain ⟨other,never⟩ := not_or.mp (mt List.mem_cons.mpr never)
      simpa [World.setRoom,other] using provisional.rooms q made never
    · rw [List.length_cons] at few ⊢
      obtain ⟨counter,none⟩ := provisional.given (by omega)
      have one : (1 : UInt64).toNat = 1 := rfl
      refine ⟨?_,?_⟩
      · dsimp only
        rw [UInt64.toNat_add,counter,one]
        omega
      · have positive : s.world.manager.roomId ≠ 0 := by
          intro zero
          rw [zero] at counter
          exact absurd counter (Nat.succ_ne_zero _).symm
        dsimp only
        rw [TreeMap.mem_insert]
        simp [none,positive]

theorem removePlayer_provisional (provisional : Provisional s) (p : PlayerRef) : Provisional {s with world := (s.world.removePlayer p).2} := by
  unfold World.removePlayer
  dsimp only
  split
  · exact ⟨provisional.players,provisional.rooms,provisional.given⟩
  · exact provisional

theorem removeRoom_provisional (provisional : Provisional s) (r : RoomRef) : Provisional {s with world := (s.world.removeRoom (some r)).2} := by
  unfold World.removeRoom
  dsimp only
  split
  · refine ⟨provisional.players,provisional.rooms,fun few => ?_⟩
    obtain ⟨counter,none⟩ := provisional.given few
    exact ⟨counter,fun member => none (TreeMap.mem_of_mem_erase member)⟩
  · exact provisional

theorem step_provisional (s : Registrations) (request : Request) (next : Registrations) (provisional : Provisional s)
    (taken : Enabled step s request next) : Provisional next := by
  unfold Enabled step at taken
  cases request with
  | makePlayer name =>
    cases taken
    exact makePlayer_provisional provisional name
  | makeRoom name =>
    cases taken
    exact makeRoom_provisional provisional name
  | addPlayer p =>
    simp only at taken
    split at taken
    · cases taken
      exact addPlayer_provisional provisional p
    · cases taken
  | removePlayer p =>
    simp only at taken
    split at taken
    · cases taken
      exact removePlayer_provisional provisional p
    · cases taken
  | addRoom r =>
    simp only at taken
    split at taken
    · cases taken
      exact addRoom_provisional provisional r
    · cases taken
  | removeRoom r =>
    simp only at taken
    split at taken
    · cases taken
      exact removeRoom_provisional provisional r
    · cases taken

theorem runs_provisional (path : Runs (Enabled step) {} requests s) : Provisional s := path.invariant step_provisional start_provisional

theorem removePlayer_untouched (w : World) (p : PlayerRef) : Untouched w (w.removePlayer p) ↔ (w.players p).playerId ∉ w.manager.playerIdToPlayer := by
  unfold Untouched World.removePlayer
  by_cases listed : (w.players p).playerId ∈ w.manager.playerIdToPlayer
  · simp [listed]
  · simp [listed]

theorem removeRoom_untouched (w : World) (r : RoomRef) : Untouched w (w.removeRoom (some r)) ↔ (w.rooms r).id ∉ w.manager.roomIdToRoom := by
  unfold Untouched World.removeRoom
  by_cases listed : (w.rooms r).id ∈ w.manager.roomIdToRoom
  · simp [listed]
  · simp [listed]

-- To remove an object that was never accepted is to remove whoever has the id it was made with.
theorem removal_exact (path : Runs (Enabled step) {} requests s) :
    (∀ p < s.world.playerCount, p ∉ s.players → (Untouched s.world (s.world.removePlayer p) ↔ 1 ∉ s.world.manager.playerIdToPlayer)) ∧
      ∀ r < s.world.roomCount, r ∉ s.rooms → (Untouched s.world (s.world.removeRoom (some r)) ↔ 0 ∉ s.world.manager.roomIdToRoom) := by
  have provisional := runs_provisional path
  refine ⟨fun p made never => ?_,fun r made never => ?_⟩
  · rw [removePlayer_untouched,provisional.players p made never]
  · rw [removeRoom_untouched,provisional.rooms r made never]

-- The id of a Room is not given to any other before the counter has gone round.
theorem rooms_untouched (path : Runs (Enabled step) {} requests s) (few : s.rooms.length + 1 < 2^64) (made : r < s.world.roomCount)
    (never : r ∉ s.rooms) : Untouched s.world (s.world.removeRoom (some r)) := by
  have provisional := runs_provisional path
  rw [removeRoom_untouched,provisional.rooms r made never]
  exact (provisional.given few).2

def sameName : List Request := [.makePlayer (ascii "kim"),.addPlayer 0,.makePlayer (ascii "kim"),.addPlayer 1]

theorem sameName_run : ∃ s, Runs (Enabled step) {} sameName s ∧ s.players = [0] ∧ s.world.playerCount = 2 ∧
    1 ∈ s.world.manager.playerIdToPlayer := ⟨_,execute_runs rfl,rfl,rfl,by decide⟩

theorem removal_exact_same_name : ∃ s, Runs (Enabled step) {} sameName s ∧
    (Untouched s.world (s.world.removePlayer 1) ↔ 1 ∉ s.world.manager.playerIdToPlayer) := by
  obtain ⟨s,path,accepted,count,_⟩ := sameName_run
  exact ⟨s,path,(removal_exact path).1 1 (by rw [count]; decide) (by rw [accepted]; decide)⟩

-- The one who was turned away takes the other one out of both maps.
theorem removal_evicts : ¬ ∀ requests s, Runs (Enabled step) {} requests s →
    (∀ p < s.world.playerCount, p ∉ s.players → Untouched s.world (s.world.removePlayer p)) ∧
      ∀ r < s.world.roomCount, r ∉ s.rooms → Untouched s.world (s.world.removeRoom (some r)) := by
  intro every
  obtain ⟨s,path,accepted,count,listed⟩ := sameName_run
  have untouched := (every _ s path).1 1 (by rw [count]; decide) (by rw [accepted]; decide)
  have provisional := (runs_provisional path).players 1 (by rw [count]; decide) (by rw [accepted]; decide)
  rw [removePlayer_untouched,provisional] at untouched
  exact untouched listed

end Registrations
end IocpChatServer.GameServer
