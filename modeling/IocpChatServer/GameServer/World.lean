import Std.Data.TreeMap.Lemmas
import Mathlib.Logic.Function.Basic
import IocpChatServer.GameServer.Protocol

namespace IocpChatServer.GameServer
open Std

-- What a shared_ptr points to is found by its number; a null one is `none`.
abbrev PlayerRef := Nat
abbrev RoomRef := Nat
abbrev SessionRef := Nat

-- `(uint64)-1`.
def noRoom : UInt64 := 0xFFFFFFFFFFFFFFFF

structure Player where
  playerId : UInt64 := 0
  name : Bytes := []
  roomId : UInt64 := 0
  ownerSession : Option SessionRef := none
  deriving DecidableEq, Repr

structure Room where
  players : TreeMap UInt64 PlayerRef := {}
  name : Bytes := []
  id : UInt64 := 0
  maxPlayerCount : UInt64 := 0

namespace Room

def setName (r : Room) (name : Bytes) (maxPlayerCount : UInt64 := 16) : Room :=
  {r with name := name,maxPlayerCount := maxPlayerCount}

def getPlayerCount (r : Room) : UInt64 := UInt64.ofNat r.players.size

def getSummary (r : Room) : Protocol.RoomSummary := ⟨r.id,r.name,r.getPlayerCount,r.maxPlayerCount⟩

def isFull (r : Room) : Bool := r.getPlayerCount ≥ r.maxPlayerCount

def members (r : Room) : List PlayerRef := r.players.toList.map (·.2)

end Room

-- unordered_map where the code looks up, and for the rooms a map walked in the order of the
-- ids, an order the code leaves open.
structure GameSessionManager where
  sessions : SessionRef → Bool := fun _ => false
  playerNameToId : TreeMap Bytes UInt64 := {}
  playerIdToPlayer : TreeMap UInt64 PlayerRef := {}
  playerId : UInt64 := 1
  roomId : UInt64 := 1
  roomNameToId : TreeMap Bytes UInt64 := {}
  roomIdToRoom : TreeMap UInt64 RoomRef := {}

structure World where
  manager : GameSessionManager := {}
  players : PlayerRef → Player := fun _ => {}
  playerCount : Nat := 0
  rooms : RoomRef → Room := fun _ => {}
  roomCount : Nat := 0

namespace World
variable (w : World)

def setPlayer (ref : PlayerRef) (player : Player) : World := {w with players := Function.update w.players ref player}
def setRoom (ref : RoomRef) (room : Room) : World := {w with rooms := Function.update w.rooms ref room}

def makePlayer (player : Player) : PlayerRef × World :=
  (w.playerCount,{w.setPlayer w.playerCount player with playerCount := w.playerCount + 1})
def makeRoom (room : Room) : RoomRef × World :=
  (w.roomCount,{w.setRoom w.roomCount room with roomCount := w.roomCount + 1})

def addSession (session : SessionRef) : World :=
  {w with manager := {w.manager with sessions := Function.update w.manager.sessions session true}}
def removeSession (session : SessionRef) : World :=
  {w with manager := {w.manager with sessions := Function.update w.manager.sessions session false}}

def addPlayer (player : PlayerRef) : Bool × World :=
  let name := (w.players player).name
  if name ∈ w.manager.playerNameToId then (false,w)
  else
    let id := w.manager.playerId
    (true,{w.setPlayer player {w.players player with playerId := id} with
      manager := {w.manager with
        playerId := id + 1
        playerNameToId := w.manager.playerNameToId.insert name id
        playerIdToPlayer := w.manager.playerIdToPlayer.insert id player}})

def removePlayer (player : PlayerRef) : Bool × World :=
  let id := (w.players player).playerId
  if id ∈ w.manager.playerIdToPlayer then
    (true,{w with manager := {w.manager with
      playerNameToId := w.manager.playerNameToId.erase (w.players player).name
      playerIdToPlayer := w.manager.playerIdToPlayer.erase id}})
  else (false,w)

def getPlayerByName (name : Bytes) : Option PlayerRef :=
  (w.manager.playerNameToId[name]?).bind fun id => w.manager.playerIdToPlayer[id]?

def getPlayer (id : UInt64) : Option PlayerRef := w.manager.playerIdToPlayer[id]?

def addRoom (room : RoomRef) : Bool × World :=
  let key := (w.rooms room).name
  if key ∈ w.manager.roomNameToId then (false,w)
  else
    let id := w.manager.roomId
    (true,{w.setRoom room {w.rooms room with id := id} with
      manager := {w.manager with
        roomId := id + 1
        roomNameToId := w.manager.roomNameToId.insert key id
        roomIdToRoom := w.manager.roomIdToRoom.insert id room}})

def removeRoom (room : Option RoomRef) : Bool × World :=
  match room with
  | none => (false,w)
  | some room =>
    let id := (w.rooms room).id
    if id ∈ w.manager.roomIdToRoom then
      (true,{w with manager := {w.manager with
        roomIdToRoom := w.manager.roomIdToRoom.erase id
        roomNameToId := w.manager.roomNameToId.erase (w.rooms room).name}})
    else (false,w)

def getRoomByName (name : Bytes) : Option RoomRef :=
  (w.manager.roomNameToId[name]?).bind fun id => w.manager.roomIdToRoom[id]?

def getRoom (id : UInt64) : Option RoomRef := w.manager.roomIdToRoom[id]?

def getAllRooms : List RoomRef := w.manager.roomIdToRoom.toList.map (·.2)

def summaries : List Protocol.RoomSummary := w.getAllRooms.map fun r => (w.rooms r).getSummary

end World
end IocpChatServer.GameServer
