import IocpChatServer.DummyClient.ClientApp
import IocpChatServer.Foundations.Decimal
import IocpChatServer.GameServer.Membership

namespace IocpChatServer.GameServer
open Std ServerCore Protocol Foundations Table TransitionSystem

namespace World
variable {w next : World} {roomId : UInt64} {room : RoomRef} {r : RoomSummary}

def Called (w : World) (roomId : UInt64) (room : RoomRef) (name : Bytes) (maxPlayers : UInt64) : Prop :=
  w.getRoom roomId = some room ∧ (w.rooms room).name = name ∧ (w.rooms room).maxPlayerCount = maxPlayers

theorem seated_called {name : Bytes} {maxPlayers : UInt64} {other : RoomRef} {players : TreeMap UInt64 PlayerRef}
    (called : w.Called roomId room name maxPlayers) : (w.seated other players).Called roomId room name maxPlayers := by
  obtain ⟨found,rfl,rfl⟩ := called
  refine ⟨found,?_⟩
  by_cases same : room = other
  · subst same
    rw [seated_room]
    exact ⟨rfl,rfl⟩
  · rw [seated_other same]
    exact ⟨rfl,rfl⟩

theorem handled_called {s next : Server} {session : SessionRef} {pkt : ClientPacket} {answer : Bool} {name : Bytes} {maxPlayers : UInt64}
    (valid : s.world.Valid) (called : s.world.Called roomId room name maxPlayers) (handled : Handles s session pkt (.ok (answer,next))) :
    next.world.Called roomId room name maxPlayers := by
  have old : room ≠ s.world.roomCount := Nat.ne_of_lt (valid.rooms roomId room called.1).made
  cases handled with
  | nicknameTaken | named | listed | rejected | chatted | leavesNowhere => exact called
  | roomTaken =>
    obtain ⟨found,rfl,rfl⟩ := called
    simp [Called,getRoom,makeRoom,setRoom,old] at found ⊢
    exact found
  | founded =>
    obtain ⟨found,rfl,rfl⟩ := called
    refine ⟨insert_exact.mpr (.inr ⟨fun same => ?_,found⟩),by simp [founded,old],by simp [founded,old]⟩
    rw [← same] at found
    exact valid.fresh_room (TreeMap.mem_iff_isSome_getElem?.mpr (Option.isSome_iff_exists.mpr ⟨room,found⟩))
  | joined | left => exact seated_called called

theorem Valid.summaries_exact (valid : Valid w) : r ∈ w.summaries ↔ ∃ room, w.getRoom r.roomId = some room ∧
    (w.rooms room).getSummary = r := by
  simp only [summaries,getAllRooms,List.mem_map (f := fun r => (w.rooms r).getSummary)]
  constructor
  · rintro ⟨room,listed,rfl⟩
    obtain ⟨roomId,found⟩ := entries_exact.mp listed
    exact ⟨room,valid.getRoom_id found,rfl⟩
  · rintro ⟨room,found,same⟩
    exact ⟨room,entries_exact.mpr ⟨r.roomId,found⟩,same⟩

theorem Valid.summaries_once (valid : Valid w) : (w.summaries.map (·.roomId)).Nodup := by
  have ids : w.summaries.map (·.roomId) = w.manager.roomIdToRoom.toList.map (·.1) := by
    simp only [summaries,getAllRooms,List.map_map]
    refine List.map_congr_left fun entry member => ?_
    exact (valid.rooms entry.1 entry.2 (TreeMap.mem_toList_iff_getElem?_eq_some.mp member)).keyed
  rw [ids,List.nodup_iff_pairwise_ne,List.pairwise_map]
  refine TreeMap.distinct_keys_toList.imp fun apart same => apart ?_
  rw [same]
  exact compare_self

end World

theorem Server.runs_called {s t : Server} {later : List Event} {roomId : UInt64} {room : RoomRef} {name : Bytes} {maxPlayers : UInt64}
    (path : Runs (Enabled step) s later t) (valid : s.world.Valid) (called : s.world.Called roomId room name maxPlayers) :
    t.world.Valid ∧ t.world.Called roomId room name maxPlayers := by
  refine @Runs.invariant _ _ _ _ _ _ (fun s => s.world.Valid ∧ s.world.Called roomId room name maxPlayers)
    (fun s event next given taken => ⟨step_valid s event next given.1 taken,?_⟩) path ⟨valid,called⟩
  rcases step_parts taken with ⟨_,_,_,_,_,_,handled⟩ | ⟨_,sessions,same⟩
  · exact World.handled_called given.1 given.2 handled
  · rw [same]
    exact given.2

end IocpChatServer.GameServer

namespace IocpChatServer.DummyClient
open GameServer Protocol Foundations TransitionSystem

-- `oss << id`.
def decimal (n : UInt64) : Bytes := Decimal.digits 20 n.toNat []

-- The text that Handle_S_ROOM_LIST logs.
def roomLine (room : RoomSummary) : Bytes :=
  ascii "- " ++ decimal room.roomId ++ ascii ". Room : " ++ room.name ++ ascii " (" ++ decimal room.playerCount ++ ascii " / " ++
    decimal room.maxPlayers ++ ascii ")\n"

def roomListLog (rooms : List RoomSummary) : Bytes :=
  if rooms = [] then ascii "No room created! Create a new room by entering a room name\n" else rooms.flatMap roomLine

theorem digit_plain {c : UInt8} (digit : isDigit c = true) : isSpace c = false ∧ c ≠ 45 ∧ c ≠ 43 := by
  simp only [isDigit,isSpace,UInt8.le_iff_toNat_le,decide_eq_true_eq,decide_eq_false_iff_not,ne_eq,← UInt8.toNat_inj] at digit ⊢
  obtain ⟨low,high⟩ := digit
  change 48 ≤ c.toNat at low
  change c.toNat ≤ 57 at high
  refine ⟨?_,?_,?_⟩
  · change ¬(c.toNat = 32 ∨ 9 ≤ c.toNat ∧ c.toNat ≤ 13)
    omega
  · change ¬c.toNat = 45
    omega
  · change ¬c.toNat = 43
    omega

theorem strtoull_decimal (n : UInt64) {rest : Bytes} (ends : ∀ c ∈ rest.head?, isDigit c = false) : strtoull (decimal n ++ rest) = n := by
  obtain ⟨front,some_,all,same⟩ := @Decimal.digits_split 20 n.toNat (by decide)
  have small : n.toNat < 10 ^ 20 := Nat.lt_of_lt_of_le n.toNat_lt (by decide)
  have value := @Decimal.digits_value 20 n.toNat [] small (by decide)
  rw [same,List.append_nil] at value
  have shown : decimal n = front := by rw [decimal,same,List.append_nil]
  have read : (front ++ rest).takeWhile isDigit = front := by
    have digits : ∀ c ∈ front, isDigit c = true := all
    rw [List.takeWhile_append_of_pos digits]
    cases rest with
    | nil => rw [List.takeWhile_nil,List.append_nil]
    | cons c rest => rw [List.takeWhile_cons_of_neg (by rw [ends c rfl]; exact Bool.false_ne_true),List.append_nil]
  rw [shown]
  cases front with
  | nil => exact absurd rfl some_
  | cons c more =>
    obtain ⟨space,minus,plus⟩ := digit_plain (all c List.mem_cons_self)
    have start : (c :: more ++ rest).dropWhile isSpace = c :: more ++ rest :=
      List.dropWhile_cons_of_neg (by rw [space]; exact Bool.false_ne_true)
    have whole : (c :: more).foldl (fun value c => value * 10 + (c.toNat - 48)) 0 = n.toNat := value
    unfold strtoull
    simp only [start]
    split
    · rename_i signed
      exact absurd (List.cons.inj signed).1 minus
    · rename_i signed
      exact absurd (List.cons.inj signed).1 plus
    · simp only [read,whole,if_neg (Nat.not_le.mpr n.toNat_lt)]
      simp

theorem join_typed {c : Client} {id : UInt64} {rest : Bytes} (lobby : c.state = .lobby) (session : c.session = true) (real : id ≠ 0)
    (ends : ∀ ch ∈ rest.head?, isDigit ch = false) :
    (c.handleInputLine (ascii "join " ++ (decimal id ++ rest))).1 = some (.cJoinRoom id (some c.self)) := by
  have read := strtoull_decimal id ends
  have cut : (ascii "join " ++ (decimal id ++ rest)).drop 5 = decimal id ++ rest := rfl
  have typed : decimal id ++ rest ≠ [] := fun none => by
    rw [none] at read
    exact real read.symm
  have notList : ascii "join " ++ (decimal id ++ rest) ≠ ascii "list" := by
    intro equal
    have heads := congrArg List.head? equal
    cases heads
  have notCreate : startsWith (ascii "join " ++ (decimal id ++ rest)) (ascii "create ") = false := rfl
  have join : startsWith (ascii "join " ++ (decimal id ++ rest)) (ascii "join ") = true := rfl
  unfold Client.handleInputLine
  rw [lobby]
  simp only [if_neg notList,notCreate,join,cut,if_neg typed,read,if_neg real,if_true,Bool.false_eq_true,if_false]
  simp only [Client.enterRoomById,Client.send,session,if_true]

theorem roomLine_shown {rooms : List RoomSummary} {room : RoomSummary} (listed : room ∈ rooms) :
    ∃ front back, roomListLog rooms = front ++ roomLine room ++ back := by
  obtain ⟨front,back,rfl⟩ := List.append_of_mem listed
  refine ⟨front.flatMap roomLine,back.flatMap roomLine,?_⟩
  rw [roomListLog,if_neg (by simp),List.flatMap_append,List.flatMap_cons,List.append_assoc]

-- Every room is shown to a client in a line of its own, and its number there, typed with or
-- without what follows it, joins that room, however much later: no two lines have the same, the
-- room keeps its name and its size, and it stays.
theorem listed_rooms_joinable {s t : Server} {events later : List Event} (path : Runs (Enabled Server.step) Server.start events s)
    (more : Runs (Enabled Server.step) s later t) : (s.world.summaries.map (·.roomId)).Nodup ∧
    ∀ room ∈ s.world.summaries, (∃ front back, roomListLog s.world.summaries = front ++ roomLine room ++ back) ∧
      (∃ ref, t.world.Called room.roomId ref room.name room.maxPlayers) ∧ ∀ c : Client, c.state = .lobby → c.session = true →
        (c.handleInputLine (ascii "join " ++ decimal room.roomId)).1 = some (.cJoinRoom room.roomId (some c.self)) ∧
        (c.handleInputLine (ascii "join " ++ (roomLine room).drop 2)).1 = some (.cJoinRoom room.roomId (some c.self)) := by
  have valid := Server.runs_valid path
  refine ⟨valid.summaries_once,fun room listed => ?_⟩
  obtain ⟨ref,found,same⟩ := valid.summaries_exact.mp listed
  have called : s.world.Called room.roomId ref room.name room.maxPlayers := ⟨found,by rw [← same]; rfl,by rw [← same]; rfl⟩
  have positive := (valid.rooms room.roomId ref found).positive
  have real : room.roomId ≠ 0 := fun zero => by
    rw [zero] at positive
    exact absurd positive (by decide)
  refine ⟨roomLine_shown listed,⟨ref,(Server.runs_called more valid called).2⟩,fun c lobby session => ⟨?_,?_⟩⟩
  · have plain := @join_typed c room.roomId [] lobby session real fun _ none => by cases none
    rwa [List.append_nil] at plain
  · have cut : (roomLine room).drop 2 = decimal room.roomId ++ (ascii ". Room : " ++ (room.name ++ (ascii " (" ++ (decimal room.playerCount ++
        (ascii " / " ++ (decimal room.maxPlayers ++ ascii ")\n")))))) := by
      simp only [roomLine,List.append_assoc]
      rfl
    rw [cut]
    refine join_typed lobby session real fun ch first => ?_
    cases first
    rfl

-- A room made after another, joined by the line of the first.
theorem listed_rooms_joinable_hall : ∃ s t, Runs (Enabled Server.step) Server.start
      [.connect 0 0,.packet 0 0 (.cSetNickname (ascii "ann")),.packet 0 0 (.cCreateRoom (ascii "hall") 4)] s ∧
    Runs (Enabled Server.step) s [.packet 0 0 (.cCreateRoom (ascii "yard") 4)] t ∧ s.world.summaries = [⟨1,ascii "hall",0,16⟩] ∧
    (∃ ref, t.world.Called 1 ref (ascii "hall") 16) := by
  obtain ⟨s,t,path,more,rooms⟩ : ∃ s t, Runs (Enabled Server.step) Server.start
      [.connect 0 0,.packet 0 0 (.cSetNickname (ascii "ann")),.packet 0 0 (.cCreateRoom (ascii "hall") 4)] s ∧
    Runs (Enabled Server.step) s [.packet 0 0 (.cCreateRoom (ascii "yard") 4)] t ∧ s.world.summaries = [⟨1,ascii "hall",0,16⟩] :=
    ⟨_,_,execute_runs rfl,execute_runs rfl,rfl⟩
  exact ⟨s,t,path,more,rooms,((listed_rooms_joinable path more).2 ⟨1,ascii "hall",0,16⟩ (by rw [rooms]; exact List.mem_singleton.mpr rfl)).2.1⟩

end IocpChatServer.DummyClient
