import IocpChatServer.GameServer.Registry

namespace IocpChatServer.GameServer
open Std ServerCore Protocol Foundations TransitionSystem

def World.refusal (w : World) (roomId : UInt64) : Option ErrorCode :=
  match w.getRoom roomId with
  | none => some .roomNotFound
  | some room => if (w.rooms room).isFull then some .roomFull else none

namespace Server

-- The handler comes to its end, nobody has moved, and the reply is all that has been sent.
def Unchanged (s : Server) (session : SessionRef) (error : ErrorCode) (result : Except Fault (Bool × Server)) : Prop :=
  ∃ answer next, result = .ok (answer,next) ∧ (∀ room, (next.world.rooms room).players = (s.world.rooms room).players) ∧
    (∀ player, (next.world.players player).roomId = (s.world.players player).roomId) ∧ next.world.manager = s.world.manager ∧
    next.sent = s.sent ++ s.delivery session (.sEnterRoom error)

variable {s : Server} {worker : Nat} {session : SessionRef} {events : List Event} {roomId : UInt64} {player : Option Protocol.Player}
  {p : PlayerRef} {error : ErrorCode} {room : RoomRef}

-- The exchange of references at the end of the handler, which the error paths run into as well.
theorem rejected_exact {threads : Nat → IdleThread} (keyed : (s.world.rooms room).id = roomId) :
    Unchanged s session .roomFull (.ok (true,⟨s.world.moved p (s.world.rooms room).id,s.session,threads,
      s.sent ++ s.delivery session (.sEnterRoom .roomFull)⟩)) ↔ (s.world.players p).roomId = roomId := by
  have after (q : PlayerRef) : ((s.world.moved p (s.world.rooms room).id).players q).roomId =
      if q = p then roomId else (s.world.players q).roomId := by
    by_cases same : q = p
    · subst same
      simp [World.moved,World.setPlayer,keyed]
    · simp [World.moved,World.setPlayer,same]
  constructor
  · rintro ⟨answer,next,same,_,stay,_,_⟩
    cases same
    have mine := stay p
    rw [after,if_pos rfl] at mine
    exact mine.symm
  · intro there
    refine ⟨true,_,rfl,fun _ => rfl,fun q => ?_,rfl,rfl⟩
    rw [after]
    split
    · rename_i same
      rw [same,there]
    · rfl

theorem handled_refused {result : Except Fault (Bool × Server)} (valid : s.world.Valid)
    (handles : Handles s session (.cJoinRoom roomId player) result) (known : s.world.getPlayer (self player).id = some p)
    (refused : s.world.refusal roomId = some error) :
    Unchanged s session error result ↔ s.world.getRoom roomId ≠ none ∧ (s.world.players p).roomId = roomId := by
  cases handles with
  | joinsNowhere nowhere =>
    refine iff_of_false ?_ fun there => there.1 nowhere
    rintro ⟨_,_,same,_⟩
    cases same
  | nobodyJoins found nobody =>
    rw [nobody] at known
    cases known
  | rejected found knownToo full =>
    cases known.symm.trans knownToo
    have isFull : error = .roomFull := by simpa [World.refusal,found,full] using refused.symm
    subst isFull
    rw [rejected_exact (valid.rooms _ _ found).keyed]
    simp [found]
  | joinRefused found _ notFull | joinExpired found _ notFull | joined found _ notFull => simp [World.refusal,found,notFull] at refused

theorem refused_join_exact (path : Runs (Enabled step) start events s) (worker : Nat) (known : s.world.getPlayer (self player).id = some p)
    (refused : s.world.refusal roomId = some error) : Unchanged s session error (s.handlePacket worker session (.cJoinRoom roomId player)) ↔
      s.world.getRoom roomId ≠ none ∧ (s.world.players p).roomId = roomId :=
  handled_refused (runs_valid path) (handlePacket_handles _) known refused

-- Sixteen players fill the room 1, and one more has a nickname.
def fullHouse : List Event :=
  [.connect 0 0,.packet 0 0 (.cCreateRoom (ascii "hall") 4)] ++
    ((List.range 16).flatMap fun i => [.packet 0 0 (.cSetNickname [UInt8.ofNat (97 + i)]),
      .packet 0 0 (.cJoinRoom 1 (some ⟨UInt64.ofNat (i + 1),[]⟩))]) ++ [.packet 0 0 (.cSetNickname (ascii "zoe"))]

set_option maxRecDepth 20000 in
theorem fullHouse_reached : ∃ s, Runs (Enabled step) start fullHouse s ∧ s.world.getPlayer 1 = some 0 ∧ s.world.getPlayer 17 = some 16 ∧
    s.world.refusal 1 = some .roomFull ∧ s.world.getRoom 1 ≠ none ∧ (s.world.players 0).roomId = 1 ∧ (s.world.players 16).roomId = 0 := by
  have played : ((execute step start fullHouse).map fun s => (s.world.getPlayer 1,s.world.getPlayer 17,s.world.refusal 1,
      s.world.getRoom 1,(s.world.players 0).roomId,(s.world.players 16).roomId)) =
    some (some 0,some 16,some .roomFull,some 0,1,0) := by rfl
  obtain ⟨s,done,same⟩ := Option.map_eq_some_iff.mp played
  simp only [Prod.mk.injEq] at same
  obtain ⟨first,last,full,room,inside,outside⟩ := same
  exact ⟨s,execute_runs done,first,last,full,by simp [room],inside,outside⟩

-- One of the sixteen may ask again.
theorem refused_join_exact_inside : ∃ s, Runs (Enabled step) start fullHouse s ∧
    Unchanged s 0 .roomFull (s.handlePacket 0 0 (.cJoinRoom 1 (some ⟨1,[]⟩))) := by
  obtain ⟨s,path,first,_,full,there,inside,_⟩ := fullHouse_reached
  have known : s.world.getPlayer (self (some ⟨1,[]⟩)).id = some 0 := first
  exact ⟨s,path,(refused_join_exact path 0 known full).mpr ⟨there,inside⟩⟩

-- The one who is turned away is at home in the room from then on.
theorem refused_join_moves : ¬ ∀ events s worker session roomId player p error, Runs (Enabled step) start events s →
    s.world.getPlayer (self player).id = some p → s.world.refusal roomId = some error →
    Unchanged s session error (s.handlePacket worker session (.cJoinRoom roomId player)) := by
  intro every
  obtain ⟨s,path,_,last,full,_,_,outside⟩ := fullHouse_reached
  have known : s.world.getPlayer (self (some ⟨17,[]⟩)).id = some 16 := last
  have unchanged := every _ s 0 0 1 (some ⟨17,[]⟩) 16 _ path known full
  have there := ((handled_refused (runs_valid path) (handlePacket_handles _) known full).mp unchanged).2
  rw [outside] at there
  exact absurd there (by decide)

end Server
end IocpChatServer.GameServer
