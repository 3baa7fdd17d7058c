import IocpChatServer.GameServer.RoomNews

namespace IocpChatServer.GameServer
open Std ServerCore Protocol Foundations Table TransitionSystem

-- All that does not depend on what is still to be written or pushed.
structure Alike (s server : Server) : Prop where
  session : s.session = server.session
  manager : s.world.manager = server.world.manager
  rooms : s.world.rooms = server.world.rooms
  playerCount : s.world.playerCount = server.world.playerCount
  roomCount : s.world.roomCount = server.world.roomCount

theorem Alike.elsewhere {s server next : Server} (alike : Alike s server) (world : next.world = server.world)
    (sessions : next.session = server.session) : Alike s next := by
  refine ⟨alike.session.trans sessions.symm,?_,?_,?_,?_⟩
  all_goals rw [world]
  · exact alike.manager
  · exact alike.rooms
  · exact alike.playerCount
  · exact alike.roomCount

-- What the workers' world is once they have written what they have still to write is the
-- world of one handler after the other, and what they have still to push is what that has
-- pushed besides.
structure Linearized (c : Workers) (s : Server) : Prop extends Alike s c.server where
  written : ∀ p, (∀ session player, (c.call session).writes c.server.world session ≠ some (p,player)) →
    s.world.players p = c.server.world.players p
  unwritten : ∀ session p player, (c.call session).writes c.server.world session = some (p,player) → s.world.players p = player
  sound : ∀ session, (c.call session).Sound c.server.world session
  members : ∀ room (key : UInt64) p, (c.server.world.rooms room).players[key]? = some p →
    ∃ session id, c.server.world.Owns session id p
  told : c.Told (roomNews s.sent)
  busy : ∀ session, c.call session ≠ .idle → c.server.session session = .connected

namespace Linearized
variable {c : Workers} {s next : Server} {server : Server} {session other : SessionRef} {call : Handling} {p : PlayerRef}
  {player : Player} {id : UInt64}

theorem owner_same (linearized : Linearized c s) (owns : (c.server.world.players p).ownerSession = some other) :
    (s.world.players p).ownerSession = some other := by
  by_cases writing : ∃ session player, (c.call session).writes c.server.world session = some (p,player)
  · obtain ⟨session,player,writes⟩ := writing
    obtain ⟨_,owner,only⟩ := (linearized.sound session).writes writes
    rw [linearized.unwritten session p player writes,owner,only other owns]
  · rw [linearized.written p fun session player writes => writing ⟨session,player,writes⟩]
    exact owns

theorem named_owner (linearized : Linearized c s) {name : Bytes} (there : c.call session = .named p name) :
    (s.world.players p).ownerSession = some session := by
  have writes : (c.call session).writes c.server.world session = some (p,{c.server.world.players p with ownerSession := some session}) := by
    rw [there]
    rfl
  rw [linearized.unwritten session p _ writes]

theorem player_same (linearized : Linearized c s) (owns : (c.server.world.players p).ownerSession = some session)
    (nothing : (c.call session).writes c.server.world session = none) : s.world.players p = c.server.world.players p := by
  refine linearized.written p fun other player writes => ?_
  have owner := linearized.owner_same owns
  rw [linearized.unwritten other p player writes,((linearized.sound other).writes writes).2.1] at owner
  cases owner
  rw [nothing] at writes
  cases writes

theorem becomes (linearized : Linearized c s) (alike : Alike next server)
    (told : (c.becomes server session call).Told (roomNews next.sent)) (sessions : server.session = c.server.session)
    (keeps : Undisturbed c.server.world server.world fun p => (s.world.players p).ownerSession ≠ some session)
    (stays : ∀ id p, s.world.getPlayer id = some p → (s.world.players p).ownerSession ≠ some session → next.world.players p = s.world.players p)
    (written : ∀ p, (∀ player, call.writes server.world session ≠ some (p,player)) →
      (∀ other player, other ≠ session → (c.call other).writes c.server.world other ≠ some (p,player)) →
      next.world.players p = server.world.players p)
    (unwritten : ∀ p player, call.writes server.world session = some (p,player) → next.world.players p = player)
    (sound : call.Sound server.world session)
    (joins : ∀ room (key : UInt64) p, (server.world.rooms room).players[key]? = some p →
      (c.server.world.rooms room).players[key]? = some p ∨ ∃ session id, server.world.Owns session id p)
    (up : c.server.session session = .connected) : Linearized (c.becomes server session call) next := by
  have owners {other : SessionRef} (apart : other ≠ session) (id : UInt64) (p : PlayerRef) (owns : c.server.world.Owns other id p) :
      (s.world.players p).ownerSession ≠ some session := by
    rw [linearized.owner_same owns.2]
    exact fun same => apart (Option.some.inj same)
  have named {other : SessionRef} (apart : other ≠ session) (p : PlayerRef) (name : Bytes) (there : c.call other = .named p name) :
      (s.world.players p).ownerSession ≠ some session := by
    rw [linearized.named_owner there]
    exact fun same => apart (Option.some.inj same)
  have kept {other : SessionRef} (apart : other ≠ session) :
    (c.call other).writes server.world other = (c.call other).writes c.server.world other :=
    (linearized.sound other).writes_kept keeps (owners apart) (named apart)
  refine ⟨alike,fun p none => ?_,fun other p player writes => ?_,fun other => ?_,fun room key p seated => ?_,told,fun other working => ?_⟩
  · refine written p (fun player writes => ?_) fun other player apart writes => ?_
    · exact none session player (by simpa [Workers.becomes] using writes)
    · exact none other player (by simpa [Workers.becomes,apart,kept apart] using writes)
  · by_cases same : other = session
    · subst same
      exact unwritten p player (by simpa [Workers.becomes] using writes)
    · have before : (c.call other).writes c.server.world other = some (p,player) := by
        simpa [Workers.becomes,same,kept same] using writes
      obtain ⟨⟨id,known⟩,owner,_⟩ := (linearized.sound other).writes before
      have there := linearized.unwritten other p player before
      have registered : s.world.getPlayer id = some p := by
        unfold World.getPlayer at known ⊢
        rw [linearized.manager]
        exact known
      rw [stays id p registered (by rw [there,owner]; exact fun mine => same (Option.some.inj mine))]
      exact there
  · by_cases same : other = session
    · subst same
      simpa [Workers.becomes] using sound
    · simpa [Workers.becomes,same] using (linearized.sound other).keeps keeps (owners same) (named same)
  · rcases joins room key p seated with before | new
    · obtain ⟨session,id,owns⟩ := linearized.members room key p before
      exact ⟨session,id,keeps.owned session id p owns⟩
    · exact new
  · change server.session other = .connected
    rw [sessions]
    by_cases same : other = session
    · subst same
      exact up
    · exact linearized.busy other (by simpa [Workers.becomes,same] using working)

theorem idle_world (linearized : Linearized c s) (world : server.world = c.server.world) (sessions : server.session = c.server.session)
    (told : (c.becomes server session call).Told (roomNews s.sent))
    (writes : call.writes c.server.world session = (c.call session).writes c.server.world session)
    (sound : call.Sound c.server.world session) (up : c.server.session session = .connected) :
    Linearized (c.becomes server session call) s := by
  rw [← world] at sound writes
  refine linearized.becomes (linearized.toAlike.elsewhere world sessions) told sessions ((undisturbed world).mono fun _ _ => trivial)
    (fun _ _ _ _ => rfl) (fun p mine others => ?_) (fun p player will => ?_) sound (fun room key p seated => .inl ?_) up
  · rw [world]
    refine linearized.written p fun other player before => ?_
    by_cases same : other = session
    · subst same
      rw [← world,← writes] at before
      exact mine player before
    · exact others other player same before
  · rw [writes,world] at will
    exact linearized.unwritten session p player will
  · rwa [world] at seated

theorem quiet (linearized : Linearized c s) (world : server.world = c.server.world) (sessions : server.session = c.server.session)
    (news : roomNews server.sent = roomNews c.server.sent)
    (writes : call.writes c.server.world session = (c.call session).writes c.server.world session)
    (sound : call.Sound c.server.world session) (outside : (c.call session).holds = none ∧ call.holds = none)
    (up : c.server.session session = .connected) : Linearized (c.becomes server session call) s := by
  refine linearized.idle_world world sessions (linearized.told.still linearized.sound rfl news sessions (undisturbed world)
    (fun roomId room found => .inl ?_) (fun p owner owns => .inl ?_) outside up) writes sound up
  · rwa [world] at found
  · rwa [world] at owns

theorem nothing_same (linearized : Linearized c s) (nothing : (c.call session).writes c.server.world session = none)
    (others : ∀ other player, other ≠ session → (c.call other).writes c.server.world other ≠ some (p,player)) :
    s.world.players p = c.server.world.players p := by
  refine linearized.written p fun other player before => ?_
  by_cases same : other = session
  · subst same
    rw [nothing] at before
    cases before
  · exact others other player same before

-- A step that has an effect which lasts: there the whole handler runs.
theorem commits {worker : Nat} {pkt : ClientPacket} {world : World} {news : List (SessionRef × ServerPacket)} (linearized : Linearized c s)
    (takes : s.Takes worker session pkt world news) (sessions : server.session = c.server.session)
    (manager : world.manager = server.world.manager) (rooms : world.rooms = server.world.rooms)
    (playerCount : world.playerCount = server.world.playerCount) (roomCount : world.roomCount = server.world.roomCount)
    (told : (c.becomes server session call).Told (roomNews s.sent ++ roomNews news))
    (keeps : Undisturbed c.server.world server.world fun p => (s.world.players p).ownerSession ≠ some session)
    (stays : ∀ id p, s.world.getPlayer id = some p → (s.world.players p).ownerSession ≠ some session → world.players p = s.world.players p)
    (written : ∀ p, (∀ player, call.writes server.world session ≠ some (p,player)) →
      (∀ other player, other ≠ session → (c.call other).writes c.server.world other ≠ some (p,player)) →
      world.players p = server.world.players p)
    (unwritten : ∀ p player, call.writes server.world session = some (p,player) → world.players p = player)
    (sound : call.Sound server.world session)
    (joins : ∀ room (key : UInt64) p, (server.world.rooms room).players[key]? = some p →
      (c.server.world.rooms room).players[key]? = some p ∨ ∃ session id, server.world.Owns session id p)
    (busy : c.call session ≠ .idle) :
    ∃ next, s.step (.packet worker session pkt) = some next ∧ Linearized (c.becomes server session call) next := by
  obtain ⟨next,taken,same,rfl,more⟩ := takes
  refine ⟨next,taken,linearized.becomes ⟨?_,manager,rooms,playerCount,roomCount⟩ ?_ sessions keeps stays written unwritten sound joins
    (linearized.busy _ busy)⟩
  · rw [same,sessions]
    exact linearized.session
  · rw [more]
    exact told

end Linearized

end IocpChatServer.GameServer
