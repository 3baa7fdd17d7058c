import IocpChatServer.GameServer.Teardown

namespace IocpChatServer.GameServer
open Std ServerCore Protocol Foundations Table TransitionSystem

namespace World

def registered (w : World) : List PlayerRef := w.manager.playerIdToPlayer.toList.map (·.2)
def profile (w : World) (p : PlayerRef) : Option SessionRef × Protocol.Player :=
  ((w.players p).ownerSession,⟨(w.players p).playerId,(w.players p).name⟩)

variable {w next : World} {p : PlayerRef} {session : SessionRef} {name : Bytes}

theorem registered_exact : p ∈ w.registered ↔ ∃ id, w.getPlayer id = some p := entries_exact

theorem Valid.registered_made (valid : Valid w) (member : p ∈ w.registered) : p < w.playerCount := by
  obtain ⟨id,found⟩ := registered_exact.mp member
  exact (valid.players id p found).made

structure SameProfiles (w next : World) : Prop where
  registry : next.manager.playerIdToPlayer = w.manager.playerIdToPlayer
  counter : next.manager.playerId = w.manager.playerId
  profile : ∀ p, p < w.playerCount → next.profile p = w.profile p

theorem SameProfiles.profiles (same : SameProfiles w next) (valid : Valid w) :
    next.registered.map next.profile = w.registered.map w.profile := by
  unfold registered
  rw [same.registry]
  exact List.map_congr_left fun p member => same.profile p (valid.registered_made member)

theorem moved_profile {q : PlayerRef} {roomId : UInt64} : (w.moved q roomId).profile p = w.profile p := by
  by_cases same : p = q
  · simp [profile,moved,setPlayer,same]
  · simp [profile,moved,setPlayer,same]

theorem named_profile : (w.named session name).profile w.playerCount = (some session,⟨w.manager.playerId,name⟩) := by
  simp [profile,named]

end World

namespace Server

def acceptance : SessionRef × ServerPacket → Option (Option SessionRef × Protocol.Player)
  | (session,.sNicknameResult .ok (some player)) => some (some session,player)
  | _ => none

def acceptances (s : Server) : List (Option SessionRef × Protocol.Player) := s.sent.filterMap acceptance

variable {s next : Server} {session : SessionRef} {pkt : ClientPacket} {answer : Bool} {sent : List (SessionRef × ServerPacket)}
  {event : Event} {events : List Event}

structure Quiet (s next : Server) : Prop where
  world : World.SameProfiles s.world next.world
  acceptances : next.acceptances = s.acceptances

theorem acceptances_quiet (more : next.sent = s.sent ++ sent)
    (other : ∀ receiver message, (receiver,message) ∈ sent → acceptance (receiver,message) = none) :
    next.acceptances = s.acceptances := by
  have none : sent.filterMap acceptance = [] := List.filterMap_eq_nil_iff.mpr fun entry member => other entry.1 entry.2 member
  rw [acceptances,more,List.filterMap_append,none,List.append_nil]
  rfl

theorem handled_registers (handled : Handles s session pkt (.ok (answer,next))) :
    Quiet s next ∨ ∃ name, next.world = s.world.named session name ∧
      next.sent = s.sent ++ s.delivery session (s.world.nicknameReply name) := by
  cases handled with
  | nicknameTaken =>
    refine .inl ⟨⟨rfl,rfl,fun p made => ?_⟩,acceptances_quiet (List.append_assoc _ _ _) fun receiver message sent => ?_⟩
    · simp [World.profile,World.makePlayer,World.setPlayer,Nat.ne_of_lt made]
    · rcases List.mem_append.mp sent with sent | sent
      · cases delivery_message sent
        rfl
      · cases delivery_message sent
        rfl
  | named => exact .inr ⟨_,rfl,rfl⟩
  | listed | roomTaken | founded =>
    refine .inl ⟨⟨rfl,rfl,fun _ _ => rfl⟩,acceptances_quiet rfl fun receiver message sent => ?_⟩
    cases delivery_message sent
    rfl
  | rejected =>
    refine .inl ⟨⟨rfl,rfl,fun _ _ => World.moved_profile⟩,acceptances_quiet rfl fun receiver message sent => ?_⟩
    cases delivery_message sent
    rfl
  | joined =>
    refine .inl ⟨⟨rfl,rfl,fun _ _ => World.moved_profile⟩,acceptances_quiet (List.append_assoc _ _ _) fun receiver message sent => ?_⟩
    rcases List.mem_append.mp sent with sent | sent
    · cases toOwners_message sent
      rfl
    · cases delivery_message sent
      rfl
  | chatted =>
    refine .inl ⟨⟨rfl,rfl,fun _ _ => rfl⟩,acceptances_quiet rfl fun receiver message sent => ?_⟩
    cases toOwners_message sent
    rfl
  | leavesNowhere => exact .inl ⟨⟨rfl,rfl,fun _ _ => rfl⟩,rfl⟩
  | left =>
    refine .inl ⟨⟨rfl,rfl,fun _ _ => World.moved_profile⟩,acceptances_quiet (List.append_assoc _ _ _) fun receiver message sent => ?_⟩
    rcases List.mem_append.mp sent with sent | sent
    · cases toOwner_message sent
      rfl
    · cases toOwners_message sent
      rfl

end Server
end IocpChatServer.GameServer
