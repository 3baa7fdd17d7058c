import IocpChatServer.GameServer.SequentialHandlers
import IocpChatServer.GameServer.Workers

namespace IocpChatServer.GameServer
open Std ServerCore Protocol Foundations Table TransitionSystem

namespace World

def Acts (w : World) (session : SessionRef) : ClientPacket → Prop
  | .cJoinRoom _ player | .cChatRoom _ player | .cLeaveRoom player _ => ∃ p, w.Owns session (self player).id p
  | .cSetNickname _ | .cRequestRoomList _ | .cCreateRoom _ _ => True

def Answers (w : World) : ClientPacket → Prop
  | .cSetNickname name => name ∈ w.manager.playerNameToId ∨ (w.nicknameReply name).Fits
  | .cRequestRoomList _ => (ServerPacket.sRoomList w.summaries).Fits
  | .cCreateRoom name _ => name ∈ w.manager.roomNameToId ∨ (w.foundedReply name).Fits
  | .cJoinRoom _ _ | .cChatRoom _ _ | .cLeaveRoom _ _ => True

end World

namespace Handling

def begins : Handling → Option ClientPacket
  | .called pkt => some pkt
  | _ => none

-- The packet of a call that has done nothing yet that lasts.
def pending : Handling → Option ClientPacket
  | .called pkt => some pkt
  | .joining roomId player _ | .entering roomId player _ _ | .nowhere roomId player => some (.cJoinRoom roomId player)
  | .chatting msg player _ => some (.cChatRoom msg player)
  | .leaving player roomId _ | .exiting player roomId _ _ => some (.cLeaveRoom player roomId)
  | .idle | .named _ _ | .owned _ | .roomAdded | .listing _ _ _ | .answering _ | .pushing _ _ _ _ | .entered _ _ _ | .seating _ _
  | .left _ | .unseating _ => none

-- What one that has has still to write: a player, and what it will be.
def writes (w : World) (session : SessionRef) : Handling → Option (PlayerRef × Player)
  | .named p _ => some (p,{w.players p with ownerSession := some session})
  | .pushing room (.enter found) _ _ | .entered room found _ | .seating room found =>
    found.map fun p => (p,{w.players p with roomId := (w.rooms room).id})
  | .pushing _ (.leave player) _ _ | .left player => (w.getPlayer (self player).id).map fun p => (p,{w.players p with roomId := noRoom})
  | .unseating p => some (p,{w.players p with roomId := noRoom})
  | .idle | .called _ | .owned _ | .roomAdded | .listing _ _ _ | .answering _ | .joining _ _ _ | .entering _ _ _ _ | .nowhere _ _
  | .pushing _ .broadcast _ _ | .chatting _ _ _ | .leaving _ _ _ | .exiting _ _ _ _ => none

-- The members whose sessions a loop that is about to begin will reach without looking.
def meets (w : World) : Handling → List PlayerRef
  | .entering _ _ (some room) (some p) => if (w.rooms room).isFull then [] else ((w.entered room p).rooms room).members
  | .exiting _ _ room (some p) => ((w.left room p).rooms room).members
  | _ => []

end Handling

def Protocol.ServerPacket.newsOf : ServerPacket → Option UInt64
  | .sRoomEvent _ room _ _ => some room.roomId
  | .sChatRoom chat => some chat.roomId
  | .sNicknamePrompt _ | .sNicknameResult _ _ | .sRoomList _ | .sCreateRoom _ _ | .sEnterRoom _ => none

structure World.Tells (w : World) (room : RoomRef) (sendBuffer : ServerPacket) (recipients : List (PlayerRef × Bool)) : Prop where
  about : ∃ roomId, sendBuffer.newsOf = some roomId ∧ w.getRoom roomId = some room
  owned : ∀ entry ∈ recipients, ∃ session id, w.Owns session id entry.1

namespace Handling

-- What a call has read still holds.
def Sound (w : World) (session : SessionRef) : Handling → Prop
  | .called pkt => w.Acts session pkt
  | .named p _ => ∃ id, w.getPlayer id = some p ∧ (w.players p).ownerSession = none
  | .joining roomId player room => (∀ r ∈ room, w.getRoom roomId = some r) ∧ ∃ p, w.Owns session (self player).id p
  | .entering roomId player room found => (∀ r ∈ room, w.getRoom roomId = some r) ∧ ∃ p, found = some p ∧ w.Owns session (self player).id p
  | .entered room found _ | .seating room found => (∃ roomId, w.getRoom roomId = some room) ∧ ∃ id p, found = some p ∧ w.Owns session id p
  | .chatting _ player room | .leaving player _ room => ∃ p, w.Owns session (self player).id p ∧ w.roomOf p = some room
  | .exiting player _ room found => ∃ p, found = some p ∧ w.Owns session (self player).id p ∧ w.roomOf p = some room
  | .left player => ∃ p, w.Owns session (self player).id p
  | .unseating p => ∃ id, w.Owns session id p
  | .answering pkts => ∀ pkt ∈ pkts, pkt.isRoomNews = false
  | .pushing room (.enter found) sendBuffer recipients => w.Tells room sendBuffer recipients ∧ ∃ id p, found = some p ∧ w.Owns session id p
  | .pushing room (.leave player) sendBuffer recipients => w.Tells room sendBuffer recipients ∧ ∃ p, w.Owns session (self player).id p
  | .pushing room .broadcast sendBuffer recipients => w.Tells room sendBuffer recipients
  | .idle | .owned _ | .roomAdded | .listing _ _ _ | .nowhere _ _ => True

end Handling

section Writes
variable {w next : World} {session : SessionRef} {call : Handling} {p : PlayerRef} {player : Player} {id : UInt64} {room : RoomRef}

-- A call writes to a player that is registered and will be its session's, and was nobody else's.
theorem Handling.Sound.writes (sound : call.Sound w session) (writes : call.writes w session = some (p,player)) :
    (∃ id, w.getPlayer id = some p) ∧ player.ownerSession = some session ∧
      ∀ owner, (w.players p).ownerSession = some owner → owner = session := by
  have mine {id : UInt64} {q : PlayerRef} (owns : w.Owns session id q) (owner : SessionRef)
      (owned : (w.players q).ownerSession = some owner) : owner = session := Option.some.inj (owned.symm.trans owns.2)
  cases call with
  | named =>
    cases writes
    obtain ⟨id,known,none⟩ := sound
    exact ⟨⟨id,known⟩,rfl,fun owner owned => absurd (none.symm.trans owned) (Option.some_ne_none owner).symm⟩
  | pushing room loop =>
    cases loop with
    | enter =>
      obtain ⟨_,id,q,rfl,owns⟩ := sound
      cases writes
      exact ⟨⟨id,owns.1⟩,owns.2,mine owns⟩
    | leave player =>
      obtain ⟨_,q,owns⟩ := sound
      simp only [Handling.writes,owns.1] at writes
      cases writes
      exact ⟨⟨_,owns.1⟩,owns.2,mine owns⟩
    | broadcast => cases writes
  | entered room found | seating room found =>
    obtain ⟨_,id,q,rfl,owns⟩ := sound
    cases writes
    exact ⟨⟨id,owns.1⟩,owns.2,mine owns⟩
  | left player =>
    obtain ⟨q,owns⟩ := sound
    simp only [Handling.writes,owns.1] at writes
    cases writes
    exact ⟨⟨_,owns.1⟩,owns.2,mine owns⟩
  | unseating =>
    cases writes
    obtain ⟨id,owns⟩ := sound
    exact ⟨⟨id,owns.1⟩,owns.2,mine owns⟩
  | idle | called | owned | roomAdded | listing | answering | joining | entering | nowhere | chatting | leaving | exiting => cases writes

structure Undisturbed (w next : World) (others : PlayerRef → Prop) : Prop where
  owned : ∀ session id p, w.Owns session id p → next.Owns session id p
  known : ∀ id p, w.getPlayer id = some p → next.getPlayer id = some p
  listed : ∀ roomId room, w.getRoom roomId = some room → next.getRoom roomId = some room ∧ (next.rooms room).id = (w.rooms room).id
  same : ∀ id p, w.getPlayer id = some p → others p → next.players p = w.players p

variable {others : PlayerRef → Prop}

theorem undisturbed (same : next = w) : Undisturbed w next fun _ => True := by
  subst same
  exact ⟨fun _ _ _ owns => owns,fun _ _ known => known,fun _ _ listed => ⟨listed,rfl⟩,fun _ _ _ _ => rfl⟩

theorem Undisturbed.mono {fewer : PlayerRef → Prop} (keeps : Undisturbed w next others) (less : ∀ p, fewer p → others p) :
    Undisturbed w next fewer :=
  ⟨keeps.owned,keeps.known,keeps.listed,fun id p known other => keeps.same id p known (less p other)⟩

theorem Undisturbed.tells {sendBuffer : ServerPacket} {recipients : List (PlayerRef × Bool)} (keeps : Undisturbed w next others)
    (tells : w.Tells room sendBuffer recipients) : next.Tells room sendBuffer recipients where
  about := by
    obtain ⟨roomId,about,listed⟩ := tells.about
    exact ⟨roomId,about,(keeps.listed roomId room listed).1⟩
  owned entry member := by
    obtain ⟨session,id,owns⟩ := tells.owned entry member
    exact ⟨session,id,keeps.owned session id entry.1 owns⟩

theorem Undisturbed.roomOf (keeps : Undisturbed w next others) (known : w.getPlayer id = some p) (other : others p)
    (found : w.roomOf p = some room) :
    next.roomOf p = some room := by
  unfold World.roomOf at found ⊢
  rw [keeps.same id p known other]
  split at found
  · cases found
  · rename_i some_
    rw [if_neg some_]
    exact (keeps.listed _ _ found).1

theorem Handling.Sound.keeps (sound : call.Sound w session) (keeps : Undisturbed w next others)
    (owners : ∀ id p, w.Owns session id p → others p) (mine : ∀ p name, call = .named p name → others p) : call.Sound next session := by
  have owns {id : UInt64} {p : PlayerRef} (owns : w.Owns session id p) : next.Owns session id p := keeps.owned session id p owns
  have housed {id : UInt64} {p : PlayerRef} {room : RoomRef} (owns : w.Owns session id p) (found : w.roomOf p = some room) :
      next.roomOf p = some room := keeps.roomOf owns.1 (owners id p owns) found
  cases call with
  | called pkt =>
    cases pkt with
    | cSetNickname | cRequestRoomList | cCreateRoom => trivial
    | cJoinRoom | cChatRoom | cLeaveRoom =>
      obtain ⟨p,mine⟩ := sound
      exact ⟨p,owns mine⟩
  | named p name =>
    obtain ⟨id,known,none⟩ := sound
    refine ⟨id,keeps.known id p known,?_⟩
    rw [keeps.same id p known (mine p name rfl)]
    exact none
  | joining roomId player room =>
    obtain ⟨found,p,mine⟩ := sound
    exact ⟨fun r read => (keeps.listed roomId r (found r read)).1,p,owns mine⟩
  | entering roomId player room found =>
    obtain ⟨listed,p,same,mine⟩ := sound
    exact ⟨fun r read => (keeps.listed roomId r (listed r read)).1,p,same,owns mine⟩
  | pushing room loop sendBuffer recipients =>
    cases loop with
    | enter =>
      obtain ⟨tells,id,p,same,mine⟩ := sound
      exact ⟨keeps.tells tells,id,p,same,owns mine⟩
    | leave =>
      obtain ⟨tells,p,mine⟩ := sound
      exact ⟨keeps.tells tells,p,owns mine⟩
    | broadcast => exact keeps.tells sound
  | entered room found | seating room found =>
    obtain ⟨⟨roomId,listed⟩,id,p,same,mine⟩ := sound
    exact ⟨⟨roomId,(keeps.listed roomId room listed).1⟩,id,p,same,owns mine⟩
  | chatting | leaving =>
    obtain ⟨p,mine,there⟩ := sound
    exact ⟨p,owns mine,housed mine there⟩
  | exiting =>
    obtain ⟨p,same,mine,there⟩ := sound
    exact ⟨p,same,owns mine,housed mine there⟩
  | left =>
    obtain ⟨p,mine⟩ := sound
    exact ⟨p,owns mine⟩
  | unseating =>
    obtain ⟨id,mine⟩ := sound
    exact ⟨id,owns mine⟩
  | answering => exact sound
  | idle | owned | roomAdded | listing | nowhere => trivial

theorem Handling.Sound.writes_kept (sound : call.Sound w session) (keeps : Undisturbed w next others)
    (owners : ∀ id p, w.Owns session id p → others p) (mine : ∀ p name, call = .named p name → others p) :
    call.writes next session = call.writes w session := by
  cases call with
  | named p name =>
    obtain ⟨id,known,_⟩ := sound
    simp only [Handling.writes,keeps.same id p known (mine p name rfl)]
  | pushing room loop =>
    cases loop with
    | enter =>
      obtain ⟨tells,id,p,rfl,owns⟩ := sound
      obtain ⟨roomId,_,listed⟩ := tells.about
      simp only [Handling.writes,Option.map_some,keeps.same id p owns.1 (owners id p owns),(keeps.listed roomId room listed).2]
    | leave player =>
      obtain ⟨_,p,owns⟩ := sound
      simp only [Handling.writes,Option.map_some,owns.1,keeps.known _ p owns.1,keeps.same _ p owns.1 (owners _ p owns)]
    | broadcast => rfl
  | entered room found | seating room found =>
    obtain ⟨⟨roomId,listed⟩,id,p,rfl,owns⟩ := sound
    simp only [Handling.writes,Option.map_some,keeps.same id p owns.1 (owners id p owns),(keeps.listed roomId room listed).2]
  | left player =>
    obtain ⟨p,owns⟩ := sound
    simp only [Handling.writes,Option.map_some,owns.1,keeps.known _ p owns.1,keeps.same _ p owns.1 (owners _ p owns)]
  | unseating p =>
    obtain ⟨id,owns⟩ := sound
    simp only [Handling.writes,keeps.same id p owns.1 (owners id p owns)]
  | idle | called | owned | roomAdded | listing | answering | joining | entering | nowhere | chatting | leaving | exiting => rfl

end Writes

end IocpChatServer.GameServer
