import IocpChatServer.GameServer.ReplySize

namespace IocpChatServer.GameServer
open Std ServerCore Protocol Foundations Table TransitionSystem

namespace Server

def Expired (s : Server) (p : PlayerRef) : Prop :=
  ∃ session, (s.world.players p).ownerSession = some session ∧ s.session session = .destroyed

def OthersLive (s : Server) (room : RoomRef) (p : PlayerRef) : Prop :=
  ∀ (key : UInt64) (member : PlayerRef), (s.world.rooms room).players[key]? = some member →
    key ≠ (s.world.players p).playerId → ¬ s.Expired member

-- The packets that find all they refer to. An event that does not fit is refused before
-- the sessions are looked at.
def Harmless (s : Server) : ClientPacket → Prop
  | .cSetNickname _ | .cRequestRoomList _ | .cCreateRoom _ _ => True
  | .cJoinRoom roomId player => ∃ room p, s.world.getRoom roomId = some room ∧ s.world.getPlayer (self player).id = some p ∧
      ((s.world.rooms room).isFull = true ∨
        SendThread.maxPayload < Room.eventSize ((s.world.entered room p).rooms room) (s.world.players p) ∨
        ¬ s.Expired p ∧ s.OthersLive room p)
  | .cChatRoom _ player => ∃ p room, s.world.getPlayer (self player).id = some p ∧ s.world.roomOf p = some room
  | .cLeaveRoom player _ => ∃ p, s.world.getPlayer (self player).id = some p ∧ ∀ room ∈ s.world.roomOf p,
      SendThread.maxPayload < Room.eventSize ((s.world.left room p).rooms room) (s.world.players p) ∨ s.OthersLive room p

variable {s : Server} {worker : Nat} {session : SessionRef} {pkt : ClientPacket} {events : List Event}
  {room : RoomRef} {p : PlayerRef} {id roomId : UInt64}

theorem lock_expired (owned : s.world.Owned p id) : s.lock p = none ↔ s.Expired p := by
  obtain ⟨session,owner⟩ := Option.ne_none_iff_exists'.mp owned.owner
  simp [lock,Expired,owner]

theorem entered_live (valid : s.world.Valid) (found : s.world.getRoom roomId = some room)
    (known : s.world.getPlayer id = some p) :
    (∀ member ∈ ((s.world.entered room p).rooms room).members, s.lock member ≠ none) ↔
      ¬ s.Expired p ∧ s.OthersLive room p := by
  unfold World.entered
  rw [World.seated_room]
  constructor
  · intro live
    refine ⟨fun gone => ?_,fun key member listed other gone => ?_⟩
    · exact live p (entries_exact.mpr ⟨_,insert_exact.mpr (.inl ⟨rfl,rfl⟩)⟩) ((lock_expired (valid.players _ _ known)).mpr gone)
    · exact live member (entries_exact.mpr ⟨key,insert_exact.mpr (.inr ⟨other.symm,listed⟩)⟩)
        ((lock_expired (valid.members _ _ _ _ found listed)).mpr gone)
  · rintro ⟨mine,others⟩ member listed gone
    obtain ⟨key,listed⟩ := entries_exact.mp listed
    rcases insert_exact.mp listed with ⟨_,rfl⟩ | ⟨other,listed⟩
    · exact mine ((lock_expired (valid.players _ _ known)).mp gone)
    · exact others key member listed other.symm ((lock_expired (valid.members _ _ _ _ found listed)).mp gone)

theorem left_live (valid : s.world.Valid) (found : s.world.roomOf p = some room) :
    (∀ member ∈ ((s.world.left room p).rooms room).members, s.lock member ≠ none) ↔ s.OthersLive room p := by
  unfold World.left
  rw [World.seated_room]
  have found := World.roomOf_found found
  constructor
  · intro live key member listed other gone
    exact live member (entries_exact.mpr ⟨key,erase_exact.mpr ⟨other.symm,listed⟩⟩)
      ((lock_expired (valid.members _ _ _ _ found listed)).mpr gone)
  · intro others member listed gone
    obtain ⟨key,listed⟩ := entries_exact.mp listed
    obtain ⟨other,listed⟩ := erase_exact.mp listed
    exact others key member listed other.symm ((lock_expired (valid.members _ _ _ _ found listed)).mp gone)

theorem handled_harmless {result : Except Fault (Bool × Server)} (valid : s.world.Valid)
    (handles : Handles s session pkt result) : (∀ ref, result ≠ .error (.null ref)) ↔ s.Harmless pkt := by
  have refused (size : Nat) (ref : NullRef) :
      (.error (SendThread.refusal size) : Except Fault (Bool × Server)) ≠ .error (.null ref) := by
    unfold SendThread.refusal
    split <;> simp
  cases handles with
  | nicknameTaken | named | listed | roomTaken | founded => simp [Harmless]
  | nicknameRefused | listRefused | foundingRefused => exact iff_of_true (refused _) trivial
  | joinsNowhere nowhere => simp [Harmless,nowhere]
  | nobodyJoins found nobody => simp [Harmless,nobody]
  | rejected found known full => simp [Harmless,found,known,full]
  | joinRefused found known notFull large =>
    rw [World.fits_exact,valid.joined_size found known notFull] at large
    exact iff_of_true (refused _) ⟨_,_,found,known,.inr (.inl (Nat.lt_of_not_le large))⟩
  | joinExpired found known notFull fits expired =>
    rw [World.fits_exact,valid.joined_size found known notFull] at fits
    refine iff_of_false (fun never => never .session rfl) ?_
    intro given
    obtain ⟨_,_,again,same,rest⟩ := given
    cases found.symm.trans again
    cases known.symm.trans same
    obtain ⟨member,listed,gone⟩ := expired
    rcases rest with full | large | live
    · exact absurd (notFull.symm.trans full) (by simp)
    · exact Nat.not_lt_of_le fits large
    · exact (entered_live valid found known).mpr live member listed gone
  | joined found known notFull fits live =>
    exact iff_of_true (by simp) ⟨_,_,found,known,.inr (.inr ((entered_live valid found known).mp live))⟩
  | nobodyChats nobody | nobodyLeaves nobody => simp [Harmless,nobody]
  | chatsNowhere known nowhere => simp [Harmless,known,nowhere]
  | leavesNowhere known nowhere => simp [Harmless,known,nowhere]
  | chatRefused known found large => exact iff_of_true (refused _) ⟨_,_,known,found⟩
  | chatted known found => exact iff_of_true (by simp) ⟨_,_,known,found⟩
  | leaveRefused known found large =>
    rw [World.fits_exact,valid.left_size found] at large
    exact iff_of_true (refused _) ⟨_,known,by simpa [found] using .inl (Nat.lt_of_not_le large)⟩
  | leaveExpired known found fits expired =>
    rw [World.fits_exact,valid.left_size found] at fits
    refine iff_of_false (fun never => never .session rfl) ?_
    intro given
    obtain ⟨_,same,rest⟩ := given
    cases known.symm.trans same
    obtain ⟨member,listed,gone⟩ := expired
    rcases rest _ found with large | live
    · exact Nat.not_lt_of_le fits large
    · exact (left_live valid found).mpr live member listed gone
  | left known found fits live =>
    exact iff_of_true (by simp) ⟨_,known,by simpa [found] using .inr ((left_live valid found).mp live)⟩

-- In a reachable state no null reference is met exactly for these packets.
theorem null_safe_exact (path : Runs (Enabled step) start events s) :
    (∀ ref, s.handlePacket worker session pkt ≠ .error (.null ref)) ↔ s.Harmless pkt :=
  handled_harmless (runs_valid path) (handlePacket_handles pkt)

-- The only player of a room chats.
theorem null_safe_exact_alone : ∃ s, Runs (Enabled step) start [.connect 0 0,.packet 0 0 (.cSetNickname (ascii "ann")),
    .packet 0 0 (.cCreateRoom (ascii "hall") 4),.packet 0 0 (.cJoinRoom 1 (some ⟨1,[]⟩))] s ∧
    ∀ ref, s.handlePacket 0 0 (.cChatRoom (ascii "hello") (some ⟨1,[]⟩)) ≠ .error (.null ref) := by
  have path : Runs (Enabled step) start _ _ := @execute_runs _ _ _ [.connect 0 0,.packet 0 0 (.cSetNickname (ascii "ann")),
    .packet 0 0 (.cCreateRoom (ascii "hall") 4),.packet 0 0 (.cJoinRoom 1 (some ⟨1,[]⟩))] _ step rfl
  exact ⟨_,path,(null_safe_exact path).mpr ⟨0,0,rfl,rfl⟩⟩

-- The first packet of a client asks to chat before anyone has a nickname.
theorem null_safe_unknown_player : ¬ ∀ events s worker session pkt, Runs (Enabled step) start events s →
    s.session session = .connected → ∀ ref, s.handlePacket worker session pkt ≠ .error (.null ref) := by
  intro always
  obtain ⟨s,path,fresh,connected⟩ := start_connected
  have harmless := (handled_harmless (runs_valid path) (handlePacket_handles _)).mp
    (always _ s 0 0 (.cChatRoom (ascii "hello") none) path connected)
  obtain ⟨p,room,known,_⟩ := harmless
  simp [fresh,World.addSession,World.getPlayer] at known

end Server
end IocpChatServer.GameServer
