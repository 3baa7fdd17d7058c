import Mathlib.Algebra.BigOperators.Ring.Finset
import Mathlib.Algebra.Order.BigOperators.Group.Finset
import IocpChatServer.DummyClient.PatientClients

namespace IocpChatServer.GameServer.Server
open Std Foundations Table
variable {s next : Server} {session : SessionRef} {pkt : Protocol.ClientPacket} {answer : Bool} {message : Protocol.ServerPacket}
  {players : List PlayerRef}

theorem delivery_few : (s.delivery session message).length ≤ 1 := by
  unfold delivery
  split <;> simp

theorem toOwner_few {player : PlayerRef} : (s.toOwner player message).length ≤ 1 := by
  unfold toOwner
  split
  · exact delivery_few
  · exact Nat.zero_le _

theorem toOwners_few : (s.toOwners players message).length ≤ players.length := by
  induction players with
  | nil => exact Nat.zero_le _
  | cons player rest ih =>
    have one := @toOwner_few s message player
    simp only [toOwners,List.flatMap_cons,List.length_append,List.length_cons] at ih ⊢
    omega

theorem members_few {w : World} {roomId : UInt64} {room : RoomRef} (valid : w.Valid) (found : w.getRoom roomId = some room) :
    (w.rooms room).members.length ≤ 16 := by
  rw [Room.members,List.length_map,TreeMap.length_toList]
  exact (valid.rooms roomId room found).size

theorem handled_few (valid : s.world.Valid) (handled : Handles s session pkt (.ok (answer,next))) :
    next.sent.length ≤ s.sent.length + 17 := by
  have one {message : Protocol.ServerPacket} : (s.delivery session message).length ≤ 1 := delivery_few
  have all {players : List PlayerRef} {message : Protocol.ServerPacket} (few : players.length ≤ 16) :
    (s.toOwners players message).length ≤ 16 :=
    Nat.le_trans toOwners_few few
  cases handled with
  | nicknameTaken =>
    have result := @one (.sNicknameResult .duplicateNick none)
    have prompt := @one .nicknamePrompt
    simp only [List.length_append]
    omega
  | named | listed | roomTaken | founded | rejected =>
    rw [List.length_append]
    exact Nat.add_le_add_left (Nat.le_trans one (by decide)) _
  | @joined roomId room player p threads found known notFull =>
    have news := @all _ (s.world.joinedEvent room p) (members_few (World.entered_valid valid found known notFull) found)
    have reply := @one (.sEnterRoom .ok)
    simp only [List.length_append]
    omega
  | chatted known found =>
    rw [List.length_append]
    exact Nat.add_le_add_left (Nat.le_trans (all (members_few valid (World.roomOf_found found))) (by decide)) _
  | leavesNowhere => exact Nat.le_add_right _ _
  | @left player p room roomId threads known found =>
    have news := @all _ (s.world.leftEvent room p) (members_few (World.left_valid valid (World.roomOf_found found) p) (World.roomOf_found found))
    have own := @toOwner_few s (s.world.leftEvent room p) p
    simp only [List.length_append]
    omega

end IocpChatServer.GameServer.Server

namespace IocpChatServer.DummyClient
open GameServer Protocol Foundations TransitionSystem

def NetworkEvent.session : NetworkEvent → SessionRef
  | .connect _ session | .input session _ | .serve _ session | .deliver session => session

def NetworkEvent.isTurn : NetworkEvent → Bool
  | .serve _ _ | .deliver _ => true
  | .connect _ _ | .input _ _ => false

section Sums
variable {sessions : Finset SessionRef} {session : SessionRef}

theorem sum_changed {f g : SessionRef → Nat} (member : session ∈ sessions) (same : ∀ other, other ≠ session → g other = f other) :
    (∑ other ∈ sessions, g other) + f session = (∑ other ∈ sessions, f other) + g session := by
  have rest : ∑ other ∈ sessions.erase session, g other = ∑ other ∈ sessions.erase session, f other :=
    Finset.sum_congr rfl fun other inside => same other (Finset.mem_erase.mp inside).1
  have before := Finset.add_sum_erase sessions f member
  have after := Finset.add_sum_erase sessions g member
  omega

theorem sum_mail (sent : List (SessionRef × ServerPacket)) : ∑ session ∈ sessions, (mail sent session).length ≤ sent.length := by
  induction sent with
  | nil => simp [mail]
  | cons entry rest ih =>
    have split (session : SessionRef) :
      (mail (entry :: rest) session).length = (if entry.1 = session then 1 else 0) + (mail rest session).length := by
      by_cases same : entry.1 = session
      · simp [mail,same,Nat.add_comm]
      · simp [mail,same]
    simp only [split,Finset.sum_add_distrib,Finset.sum_ite_eq,List.length_cons]
    split <;> omega

end Sums

namespace Network
variable {n m : Network} {sessions : Finset SessionRef} {session : SessionRef} {event : NetworkEvent}

-- What is on its way, a packet for the server counted with all it can still cause.
def load (n : Network) (sessions : Finset SessionRef) : Nat :=
  ∑ session ∈ sessions, (18 * (n.uplink session).length + (n.downlink session).length)

structure Confined (n : Network) (sessions : Finset SessionRef) : Prop where
  world : n.server.world.Valid
  pushed : n.server.sent = []
  elsewhere : ∀ session, session ∉ sessions → n.server.session session = .absent ∧ n.uplink session = [] ∧ n.downlink session = []

theorem start_confined : start.Confined sessions where
  world := World.start_valid
  pushed := rfl
  elsewhere _ _ := ⟨rfl,rfl,rfl⟩

theorem collect_load {server : Server} : (n.collect server).load sessions ≤ n.load sessions + server.sent.length := by
  have mail := @sum_mail sessions server.sent
  simp only [load,collect,List.length_append,← Nat.add_assoc,Finset.sum_add_distrib] at mail ⊢
  omega

-- One turn lowers what is on its way, anything else raises it by at most a packet.
def Settles (n m : Network) (sessions : Finset SessionRef) (event : NetworkEvent) : Prop :=
  m.load sessions + (if event.isTurn then 1 else 0) ≤ n.load sessions + (if event.isTurn then 0 else 18)

theorem connect_load {worker : Nat} {server : Server} (confined : n.Confined sessions) (mine : session ∈ sessions)
    (taken : n.server.step (.connect worker session) = some server) :
    (n.collect server).Confined sessions ∧ n.Settles (n.collect server) sessions (.connect worker session) := by
  obtain ⟨_,threads,rfl⟩ := Server.connect_does taken
  refine ⟨⟨World.sessions_valid confined.world _,rfl,fun other away => ?_⟩,?_⟩
  · have apart : other ≠ session := fun same => away (same ▸ mine)
    obtain ⟨absent,up,down⟩ := confined.elsewhere other away
    exact ⟨(Function.update_of_ne apart ..).trans absent,up,by simp [collect,down,mail,confined.pushed,Ne.symm apart]⟩
  · have more := @collect_load n sessions ⟨n.server.world.addSession session,Function.update n.server.session session .connected,threads,
      n.server.sent ++ [(session,.nicknamePrompt)]⟩
    simp only [confined.pushed,List.nil_append,List.length_singleton] at more
    simp only [Settles,NetworkEvent.isTurn,confined.pushed,List.nil_append]
    simp only [Bool.false_eq_true,if_false]
    omega

theorem input_load {line : Bytes} {sent : Option ClientPacket} {client : Client} (confined : n.Confined sessions)
    (mine : session ∈ sessions)
    (next : m = {n with
      client := Function.update n.client session client
      uplink := Function.update n.uplink session (n.uplink session ++ sent.toList)}) :
    m.Confined sessions ∧ n.Settles m sessions (.input session line) := by
  subst next
  refine ⟨⟨confined.world,confined.pushed,fun other away => ?_⟩,?_⟩
  · have apart : other ≠ session := fun same => away (same ▸ mine)
    obtain ⟨absent,up,down⟩ := confined.elsewhere other away
    exact ⟨absent,(Function.update_of_ne apart ..).trans up,down⟩
  · have changed := @sum_changed sessions session (fun other => 18 * (n.uplink other).length + (n.downlink other).length)
      (fun other => 18 * (Function.update n.uplink session (n.uplink session ++ sent.toList) other).length + (n.downlink other).length) mine
      fun other apart => by rw [Function.update_of_ne apart]
    have one : sent.toList.length ≤ 1 := by cases sent <;> simp
    simp only [Function.update_self,List.length_append] at changed
    simp only [Settles,load,NetworkEvent.isTurn,Bool.false_eq_true,if_false]
    omega

theorem serve_load {worker : Nat} {pkt : ClientPacket} {rest : List ClientPacket} {server : Server} (confined : n.Confined sessions)
    (waiting : n.uplink session = pkt :: rest) (served : n.server.step (.packet worker session pkt) = some server) :
    ({n with uplink := Function.update n.uplink session rest}.collect server).Confined sessions ∧
      n.Settles ({n with uplink := Function.update n.uplink session rest}.collect server) sessions (.serve worker session) := by
  obtain ⟨answer,handled⟩ := Server.packet_handled served
  have connected := (Server.step_session served).1
  have mine : session ∈ sessions := by
    by_contra away
    rw [(confined.elsewhere session away).1] at connected
    cases connected
  have valid := World.handled_valid confined.world handled
  refine ⟨⟨valid,rfl,fun other away => ?_⟩,?_⟩
  · have apart : other ≠ session := fun same => away (same ▸ mine)
    obtain ⟨absent,up,down⟩ := confined.elsewhere other away
    have none : mail server.sent other = [] := by
      refine List.eq_nil_iff_forall_not_mem.mpr fun message member => ?_
      have alive := (Server.handled_posts handled confined.pushed _ (mem_mail.mp member)).1
      exact absurd (absent.symm.trans alive) (by simp)
    refine ⟨by simpa [collect,Server.handled_session handled] using absent,(Function.update_of_ne apart ..).trans up,?_⟩
    simp [collect,down,none]
  · have changed := @sum_changed sessions session (fun other => 18 * (n.uplink other).length + (n.downlink other).length)
      (fun other => 18 * (Function.update n.uplink session rest other).length + (n.downlink other).length) mine
      fun other apart => by rw [Function.update_of_ne apart]
    have more := @collect_load {n with uplink := Function.update n.uplink session rest} sessions server
    have few := Server.handled_few confined.world handled
    simp only [Function.update_self,waiting,List.length_cons,confined.pushed,List.length_nil] at changed few
    simp only [Settles,NetworkEvent.isTurn,if_true]
    simp only [load] at more ⊢
    omega

theorem deliver_load {pkt : ServerPacket} {rest : List ServerPacket} (confined : n.Confined sessions) (mine : session ∈ sessions)
    (waiting : n.downlink session = pkt :: rest) (next : m = {n with
      client := Function.update n.client session ((n.client session).handlePacket pkt)
      downlink := Function.update n.downlink session rest}) : m.Confined sessions ∧ n.Settles m sessions (.deliver session) := by
  subst next
  refine ⟨⟨confined.world,confined.pushed,fun other away => ?_⟩,?_⟩
  · have apart : other ≠ session := fun same => away (same ▸ mine)
    obtain ⟨absent,up,down⟩ := confined.elsewhere other away
    exact ⟨absent,up,(Function.update_of_ne apart ..).trans down⟩
  · have changed := @sum_changed sessions session (fun other => 18 * (n.uplink other).length + (n.downlink other).length)
      (fun other => 18 * (n.uplink other).length + (Function.update n.downlink session rest other).length) mine
      fun other apart => by rw [Function.update_of_ne apart]
    simp only [Function.update_self,waiting,List.length_cons] at changed
    simp only [Settles,load,NetworkEvent.isTurn,if_true]
    omega

theorem step_load (confined : n.Confined sessions) (mine : event.session ∈ sessions) (taken : n.step event = some m) :
    m.Confined sessions ∧ n.Settles m sessions event := by
  cases step_does taken with
  | connects connected => exact connect_load confined mine connected
  | @types session line client typed =>
    refine @input_load n _ sessions session line none client confined mine ?_
    rw [Option.toList_none,List.append_nil,Function.update_eq_self]
  | asks typed existing => exact @input_load n _ sessions _ _ (some _) _ confined mine rfl
  | serves waiting served => exact serve_load confined waiting served
  | delivers waiting => exact deliver_load confined mine waiting rfl

theorem runs_load {events : List NetworkEvent} (path : Runs (Enabled step) n events m) (confined : n.Confined sessions)
    (mine : ∀ event ∈ events, event.session ∈ sessions) :
    m.Confined sessions ∧ m.load sessions + events.countP (·.isTurn) ≤ n.load sessions + 18 * events.countP (!·.isTurn) := by
  induction path with
  | nil => exact ⟨confined,by simp⟩
  | step _ taken ih =>
    obtain ⟨kept,less⟩ := ih fun event member => mine event (List.mem_append_left _ member)
    obtain ⟨keptToo,settles⟩ := step_load kept (mine _ (by simp)) taken
    refine ⟨keptToo,?_⟩
    simp only [Settles] at settles
    simp only [List.countP_append,List.countP_singleton,Bool.not_eq_true']
    split at settles <;> simp_all <;> omega

theorem turns_patient {turns : List NetworkEvent} (path : Runs (Enabled step) n turns m) (only : ∀ event ∈ turns, event.isTurn = true) :
    Runs (Guarded (Enabled step) Patient) n turns m := by
  induction path with
  | nil => exact .nil
  | @step earlier middle event next _ taken ih =>
    refine .step (ih fun event member => only event (List.mem_append_left _ member)) ⟨taken,?_⟩
    have turn := only event (by simp)
    cases event with
    | serve | deliver => trivial
    | connect | input => cases turn

-- Serving and delivering comes to an end, however it goes on, after at most 18 steps for each
-- line typed and session connected. And when it has come to its end, clients that wait for their
-- answers agree with the server where they are, unless it was left with a packet whose reply is
-- too large for a chunk.
theorem network_settles {events turns : List NetworkEvent} (path : Runs (Guarded (Enabled step) Patient) start events n)
    (few : 19 * events.length + 1 < 2^64) (more : Runs (Enabled step) n turns m) (only : ∀ event ∈ turns, event.isTurn = true) :
    turns.length ≤ 18 * events.countP (!·.isTurn) ∧ ((∀ event, event.isTurn = true → m.step event = none) →
      (m.Quiet ∧ ∀ session, m.server.world.Recognizes session (m.client session).phase) ∨
      ∃ session pkt rest, m.uplink session = pkt :: rest ∧ ¬m.server.world.Servable pkt) := by
  have bound : turns.length ≤ 18 * events.countP (!·.isTurn) := by
    have whole := (path.mono fun _ _ _ taken => taken.1).append more
    have all := (runs_load whole (@start_confined ((events ++ turns).map (·.session)).toFinset) fun event member =>
      List.mem_toFinset.mpr (List.mem_map_of_mem member)).2
    have every : turns.countP (·.isTurn) = turns.length := List.countP_eq_length.mpr only
    have none : turns.countP (!·.isTurn) = 0 := List.countP_eq_zero.mpr fun event member => by simp [only event member]
    have nothing : start.load ((events ++ turns).map (·.session)).toFinset = 0 := by simp [load,start]
    rw [List.countP_append,List.countP_append,every,none,nothing] at all
    omega
  refine ⟨bound,fun stuck => ?_⟩
  have short := @List.countP_le_length _ (fun event : NetworkEvent => !event.isTurn) events
  have orderly := (runs_orderly (path.append (turns_patient more only)) (by rw [List.length_append]; omega)).1
  by_cases waiting : ∃ session pkt rest, m.uplink session = pkt :: rest
  · obtain ⟨session,pkt,rest,waiting⟩ := waiting
    refine .inr ⟨session,pkt,rest,waiting,fun servable => ?_⟩
    exact (orderly.serves waiting).mpr servable (stuck (.serve 0 session) rfl)
  · have quiet : m.Quiet := by
      intro session
      constructor
      · cases up : m.uplink session with
        | nil => rfl
        | cons pkt rest => exact absurd ⟨session,pkt,rest,up⟩ waiting
      · cases down : m.downlink session with
        | nil => rfl
        | cons pkt rest =>
          have gone := stuck (.deliver session) rfl
          simp [step,down] at gone
    exact .inl ⟨quiet,orderly.knows quiet⟩

-- A word said in a room comes back.
theorem network_settles_echo : ∃ n m : Network, Runs (Guarded (Enabled step) Patient) start entering n ∧
    Runs (Enabled step) n [.serve 0 0,.deliver 0] m ∧ 2 ≤ 18 * entering.countP (!·.isTurn) := by
  obtain ⟨n,m,path,more⟩ : ∃ n m : Network, Runs (Guarded (Enabled step) Patient) start entering n ∧
    Runs (Enabled step) n [.serve 0 0,.deliver 0] m := ⟨_,_,guard_runs rfl,execute_runs rfl⟩
  exact ⟨n,m,path,more,(network_settles path (by decide) more (by decide)).1⟩

end Network
end IocpChatServer.DummyClient
