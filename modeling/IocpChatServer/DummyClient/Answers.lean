import IocpChatServer.DummyClient.RoomAgreement
import IocpChatServer.GameServer.Acquaintance

namespace IocpChatServer.GameServer
open Protocol DummyClient

namespace Protocol

def ClientPacket.wantsAnswer : ClientPacket → Bool
  | .cSetNickname _ | .cRequestRoomList _ | .cCreateRoom _ _ | .cJoinRoom _ _ => true
  | .cChatRoom _ _ | .cLeaveRoom _ _ => false

def ServerPacket.isAnswer : ServerPacket → Bool
  | .sNicknameResult _ _ | .sRoomList _ | .sCreateRoom _ _ | .sEnterRoom _ => true
  | .sNicknamePrompt _ | .sRoomEvent _ _ _ _ | .sChatRoom _ => false

inductive Answers : ClientPacket → ServerPacket → Prop where
  | named (id : UInt64) : Answers (.cSetNickname name) (.sNicknameResult .ok (some ⟨id,name⟩))
  | nicknameTaken : Answers (.cSetNickname name) (.sNicknameResult .duplicateNick none)
  | listed (rooms : List RoomSummary) : Answers (.cRequestRoomList num) (.sRoomList rooms)
  | founded (room : RoomSummary) (there : room ∈ rooms) (called : room.name = name) :
      Answers (.cCreateRoom name maxPlayers) (.sCreateRoom .ok rooms)
  | roomTaken : Answers (.cCreateRoom name maxPlayers) (.sCreateRoom .duplicateNick [])
  | joined : Answers (.cJoinRoom roomId player) (.sEnterRoom .ok)
  | roomFull : Answers (.cJoinRoom roomId player) (.sEnterRoom .roomFull)

end Protocol

theorem World.founded_listed (w : World) (name : Bytes) : ∃ room ∈ (w.founded name).summaries, room.name = name := by
  have listed : w.roomCount ∈ (w.founded name).getAllRooms :=
    Foundations.Table.entries_exact.mpr ⟨w.manager.roomId,Foundations.Table.insert_exact.mpr (.inl ⟨rfl,rfl⟩)⟩
  refine ⟨_,List.mem_map_of_mem listed,?_⟩
  simp [Room.getSummary,World.founded]

namespace Server
variable {s next : Server} {session other : SessionRef} {pkt : ClientPacket} {answer : Bool}

theorem delivery_mail {message : ServerPacket} (connected : s.session session = .connected) :
    mail (s.delivery session message) other = if session = other then [message] else [] := by
  rw [delivery,if_pos connected]
  by_cases same : session = other <;> simp [mail,same]

theorem news_unanswering {sent : List (SessionRef × ServerPacket)} (news : ∀ entry ∈ sent, entry.2.isAnswer = false) :
    (mail sent other).filter (·.isAnswer) = [] := by
  refine List.filter_eq_nil_iff.mpr fun message member => ?_
  rw [news (other,message) (mem_mail.mp member)]
  exact Bool.false_ne_true

theorem toOwners_unanswering {players : List PlayerRef} {message : ServerPacket} (news : message.isAnswer = false) :
    (mail (s.toOwners players message) other).filter (·.isAnswer) = [] :=
  news_unanswering fun entry sent => by rw [(toOwners_sent sent).2,news]

theorem handled_answers (connected : s.session session = .connected) (pushed : s.sent = [])
    (handled : Handles s session pkt (.ok (answer,next))) (other : SessionRef) :
    List.Forall₂ Answers (if session = other then [pkt].filter (·.wantsAnswer) else [])
      ((mail next.sent other).filter (·.isAnswer)) := by
  have one {message : ServerPacket} (said : Answers pkt message) (wants : pkt.wantsAnswer = true) (is : message.isAnswer = true) :
      List.Forall₂ Answers (if session = other then [pkt].filter (·.wantsAnswer) else [])
        ((mail (s.delivery session message) other).filter (·.isAnswer)) := by
    rw [delivery_mail connected]
    by_cases same : session = other
    · simpa [same,wants,is] using said
    · simp [same]
  have none {sent : List (SessionRef × ServerPacket)} (wants : pkt.wantsAnswer = false)
      (news : (mail sent other).filter (·.isAnswer) = []) :
      List.Forall₂ Answers (if session = other then [pkt].filter (·.wantsAnswer) else []) ((mail sent other).filter (·.isAnswer)) := by
    rw [news]
    by_cases same : session = other <;> simp [same,wants]
  cases handled with
  | nicknameTaken =>
    have prompt : (mail (s.delivery session ServerPacket.nicknamePrompt) other).filter (·.isAnswer) = [] :=
      news_unanswering fun entry sent => by rw [(delivery_sent sent).2]; rfl
    simp only [pushed,List.nil_append,mail_append,List.filter_append,prompt,List.append_nil]
    exact one .nicknameTaken rfl rfl
  | named =>
    rw [pushed,List.nil_append]
    exact one (.named _) rfl rfl
  | listed =>
    rw [pushed,List.nil_append]
    exact one (.listed _) rfl rfl
  | roomTaken =>
    rw [pushed,List.nil_append]
    exact one .roomTaken rfl rfl
  | @founded name =>
    obtain ⟨room,there,called⟩ := s.world.founded_listed name
    rw [pushed,List.nil_append]
    exact one (.founded room there called) rfl rfl
  | rejected =>
    rw [pushed,List.nil_append]
    exact one .roomFull rfl rfl
  | joined =>
    rw [pushed,List.nil_append,mail_append,List.filter_append,toOwners_unanswering rfl,List.nil_append]
    exact one .joined rfl rfl
  | chatted =>
    rw [pushed,List.nil_append]
    exact none rfl (toOwners_unanswering rfl)
  | leavesNowhere =>
    rw [pushed]
    exact none rfl rfl
  | left =>
    rw [pushed,List.nil_append]
    refine none rfl ?_
    rw [mail_append,List.filter_append,toOwners_unanswering rfl,List.append_nil]
    exact news_unanswering fun entry sent => by rw [(toOwner_sent sent).2]; rfl

end Server
end IocpChatServer.GameServer

namespace IocpChatServer.DummyClient
open GameServer Protocol Foundations TransitionSystem

-- The network with the packets of each client that want an answer, and the answers it has got.
structure Ledger where
  network : Network
  asked : SessionRef → List ClientPacket
  answered : SessionRef → List ServerPacket

namespace Ledger

def start : Ledger := ⟨.start,fun _ => [],fun _ => []⟩

variable (s : Ledger)

def note (network : Network) : NetworkEvent → Ledger
  | .connect _ _ | .serve _ _ => {s with network := network}
  | .input session line => {s with
      network := network
      asked := Function.update s.asked session
        (s.asked session ++ ((s.network.client session).handleInputLine line).1.toList.filter (·.wantsAnswer))}
  | .deliver session => {s with
      network := network
      answered := Function.update s.answered session
        (s.answered session ++ (s.network.downlink session).head?.toList.filter (·.isAnswer))}

def step (event : NetworkEvent) : Option Ledger := (s.network.step event).map fun network => s.note network event

-- What was asked has been answered in this order, but for what is still on its way. The answers
-- got are followed by those on their way, and there are no others.
def Settled (session : SessionRef) : Prop := ∃ done,
  s.asked session = done ++ (s.network.uplink session).filter (·.wantsAnswer) ∧
    List.Forall₂ Answers done (s.answered session ++ (s.network.downlink session).filter (·.isAnswer))

structure Balanced (s : Ledger) : Prop where
  pushed : s.network.server.sent = []
  settled : ∀ session, s.Settled session

variable {s next : Ledger} {event : NetworkEvent} {session : SessionRef}

theorem start_balanced : Balanced start := ⟨rfl,fun _ => ⟨[],rfl,.nil⟩⟩

theorem connect_balanced {worker : Nat} {server : Server} (balanced : s.Balanced)
    (connects : s.network.server.step (.connect worker session) = some server) :
    (s.note (s.network.collect server) (.connect worker session)).Balanced := by
  obtain ⟨absent,threads,rfl⟩ := Server.connect_does connects
  refine ⟨rfl,fun other => ?_⟩
  obtain ⟨done,asked,answered⟩ := balanced.settled other
  have prompt : (mail [(session,ServerPacket.nicknamePrompt)] other).filter (·.isAnswer) = [] :=
    Server.news_unanswering fun entry sent => by rw [List.mem_singleton.mp sent]; rfl
  refine ⟨done,asked,?_⟩
  simp only [note,Network.collect,balanced.pushed,List.nil_append,List.filter_append,prompt,List.append_nil]
  exact answered

theorem input_balanced {line : Bytes} {sent : Option ClientPacket} {client : Client} (balanced : s.Balanced)
    (typed : (s.network.client session).handleInputLine line = (sent,client)) :
    (s.note {s.network with
      client := Function.update s.network.client session client
      uplink := Function.update s.network.uplink session (s.network.uplink session ++ sent.toList)} (.input session line)).Balanced := by
  refine ⟨balanced.pushed,fun other => ?_⟩
  obtain ⟨done,asked,answered⟩ := balanced.settled other
  refine ⟨done,?_,answered⟩
  by_cases same : other = session
  · subst same
    simp only [note,Function.update_self,typed,List.filter_append]
    rw [asked,List.append_assoc]
  · simp only [note,Function.update_of_ne same]
    exact asked

theorem serve_balanced {worker : Nat} {pkt : ClientPacket} {rest : List ClientPacket} {server : Server} (balanced : s.Balanced)
    (waiting : s.network.uplink session = pkt :: rest) (serves : s.network.server.step (.packet worker session pkt) = some server) :
    (s.note ({s.network with uplink := Function.update s.network.uplink session rest}.collect server) (.serve worker session)).Balanced := by
  obtain ⟨answer,handled⟩ := Server.packet_handled serves
  refine ⟨rfl,fun other => ?_⟩
  obtain ⟨done,asked,answered⟩ := balanced.settled other
  have more := Server.handled_answers (Server.step_session serves).1 balanced.pushed handled other
  refine ⟨done ++ if session = other then [pkt].filter (·.wantsAnswer) else [],?_,?_⟩
  · by_cases same : session = other
    · subst same
      simp only [note,Network.collect,Function.update_self,if_true]
      rw [asked,waiting,List.append_assoc,← List.filter_append,List.singleton_append]
    · simp only [note,Network.collect,Function.update_of_ne (Ne.symm same),if_neg same,List.append_nil]
      exact asked
  · simp only [note,Network.collect,List.filter_append]
    rw [← List.append_assoc]
    exact List.rel_append answered more

theorem deliver_balanced {pkt : ServerPacket} {rest : List ServerPacket} (balanced : s.Balanced)
    (waiting : s.network.downlink session = pkt :: rest) :
    (s.note {s.network with
      client := Function.update s.network.client session ((s.network.client session).handlePacket pkt)
      downlink := Function.update s.network.downlink session rest} (.deliver session)).Balanced := by
  refine ⟨balanced.pushed,fun other => ?_⟩
  obtain ⟨done,asked,answered⟩ := balanced.settled other
  refine ⟨done,asked,?_⟩
  by_cases same : other = session
  · subst same
    simp only [note,Function.update_self,waiting,List.head?_cons,Option.toList_some]
    rw [List.append_assoc,← List.filter_append,List.singleton_append,← waiting]
    exact answered
  · simp only [note,Function.update_of_ne same]
    exact answered

theorem step_balanced (s : Ledger) (event : NetworkEvent) (next : Ledger) (balanced : s.Balanced) (taken : s.step event = some next) :
    next.Balanced := by
  obtain ⟨network,does,rfl⟩ := Option.map_eq_some_iff.mp taken
  cases Network.step_does does with
  | connects connected => exact connect_balanced balanced connected
  | types typed =>
    have kept := input_balanced balanced typed
    rwa [Option.toList_none,List.append_nil,Function.update_eq_self] at kept
  | asks typed existing => exact input_balanced balanced typed
  | serves waiting served => exact serve_balanced balanced waiting served
  | delivers waiting => exact deliver_balanced balanced waiting

-- Every packet that wants an answer gets one, to what it asked, in the order of the packets, and
-- nobody is answered who has not asked.
theorem requests_answered {events : List NetworkEvent} (path : Runs (Enabled step) start events s) (session : SessionRef) :
    s.Settled session :=
  (path.invariant step_balanced start_balanced).settled session

-- Two take the same nickname; the one that asks for a list at once is answered that, too.
def sameName : List NetworkEvent := [.connect 0 0,.connect 0 1,.deliver 0,.deliver 1,
  .input 0 (ascii "kim"),.input 1 (ascii "kim"),.serve 0 0,.serve 1 1,.deliver 0,.deliver 1,.deliver 1,
  .input 0 (ascii "list"),.input 0 (ascii "create hall"),.serve 0 0,.deliver 0]

theorem requests_answered_sameName : ∃ s, Runs (Enabled step) start sameName s ∧
    s.asked 0 = [.cSetNickname (ascii "kim"),.cRequestRoomList 0,.cCreateRoom (ascii "hall") 0] ∧
    s.answered 0 = [.sNicknameResult .ok (some ⟨1,ascii "kim"⟩),.sRoomList []] ∧
    s.answered 1 = [.sNicknameResult .duplicateNick none] ∧ s.Settled 0 ∧ s.Settled 1 := by
  obtain ⟨s,path,asked,kim,other⟩ : ∃ s, Runs (Enabled step) start sameName s ∧
    s.asked 0 = [.cSetNickname (ascii "kim"),.cRequestRoomList 0,.cCreateRoom (ascii "hall") 0] ∧
    s.answered 0 = [.sNicknameResult .ok (some ⟨1,ascii "kim"⟩),.sRoomList []] ∧
    s.answered 1 = [.sNicknameResult .duplicateNick none] := ⟨_,execute_runs rfl,rfl,rfl,rfl⟩
  exact ⟨s,path,asked,kim,other,requests_answered path 0,requests_answered path 1⟩

end Ledger
end IocpChatServer.DummyClient
