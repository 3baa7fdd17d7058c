import IocpChatServer.DummyClient.RoomAgreement
import IocpChatServer.GameServer.Ownership

namespace IocpChatServer.GameServer
open Protocol DummyClient

def Protocol.ClientPacket.words : ClientPacket → Option Bytes
  | .cChatRoom msg _ => some msg
  | .cSetNickname _ | .cRequestRoomList _ | .cCreateRoom _ _ | .cJoinRoom _ _ | .cLeaveRoom _ _ => none

-- The line Handle_S_CHAT_ROOM logs.
def chatLine (chat : ChatMessage) : Bytes := chat.nickname ++ ascii " : " ++ chat.msg

def Protocol.ServerPacket.line : ServerPacket → Option Bytes
  | .sChatRoom chat => some (chatLine chat)
  | .sNicknamePrompt _ | .sNicknameResult _ _ | .sRoomList _ | .sCreateRoom _ _ | .sEnterRoom _ | .sRoomEvent _ _ _ _ => none

-- Something said in a room, with a session for each player that was in it.
structure Utterance where
  speaker : SessionRef
  chat : ChatMessage
  listeners : List SessionRef
  deriving DecidableEq, Repr

def World.utterance (w : World) (speaker : SessionRef) : ClientPacket → List Utterance
  | .cChatRoom msg player =>
    match (w.getPlayer (self player).id).bind w.roomOf with
    | some room => [⟨speaker,⟨(w.rooms room).id,(self player).id,(self player).name,msg,0⟩,
        (w.rooms room).members.filterMap fun p => (w.players p).ownerSession⟩]
    | none => []
  | .cSetNickname _ | .cRequestRoomList _ | .cCreateRoom _ _ | .cJoinRoom _ _ | .cLeaveRoom _ _ => []

-- Owners are connected: there are no disconnects here.
def Server.Owned (s : Server) : Prop := ∀ p session, (s.world.players p).ownerSession = some session → s.session session = .connected

namespace Server
variable {s next : Server} {session other : SessionRef} {pkt : ClientPacket} {answer : Bool}

theorem handled_owned (owned : s.Owned) (connected : s.session session = .connected)
    (handled : Handles s session pkt (.ok (answer,next))) : next.Owned := by
  have sessions := handled_session handled
  have updated {p q : PlayerRef} {player : Player} {owner : SessionRef}
      (owns : (Function.update s.world.players p player q).ownerSession = some owner)
      (new : player.ownerSession = some owner → s.session owner = .connected) : s.session owner = .connected := by
    by_cases same : q = p
    · subst same
      rw [Function.update_self] at owns
      exact new owns
    · rw [Function.update_of_ne same] at owns
      exact owned q owner owns
  intro p owner owns
  rw [sessions]
  cases handled with
  | nicknameTaken => exact updated owns fun none => nomatch none
  | named => exact updated owns fun mine => Option.some.inj mine ▸ connected
  | listed | chatted | leavesNowhere | roomTaken | founded => exact owned p owner owns
  | rejected | joined | left => exact updated owns (owned _ owner)

theorem toOwners_mail {players : List PlayerRef} {message : ServerPacket} (owned : s.Owned) :
    mail (s.toOwners players message) other =
      List.replicate ((players.filterMap fun p => (s.world.players p).ownerSession).count other) message := by
  induction players with
  | nil => rfl
  | cons p rest ih =>
    have split : s.toOwners (p :: rest) message = s.toOwner p message ++ s.toOwners rest message := List.flatMap_cons
    rw [split,mail_append,ih]
    cases owns : (s.world.players p).ownerSession with
    | none => simp [toOwner,lock,owns,mail]
    | some owner =>
      have connected := owned p owner owns
      have alive : s.lock p = some owner := by simp [lock,owns,Option.filter,connected]
      have once : s.toOwner p message = [(owner,message)] := by simp only [toOwner,alive,delivery,connected,if_true]
      rw [once]
      by_cases same : owner = other
      · simp [mail,owns,same,List.replicate_succ]
      · simp [mail,owns,same]

theorem handled_said (handled : Handles s session pkt (.ok (answer,next))) :
    (∀ u ∈ s.world.utterance session pkt, u.speaker = session) ∧
      (s.world.utterance session pkt).map (fun u => u.chat.msg) = pkt.words.toList := by
  cases handled with
  | chatted known found => simp [World.utterance,known,found,ClientPacket.words]
  | nicknameTaken | named | listed | roomTaken | founded | rejected | joined | leavesNowhere | left =>
    exact ⟨fun u absent => absurd absent List.not_mem_nil,rfl⟩

theorem handled_lines (owned : s.Owned) (pushed : s.sent = []) (handled : Handles s session pkt (.ok (answer,next))) :
    (mail next.sent other).filterMap ServerPacket.line =
      (s.world.utterance session pkt).flatMap fun u => List.replicate (u.listeners.count other) (chatLine u.chat) := by
  by_cases chats : ∃ msg player, pkt = .cChatRoom msg player
  · obtain ⟨msg,player,rfl⟩ := chats
    cases handled with
    | chatted known found =>
      rw [pushed,List.nil_append,toOwners_mail owned]
      simp [World.utterance,known,found,World.chat,ServerPacket.line,List.filterMap_replicate]
  · have silent : s.world.utterance session pkt = [] := by
      cases pkt with
      | cChatRoom msg player => exact absurd ⟨msg,player,rfl⟩ chats
      | cSetNickname | cRequestRoomList | cCreateRoom | cJoinRoom | cLeaveRoom => rfl
    obtain ⟨sent,all,spoken⟩ := handled_chats handled
    rw [silent,List.flatMap_nil,List.filterMap_eq_nil_iff]
    intro message member
    rw [all,pushed,List.nil_append] at member
    cases message with
    | sChatRoom chat =>
      obtain ⟨msg,player,speaks⟩ := spoken other chat (mem_mail.mp member)
      exact absurd ⟨msg,player,speaks.packet⟩ chats
    | sNicknamePrompt | sNicknameResult | sRoomList | sCreateRoom | sEnterRoom | sRoomEvent => rfl

end Server
end IocpChatServer.GameServer

namespace IocpChatServer.DummyClient
open GameServer Protocol Foundations TransitionSystem

structure Conversation where
  network : Network
  typed : SessionRef → List Bytes
  spoken : List Utterance
  shown : SessionRef → List Bytes

namespace Conversation

def start : Conversation := ⟨.start,fun _ => [],[],fun _ => []⟩

variable (s : Conversation)

def hear (network : Network) : NetworkEvent → Conversation
  | .connect _ _ => {s with network := network}
  | .input session line => {s with
      network := network
      typed := Function.update s.typed session
        (s.typed session ++ (((s.network.client session).handleInputLine line).1.bind ClientPacket.words).toList)}
  | .serve _ session => {s with
      network := network
      spoken := s.spoken ++ (s.network.uplink session).head?.toList.flatMap (s.network.server.world.utterance session)}
  | .deliver session => {s with
      network := network
      shown := Function.update s.shown session
        (s.shown session ++ ((s.network.downlink session).head?.bind ServerPacket.line).toList)}

def step (event : NetworkEvent) : Option Conversation := (s.network.step event).map fun network => s.hear network event

def Said (session : SessionRef) : Prop := s.typed session =
  ((s.spoken.filter fun u => u.speaker = session).map fun u => u.chat.msg) ++ (s.network.uplink session).filterMap ClientPacket.words

-- What was said has been shown in this order, once for each player of the session that was there.
def Shown (session : SessionRef) : Prop := s.shown session ++ (s.network.downlink session).filterMap ServerPacket.line =
  s.spoken.flatMap fun u => List.replicate (u.listeners.count session) (chatLine u.chat)

structure Faithful (s : Conversation) : Prop where
  owned : s.network.server.Owned
  pushed : s.network.server.sent = []
  said : ∀ session, s.Said session
  shown : ∀ session, s.Shown session

theorem start_faithful : Faithful start where
  owned p session owns := by simp [start,Network.start,Server.start] at owns
  pushed := rfl
  said _ := rfl
  shown _ := rfl

variable {s next : Conversation} {event : NetworkEvent} {session : SessionRef}

theorem sent_words (sent : Option ClientPacket) : (sent.bind ClientPacket.words).toList = sent.toList.filterMap ClientPacket.words := by
  cases sent with
  | none => rfl
  | some pkt => cases words : pkt.words <;> simp [words]

theorem first_words (pkt : ClientPacket) (rest : List ClientPacket) :
    (pkt :: rest).filterMap ClientPacket.words = pkt.words.toList ++ rest.filterMap ClientPacket.words := by
  cases words : pkt.words <;> simp [words]

theorem connect_faithful {worker : Nat} {server : Server} (faithful : s.Faithful)
    (connects : s.network.server.step (.connect worker session) = some server) :
    (s.hear (s.network.collect server) (.connect worker session)).Faithful := by
  obtain ⟨absent,threads,rfl⟩ := Server.connect_does connects
  refine ⟨fun p other owns => ?_,rfl,faithful.said,fun other => ?_⟩
  · by_cases same : other = session
    · subst same
      exact Function.update_self ..
    · exact (Function.update_of_ne same ..).trans (faithful.owned p other owns)
  · have prompt : (mail [(session,ServerPacket.nicknamePrompt)] other).filterMap ServerPacket.line = [] := by
      by_cases same : session = other <;> simp [mail,same,ServerPacket.nicknamePrompt,ServerPacket.line]
    have shown := faithful.shown other
    simp only [Shown,hear,Network.collect,faithful.pushed,List.nil_append,List.filterMap_append,prompt,List.append_nil] at shown ⊢
    exact shown

theorem input_faithful {line : Bytes} {sent : Option ClientPacket} {client : Client} (faithful : s.Faithful)
    (typed : (s.network.client session).handleInputLine line = (sent,client)) :
    (s.hear {s.network with
      client := Function.update s.network.client session client
      uplink := Function.update s.network.uplink session (s.network.uplink session ++ sent.toList)} (.input session line)).Faithful := by
  refine ⟨faithful.owned,faithful.pushed,fun other => ?_,faithful.shown⟩
  have said := faithful.said other
  by_cases same : other = session
  · subst same
    have words : (sent.bind ClientPacket.words).toList = sent.toList.filterMap ClientPacket.words := sent_words sent
    simp only [Said,hear,Function.update_self,typed,List.filterMap_append,words] at said ⊢
    rw [said,List.append_assoc]
  · simp only [Said,hear,Function.update_of_ne same] at said ⊢
    exact said

theorem serve_faithful {worker : Nat} {pkt : ClientPacket} {rest : List ClientPacket} {server : Server} (faithful : s.Faithful)
    (waiting : s.network.uplink session = pkt :: rest) (serves : s.network.server.step (.packet worker session pkt) = some server) :
    (s.hear ({s.network with uplink := Function.update s.network.uplink session rest}.collect server) (.serve worker session)).Faithful := by
  obtain ⟨answer,handled⟩ := Server.packet_handled serves
  have owned := Server.handled_owned faithful.owned (Server.step_session serves).1 handled
  obtain ⟨speaker,words⟩ := Server.handled_said handled
  refine ⟨owned,rfl,fun other => ?_,fun other => ?_⟩
  · have said := faithful.said other
    by_cases same : other = session
    · subst same
      have mine : (s.network.server.world.utterance other pkt).filter (fun u => u.speaker = other) =
          s.network.server.world.utterance other pkt := List.filter_eq_self.mpr fun u spoken => decide_eq_true (speaker u spoken)
      simp only [Said,hear,Network.collect,waiting,Function.update_self,List.head?_cons,Option.toList_some,List.flatMap_cons,
        List.flatMap_nil,List.append_nil,List.filter_append,List.map_append,mine,words] at said ⊢
      rw [said,List.append_assoc,← first_words]
    · have others : (s.network.server.world.utterance session pkt).filter (fun u => u.speaker = other) = [] :=
        List.filter_eq_nil_iff.mpr fun u spoken theirs => same ((of_decide_eq_true theirs).symm.trans (speaker u spoken))
      simp only [Said,hear,Network.collect,waiting,Function.update_of_ne same,List.head?_cons,Option.toList_some,List.flatMap_cons,
        List.flatMap_nil,List.append_nil,List.filter_append,others] at said ⊢
      exact said
  · have shown := faithful.shown other
    have lines := @Server.handled_lines _ _ _ other _ _ faithful.owned faithful.pushed handled
    simp only [Shown,hear,Network.collect,waiting,List.head?_cons,Option.toList_some,List.flatMap_cons,List.flatMap_nil,List.append_nil,
      List.filterMap_append,List.flatMap_append,lines] at shown ⊢
    rw [← shown,List.append_assoc]

theorem deliver_faithful {pkt : ServerPacket} {rest : List ServerPacket} (faithful : s.Faithful)
    (waiting : s.network.downlink session = pkt :: rest) :
    (s.hear {s.network with
      client := Function.update s.network.client session ((s.network.client session).handlePacket pkt)
      downlink := Function.update s.network.downlink session rest} (.deliver session)).Faithful := by
  refine ⟨faithful.owned,faithful.pushed,faithful.said,fun other => ?_⟩
  have shown := faithful.shown other
  by_cases same : other = session
  · subst same
    have line : (pkt :: rest).filterMap ServerPacket.line = pkt.line.toList ++ rest.filterMap ServerPacket.line := by
      cases said : pkt.line <;> simp [said]
    simp only [Shown,hear,Function.update_self,waiting,List.head?_cons,Option.bind_some,line] at shown ⊢
    rw [← shown,List.append_assoc]
  · simp only [Shown,hear,Function.update_of_ne same] at shown ⊢
    exact shown

theorem step_faithful (faithful : s.Faithful) (taken : s.step event = some next) : next.Faithful := by
  obtain ⟨network,does,rfl⟩ := Option.map_eq_some_iff.mp taken
  cases Network.step_does does with
  | connects connected => exact connect_faithful faithful connected
  | types typed =>
    have kept := input_faithful faithful typed
    rwa [Option.toList_none,List.append_nil,Function.update_eq_self] at kept
  | asks typed existing => exact input_faithful faithful typed
  | serves waiting served => exact serve_faithful faithful waiting served
  | delivers waiting => exact deliver_faithful faithful waiting

theorem runs_faithful {events : List NetworkEvent} (path : Runs (Enabled step) start events s) : s.Faithful :=
  path.invariant (fun _ _ _ faithful taken => step_faithful faithful taken) start_faithful

-- What the clients type in rooms is said there in the order typed, and everyone there is shown
-- it, all in the one order in which it was said, nothing lost, doubled or made up.
theorem conversation_ordered {events : List NetworkEvent} (path : Runs (Enabled step) start events s) (session : SessionRef) :
    s.Said session ∧ s.Shown session :=
  ⟨(runs_faithful path).said session,(runs_faithful path).shown session⟩

def greeting : List NetworkEvent := [.connect 0 0,.connect 0 1,.deliver 0,.deliver 1,
  .input 0 (ascii "kim"),.serve 0 0,.deliver 0,.input 1 (ascii "lee"),.serve 0 1,.deliver 1,
  .input 0 (ascii "create hall"),.serve 0 0,.deliver 0,
  .input 0 (ascii "join 1"),.serve 0 0,.deliver 0,.deliver 0,.input 1 (ascii "join 1"),.serve 0 1,.deliver 1,.deliver 1,
  .input 0 (ascii "hello"),.input 1 (ascii "hi"),.serve 0 1,.serve 0 0,.deliver 0,.deliver 0,.deliver 0,.deliver 1]

theorem conversation_ordered_greeting : ∃ s, Runs (Enabled step) start greeting s ∧
    s.typed 0 = [ascii "hello"] ∧ s.shown 0 = [ascii "lee : hi",ascii "kim : hello"] ∧ s.shown 1 = [ascii "lee : hi"] ∧
    s.Said 0 ∧ s.Shown 1 := by
  obtain ⟨s,path,typed,kim,lee⟩ : ∃ s, Runs (Enabled step) start greeting s ∧
    s.typed 0 = [ascii "hello"] ∧ s.shown 0 = [ascii "lee : hi",ascii "kim : hello"] ∧ s.shown 1 = [ascii "lee : hi"] :=
    ⟨_,execute_runs rfl,rfl,rfl,rfl⟩
  exact ⟨s,path,typed,kim,lee,(conversation_ordered path 0).1,(conversation_ordered path 1).2⟩

end Conversation
end IocpChatServer.DummyClient
