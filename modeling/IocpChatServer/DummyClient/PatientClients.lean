import IocpChatServer.DummyClient.RoomAgreement
import IocpChatServer.GameServer.Acquaintance
import IocpChatServer.GameServer.NullSafety

namespace IocpChatServer.DummyClient
open GameServer Protocol Foundations TransitionSystem

namespace Client
variable {c : Client} {pkt : ServerPacket}

def phase (c : Client) : Phase :=
  match c.state with
  | .connecting | .waitingNickname => .guest
  | .lobby => .lobby c.myId
  | .inRoom => .inRoom c.myId

def hears (c : Client) (pkts : List ServerPacket) : Client := pkts.foldl handlePacket c

theorem hears_append (one two : List ServerPacket) : c.hears (one ++ two) = (c.hears one).hears two := List.foldl_append

theorem handlePacket_news (news : pkt.IsNews) : (c.handlePacket pkt).state = c.state ∧ (c.handlePacket pkt).myId = c.myId := by
  cases pkt with
  | sNicknamePrompt | sNicknameResult | sEnterRoom => exact news.elim
  | sRoomList | sCreateRoom | sChatRoom => exact ⟨rfl,rfl⟩
  | sRoomEvent type =>
    simp only [handlePacket,handleRoomEvent]
    split <;> exact ⟨rfl,rfl⟩

theorem hears_news {pkts : List ServerPacket} (news : ∀ pkt ∈ pkts, pkt.IsNews) :
    (c.hears pkts).state = c.state ∧ (c.hears pkts).myId = c.myId := by
  induction pkts generalizing c with
  | nil => exact ⟨rfl,rfl⟩
  | cons pkt rest ih =>
    obtain ⟨state,id⟩ := @handlePacket_news c pkt (news pkt List.mem_cons_self)
    obtain ⟨states,ids⟩ := @ih (c.handlePacket pkt) fun other member => news other (List.mem_cons_of_mem pkt member)
    exact ⟨states.trans state,ids.trans id⟩

theorem phase_same {d : Client} (same : d.state = c.state ∧ d.myId = c.myId) : d.phase = c.phase := by
  unfold phase
  rw [same.1,same.2]

inductive Types (c : Client) : Option ClientPacket × Client → Prop where
  | nothing : Types c (none,c)
  | nickname : c.state = .waitingNickname → Types c (c.setNickname name)
  | list : c.state = .lobby → Types c c.requestRoomList
  | create : c.state = .lobby → Types c (c.createRoom name)
  | join : c.state = .lobby → Types c (c.enterRoomById roomId)
  | leave : c.state = .inRoom → Types c c.leaveRoom
  | chat : c.state = .inRoom → Types c (c.chatToRoom msg)

theorem handleInputLine_types (line : Bytes) : c.Types (c.handleInputLine line) := by
  unfold handleInputLine
  split
  · rename_i waiting
    split
    · exact .nothing
    · exact .nickname waiting
  · rename_i lobby
    split
    · exact .list lobby
    · split
      · dsimp only
        split
        · exact .nothing
        · exact .create lobby
      · split
        · dsimp only
          split
          · exact .nothing
          · split
            · exact .nothing
            · exact .join lobby
        · exact .nothing
  · rename_i inRoom
    split
    · exact .leave inRoom
    · split
      · exact .chat inRoom
      · exact .nothing
  · exact .nothing

theorem Types.legal {w : World} {packet : ClientPacket} {client : Client} (types : c.Types (some packet,client))
    (existing : Existing w packet) :
    client.phase = c.phase ∧ c.phase.Asks w packet ∨ c.phase.tell packet = some client.phase := by
  have sends {pkt packet : ClientPacket} (sent : c.send pkt = some packet) : packet = pkt := by
    unfold Client.send at sent
    split at sent <;> cases sent
    rfl
  generalize same : (some packet,client) = outcome at types
  cases types with
  | nothing => cases same
  | nickname waiting =>
    obtain ⟨sent,rfl⟩ := Prod.mk.inj same
    cases sends sent.symm
    refine .inl ⟨rfl,?_⟩
    rw [phase,waiting]
    trivial
  | list lobby | create lobby =>
    obtain ⟨sent,rfl⟩ := Prod.mk.inj same
    cases sends sent.symm
    refine .inr ?_
    rw [phase,lobby]
    rfl
  | join lobby =>
    obtain ⟨sent,rfl⟩ := Prod.mk.inj same
    cases sends sent.symm
    refine .inl ⟨rfl,?_⟩
    rw [phase,lobby]
    exact ⟨rfl,existing⟩
  | leave inRoom =>
    obtain ⟨sent,rfl⟩ := Prod.mk.inj same
    have connected : c.session = true := by
      unfold Client.send at sent
      split at sent
      · assumption
      · cases sent
    cases sends sent.symm
    refine .inr ?_
    rw [if_pos connected,phase,inRoom]
    exact if_pos rfl
  | chat inRoom =>
    obtain ⟨sent,rfl⟩ := Prod.mk.inj same
    cases sends sent.symm
    refine .inr ?_
    rw [phase,inRoom]
    exact if_pos rfl

theorem Types.silent {client : Client} (types : c.Types (none,client)) : client = c := by
  generalize same : (none,client) = outcome at types
  cases types with
  | nothing | nickname | list | create | join | chat =>
    obtain ⟨_,rfl⟩ := Prod.mk.inj same
    rfl
  | leave =>
    obtain ⟨sent,rfl⟩ := Prod.mk.inj same
    unfold Client.send at sent
    split at sent
    · cases sent
    · rename_i away
      exact if_neg away

theorem phase_lobby {id : UInt64} (lobby : c.phase = .lobby id) : c.myId = id := by
  unfold phase at lobby
  split at lobby <;> cases lobby
  rfl

end Client

section Answers
variable {s next : Server} {session : SessionRef} {pkt : ClientPacket} {answer : Bool} {c : Client}

theorem mail_delivery (connected : s.session session = .connected) (message : ServerPacket) :
    mail (s.delivery session message) session = [message] := by simp [mail,Server.delivery,connected]

theorem handled_answers (valid : s.world.Valid) (fresh : s.world.Fresh) (handled : Handles s session pkt (.ok (answer,next)))
    (pushed : s.sent = []) (connected : s.session session = .connected) (knows : s.world.Recognizes session c.phase)
    (asks : c.phase.Asks s.world pkt) : next.world.Recognizes session (c.hears (mail next.sent session)).phase := by
  have retains := World.handled_retains valid fresh handled
  have after := World.handled_valid valid handled
  cases pkt with
  | cRequestRoomList | cCreateRoom | cChatRoom | cLeaveRoom => cases there : c.phase <;> rw [there] at asks <;> exact asks.elim
  | cSetNickname name =>
    cases handled with
    | nicknameTaken =>
      simp only [pushed,List.nil_append,mail_append,mail_delivery connected]
      trivial
    | named =>
      simp only [pushed,List.nil_append,mail_delivery connected]
      exact ⟨s.world.playerCount,Table.insert_exact.mpr (.inl ⟨rfl,rfl⟩),by simp [World.named]⟩
  | cJoinRoom roomId player =>
    cases there : c.phase with
    | guest | inRoom =>
      rw [there] at asks
      exact asks.elim
    | lobby id =>
      rw [there] at asks knows
      obtain ⟨p,owns⟩ := knows
      obtain ⟨rfl,_⟩ := asks
      cases handled with
      | rejected =>
        simp only [pushed,List.nil_append,mail_delivery connected]
        change World.Recognizes _ session c.phase
        rw [there]
        exact ⟨p,retains.owns owns⟩
      | @joined _ room _ _ _ found known =>
        cases known.symm.trans owns.1
        simp only [pushed,List.nil_append,mail_append,mail_delivery connected,Client.hears,List.foldl_append,List.foldl_cons,List.foldl_nil]
        have heard := (@Client.hears_news c (mail (s.toOwners ((s.world.entered room p).rooms room).members (s.world.joinedEvent room p))
          session) fun message member => by rw [Server.toOwners_message (mem_mail.mp member)]; trivial).2
        change World.Recognizes _ session (.inRoom (c.hears _).myId)
        rw [heard,Client.phase_lobby there]
        have there := World.roomOf_listed after (retains.rooms _ _ found)
          ((World.moved_roomId p p _).trans ((if_pos rfl).trans (World.seated_id _ _ _).symm))
        exact ⟨p,retains.owns owns,by rw [there]; exact Option.some_ne_none _⟩

end Answers

namespace Network

-- A client that has asked for a nickname or a room waits for the answer before it sends more.
def Patient (n : Network) : NetworkEvent → Prop
  | .input session line => ((n.client session).handleInputLine line).1 ≠ none →
    (∀ pkt ∈ n.uplink session, ¬pkt.IsQuestion) ∧ ∀ pkt ∈ n.downlink session, pkt.IsNews
  | .connect _ _ | .serve _ _ | .deliver _ => True

instance (n : Network) : (event : NetworkEvent) → Decidable (n.Patient event)
  | .input session line => inferInstanceAs (Decidable (((n.client session).handleInputLine line).1 ≠ none →
    (∀ pkt ∈ n.uplink session, ¬pkt.IsQuestion) ∧ ∀ pkt ∈ n.downlink session, pkt.IsNews))
  | .connect _ _ | .serve _ _ | .deliver _ => .isTrue trivial

-- How server and client of a session stand to each other: nothing has been asked, a question is
-- the last on its way, or its answer is.
inductive Follows (n : Network) (session : SessionRef) : Prop where
  | telling (phase : Phase) : n.server.world.Recognizes session phase →
      phase.tells (n.uplink session) = some (n.client session).phase → (∀ pkt ∈ n.downlink session, pkt.IsNews) → Follows n session
  | asking (phase : Phase) (told : List ClientPacket) (question : ClientPacket) : n.server.world.Recognizes session phase →
      n.uplink session = told ++ [question] → phase.tells told = some (n.client session).phase →
      (n.client session).phase.Asks n.server.world question → (∀ pkt ∈ n.downlink session, pkt.IsNews) → Follows n session
  | answered : n.uplink session = [] → n.server.world.Recognizes session ((n.client session).hears (n.downlink session)).phase →
      Follows n session

structure Orderly (n : Network) : Prop where
  world : n.server.world.Valid
  fresh : n.server.world.Fresh
  pushed : n.server.sent = []
  sessions : ∀ session, n.server.session session = .connected ∨ n.server.session session = .absent ∧
    (n.client session).state = .connecting ∧ n.uplink session = [] ∧ n.downlink session = []
  follows : ∀ session, n.Follows session

theorem start_orderly : Orderly start where
  world := World.start_valid
  fresh id p known := by simp [start,Server.start,World.getPlayer] at known
  pushed := rfl
  sessions _ := .inr ⟨rfl,rfl,rfl,rfl⟩
  follows _ := .answered rfl trivial

variable {n m : Network} {session other : SessionRef} {more : List ServerPacket}

theorem Follows.elsewhere (follows : n.Follows session) (client : m.client session = n.client session)
    (up : m.uplink session = n.uplink session) (down : m.downlink session = n.downlink session ++ more) (news : ∀ pkt ∈ more, pkt.IsNews)
    (knows : ∀ phase, n.server.world.Recognizes session phase → m.server.world.Recognizes session phase)
    (rooms : ∀ roomId, n.server.world.getRoom roomId ≠ none → m.server.world.getRoom roomId ≠ none) : m.Follows session := by
  have all (before : ∀ pkt ∈ n.downlink session, pkt.IsNews) : ∀ pkt ∈ m.downlink session, pkt.IsNews := by
    intro pkt member
    rw [down] at member
    exact (List.mem_append.mp member).elim (before pkt) (news pkt)
  cases follows with
  | telling phase known told before => exact .telling phase (knows phase known) (by rwa [up,client]) (all before)
  | asking phase told question known waiting legal asks before =>
    refine .asking phase told question (knows phase known) (up.trans waiting) (by rwa [client]) ?_ (all before)
    rw [client]
    exact asks.kept rooms
  | answered silent known =>
    refine .answered (up.trans silent) ?_
    rw [client,down,Client.hears_append,Client.phase_same (Client.hears_news news)]
    exact knows _ known

theorem Follows.first {pkt : ClientPacket} {rest : List ClientPacket} (follows : n.Follows session)
    (waiting : n.uplink session = pkt :: rest) :
    ∃ phase, n.server.world.Recognizes session phase ∧ (phase.Asks n.server.world pkt ∨ ∃ after, phase.tell pkt = some after) := by
  cases follows with
  | telling phase known told =>
    rw [waiting,Phase.tells,List.foldlM_cons] at told
    obtain ⟨after,step,_⟩ := Option.bind_eq_some_iff.mp told
    exact ⟨phase,known,.inr ⟨after,step⟩⟩
  | asking phase told question known split legal asks =>
    rw [waiting] at split
    cases told with
    | nil =>
      cases split
      cases legal
      exact ⟨_,known,.inl asks⟩
    | cons first told =>
      cases split
      rw [Phase.tells,List.foldlM_cons] at legal
      obtain ⟨after,step,_⟩ := Option.bind_eq_some_iff.mp legal
      exact ⟨phase,known,.inr ⟨after,step⟩⟩
  | answered silent =>
    rw [waiting] at silent
    cases silent

theorem Follows.served {next : Server} {pkt : ClientPacket} {rest : List ClientPacket} {answer : Bool} (follows : n.Follows session)
    (orderly : n.Orderly) (connected : n.server.session session = .connected) (waiting : n.uplink session = pkt :: rest)
    (handled : Handles n.server session pkt (.ok (answer,next))) (server : m.server.world = next.world)
    (client : m.client session = n.client session) (up : m.uplink session = rest)
    (down : m.downlink session = n.downlink session ++ mail next.sent session) : m.Follows session := by
  have retains := World.handled_retains orderly.world orderly.fresh handled
  have sent := Server.handled_posts handled orderly.pushed
  have told {after phase : Phase} (step : phase.tell pkt = some after) (before : ∀ pkt ∈ n.downlink session, pkt.IsNews) :
      ∀ pkt ∈ m.downlink session, pkt.IsNews := by
    intro message member
    rw [down] at member
    rcases List.mem_append.mp member with old | new
    · exact before message old
    · rcases (sent _ (mem_mail.mp new)).2 with news | ⟨asks,_⟩
      · exact news
      · exact absurd asks (Server.tell_statement step)
  cases follows with
  | telling phase known legal before =>
    rw [waiting,Phase.tells,List.foldlM_cons] at legal
    obtain ⟨after,step,legal⟩ := Option.bind_eq_some_iff.mp legal
    refine .telling after ?_ (by rw [up,client]; exact legal) (told step before)
    rw [server]
    exact Server.handled_tells orderly.world orderly.fresh handled known step
  | asking phase words question known split legal asks before =>
    rw [waiting] at split
    cases words with
    | nil =>
      cases split
      cases legal
      refine .answered up ?_
      have same := Client.phase_same (@Client.hears_news (n.client session) _ before)
      rw [client,down,Client.hears_append,server]
      exact handled_answers orderly.world orderly.fresh handled orderly.pushed connected (by rwa [same]) (by rwa [same])
    | cons first words =>
      cases split
      rw [Phase.tells,List.foldlM_cons] at legal
      obtain ⟨after,step,legal⟩ := Option.bind_eq_some_iff.mp legal
      refine .asking after words question ?_ up (by rw [client]; exact legal) ?_ (told step before)
      · rw [server]
        exact Server.handled_tells orderly.world orderly.fresh handled known step
      · rw [client,server]
        exact asks.kept retains.listed
  | answered silent =>
    rw [waiting] at silent
    cases silent

theorem connect_orderly {worker : Nat} {server : Server} (orderly : n.Orderly)
    (taken : n.server.step (.connect worker session) = some server) :
    (n.collect server).Orderly ∧ server.world.manager.playerId = n.server.world.manager.playerId := by
  obtain ⟨absent,threads,rfl⟩ := Server.connect_does taken
  refine ⟨⟨World.sessions_valid orderly.world _,orderly.fresh,rfl,fun other => ?_,fun other => ?_⟩,rfl⟩
  · by_cases same : other = session
    · subst same
      exact .inl (Function.update_self ..)
    · rcases orderly.sessions other with connected | ⟨silent,state,up,down⟩
      · exact .inl ((Function.update_of_ne same ..).trans connected)
      · refine .inr ⟨(Function.update_of_ne same ..).trans silent,state,up,?_⟩
        simp [collect,down,mail,orderly.pushed,Ne.symm same]
  · by_cases same : other = session
    · subst same
      rcases orderly.sessions other with connected | ⟨_,state,up,down⟩
      · exact absurd (absent.symm.trans connected) (by simp)
      · refine .answered up ?_
        simp only [collect,down,mail,orderly.pushed,Client.hears]
        simp [Client.handlePacket,Client.handleNicknamePrompt,ServerPacket.nicknamePrompt,Client.phase,World.Recognizes]
    · have none : mail (n.server.sent ++ [(session,ServerPacket.nicknamePrompt)]) other = [] := by
        simp [mail,orderly.pushed,Ne.symm same]
      refine (orderly.follows other).elsewhere rfl rfl rfl ?_ (fun phase knows => knows) fun _ listed => listed
      rw [none]
      exact fun _ absent => by cases absent

theorem Follows.talks (follows : n.Follows session) (quiet : ∀ pkt ∈ n.uplink session, ¬pkt.IsQuestion)
    (news : ∀ pkt ∈ n.downlink session, pkt.IsNews) :
    ∃ phase, n.server.world.Recognizes session phase ∧ phase.tells (n.uplink session) = some (n.client session).phase := by
  cases follows with
  | telling phase known told => exact ⟨phase,known,told⟩
  | asking phase told question _ waiting _ asks =>
    refine absurd ?_ (quiet question (by simp [waiting]))
    cases there : (n.client session).phase <;> cases question <;> rw [there] at asks <;> first | exact asks.elim | trivial
  | answered silent known =>
    rw [Client.phase_same (Client.hears_news news)] at known
    exact ⟨_,known,by rw [silent]; rfl⟩

theorem Follows.types {line : Bytes} {sent : Option ClientPacket} {client : Client} (follows : n.Follows session)
    (typed : (n.client session).handleInputLine line = (sent,client)) (existing : ∀ pkt ∈ sent, Existing n.server.world pkt)
    (patient : sent ≠ none → (∀ pkt ∈ n.uplink session, ¬pkt.IsQuestion) ∧ ∀ pkt ∈ n.downlink session, pkt.IsNews)
    (server : m.server.world = n.server.world) (mine : m.client session = client) (up : m.uplink session = n.uplink session ++ sent.toList)
    (down : m.downlink session = n.downlink session) : m.Follows session := by
  have types := @Client.handleInputLine_types (n.client session) line
  rw [typed] at types
  cases sent with
  | none =>
    cases types.silent
    have same : m.downlink session = n.downlink session ++ [] := by rw [down,List.append_nil]
    exact follows.elsewhere mine (up.trans (List.append_nil _)) same (fun _ absent => nomatch absent)
      (fun phase knows => by rwa [server]) fun roomId listed => by rwa [server]
  | some pkt =>
    obtain ⟨quiet,news⟩ := patient (Option.some_ne_none pkt)
    obtain ⟨phase,known,told⟩ := follows.talks quiet news
    rcases types.legal (existing pkt rfl) with ⟨same,asks⟩ | step
    · refine .asking phase (n.uplink session) pkt (by rwa [server]) up ?_ ?_ (by rwa [down])
      · rw [mine,same]
        exact told
      · rw [mine,same,server]
        exact asks
    · refine .telling phase (by rwa [server]) ?_ (by rwa [down])
      rw [up,mine,Phase.tells,Option.toList_some,List.foldlM_append]
      exact Option.bind_eq_some_iff.mpr ⟨_,told,by simpa using step⟩

theorem input_orderly {line : Bytes} {sent : Option ClientPacket} {client : Client} (orderly : n.Orderly)
    (typed : (n.client session).handleInputLine line = (sent,client)) (existing : ∀ pkt ∈ sent, Existing n.server.world pkt)
    (patient : sent ≠ none → (∀ pkt ∈ n.uplink session, ¬pkt.IsQuestion) ∧ ∀ pkt ∈ n.downlink session, pkt.IsNews) :
    Orderly {n with
      client := Function.update n.client session client
      uplink := Function.update n.uplink session (n.uplink session ++ sent.toList)} := by
  refine ⟨orderly.world,orderly.fresh,orderly.pushed,fun other => ?_,fun other => ?_⟩
  · by_cases same : other = session
    · subst same
      refine (orderly.sessions other).imp_right fun ⟨silent,state,up,down⟩ => ?_
      simp only [Client.handleInputLine,state] at typed
      cases typed
      simp only [Function.update_self,up]
      exact ⟨silent,state,rfl,down⟩
    · simp only [Function.update_of_ne same]
      exact orderly.sessions other
  · by_cases same : other = session
    · subst same
      exact (orderly.follows other).types typed existing patient rfl (Function.update_self ..) (Function.update_self ..) rfl
    · exact (orderly.follows other).elsewhere (Function.update_of_ne same ..) (Function.update_of_ne same ..) (List.append_nil _).symm
        (fun _ absent => nomatch absent) (fun phase knows => knows) fun _ listed => listed

theorem serve_orderly {worker : Nat} {pkt : ClientPacket} {rest : List ClientPacket} {server : Server} (orderly : n.Orderly)
    (few : n.server.world.manager.playerId.toNat + 1 < 2^64) (waiting : n.uplink session = pkt :: rest)
    (served : n.server.step (.packet worker session pkt) = some server) :
    ({n with uplink := Function.update n.uplink session rest}.collect server).Orderly ∧
      server.world.manager.playerId.toNat ≤ n.server.world.manager.playerId.toNat + 1 := by
  have connected := (Server.step_session served).1
  obtain ⟨answer,handled⟩ := Server.packet_handled served
  obtain ⟨fresh,count⟩ := World.handled_fresh orderly.fresh few handled
  have posts := Server.handled_posts handled orderly.pushed
  have valid := World.handled_valid orderly.world handled
  refine ⟨⟨valid,fresh,rfl,fun other => ?_,fun other => ?_⟩,count⟩
  · have sessions : server.session = n.server.session := Server.handled_session handled
    rcases orderly.sessions other with up | ⟨silent,state,up,down⟩
    · exact .inl (by simpa [collect,sessions] using up)
    · have apart : other ≠ session := fun same => by
        rw [same,connected] at silent
        cases silent
      have none : mail server.sent other = [] := by
        refine List.eq_nil_iff_forall_not_mem.mpr fun message member => ?_
        have alive := (posts _ (mem_mail.mp member)).1
        exact absurd (silent.symm.trans alive) (by simp)
      refine .inr ⟨by simpa [collect,sessions] using silent,state,?_,?_⟩
      · simpa [collect,apart] using up
      · simp [collect,down,none]
  · by_cases same : other = session
    · subst same
      exact (orderly.follows other).served orderly connected waiting handled rfl rfl (Function.update_self ..) rfl
    · obtain ⟨phase,known,legal⟩ := (orderly.follows session).first waiting
      refine (orderly.follows other).elsewhere rfl (Function.update_of_ne same ..) rfl (fun message member => ?_)
        (fun theirs knows => Server.handled_others orderly.world orderly.fresh handled known legal same knows)
        (World.handled_retains orderly.world orderly.fresh handled).listed
      exact (posts _ (mem_mail.mp member)).2.resolve_right fun ⟨_,mine⟩ => same mine

theorem deliver_orderly {pkt : ServerPacket} {rest : List ServerPacket} (orderly : n.Orderly) (waiting : n.downlink session = pkt :: rest) :
    Orderly {n with
      client := Function.update n.client session ((n.client session).handlePacket pkt)
      downlink := Function.update n.downlink session rest} := by
  refine ⟨orderly.world,orderly.fresh,orderly.pushed,fun other => ?_,fun other => ?_⟩
  · by_cases same : other = session
    · subst same
      refine (orderly.sessions other).imp_right fun ⟨_,_,_,down⟩ => ?_
      rw [waiting] at down
      cases down
    · simp only [Function.update_of_ne same]
      exact orderly.sessions other
  · by_cases same : other = session
    · subst same
      have fewer (before : ∀ pkt ∈ n.downlink other, pkt.IsNews) : ∀ pkt ∈ rest, pkt.IsNews :=
        fun message member => before message (by simp [waiting,member])
      have phase (before : ∀ pkt ∈ n.downlink other, pkt.IsNews) : ((n.client other).handlePacket pkt).phase = (n.client other).phase :=
        Client.phase_same (Client.handlePacket_news (before pkt (by simp [waiting])))
      cases orderly.follows other with
      | telling before known told news =>
        refine .telling before known ?_ ?_
        · simp only [Function.update_self,phase news]
          exact told
        · simp only [Function.update_self]
          exact fewer news
      | asking before words question known split told asks news =>
        refine .asking before words question known split ?_ ?_ ?_
        · simp only [Function.update_self,phase news]
          exact told
        · simp only [Function.update_self,phase news]
          exact asks
        · simp only [Function.update_self]
          exact fewer news
      | answered silent known =>
        refine .answered silent ?_
        simp only [Function.update_self]
        rw [waiting] at known
        exact known
    · exact (orderly.follows other).elsewhere (Function.update_of_ne same ..) rfl
        ((Function.update_of_ne same ..).trans (List.append_nil _).symm)
        (fun _ absent => nomatch absent) (fun phase knows => knows) fun _ listed => listed

theorem step_orderly {event : NetworkEvent} (orderly : n.Orderly) (few : n.server.world.manager.playerId.toNat + 1 < 2^64)
    (taken : Guarded (Enabled step) Patient n event m) :
    m.Orderly ∧ m.server.world.manager.playerId.toNat ≤ n.server.world.manager.playerId.toNat + 1 := by
  obtain ⟨taken,patient⟩ := taken
  cases step_does taken with
  | connects connected =>
    obtain ⟨kept,same⟩ := connect_orderly orderly connected
    exact ⟨kept,same ▸ Nat.le_succ _⟩
  | types typed =>
    refine ⟨?_,Nat.le_succ _⟩
    have kept := input_orderly orderly typed (fun _ absent => nomatch absent) fun some_ => absurd rfl some_
    rwa [Option.toList_none,List.append_nil,Function.update_eq_self] at kept
  | asks typed existing =>
    refine ⟨input_orderly orderly typed (fun pkt same => ?_) fun some_ => patient (by rwa [typed]),Nat.le_succ _⟩
    cases same
    exact existing
  | serves waiting served => exact serve_orderly orderly few waiting served
  | delivers waiting => exact ⟨deliver_orderly orderly waiting,Nat.le_succ _⟩

theorem runs_orderly {events : List NetworkEvent} (path : Runs (Guarded (Enabled step) Patient) start events n)
    (few : events.length + 1 < 2^64) :
    n.Orderly ∧ n.server.world.manager.playerId.toNat ≤ events.length + 1 := by
  induction path with
  | nil => exact ⟨start_orderly,Nat.le_refl 1⟩
  | step _ taken ih =>
    rw [List.length_append,List.length_singleton] at few ⊢
    obtain ⟨orderly,count⟩ := ih (by omega)
    obtain ⟨kept,more⟩ := step_orderly orderly (by omega) taken
    exact ⟨kept,by omega⟩

theorem Orderly.alive (orderly : n.Orderly) (p : PlayerRef) : ¬n.server.Expired p := by
  rintro ⟨session,_,gone⟩
  rcases orderly.sessions session with up | ⟨silent,_⟩
  · exact absurd (up.symm.trans gone) (by simp)
  · exact absurd (silent.symm.trans gone) (by simp)

theorem Orderly.harmless {pkt : ClientPacket} {rest : List ClientPacket} (orderly : n.Orderly) (waiting : n.uplink session = pkt :: rest) :
    n.server.Harmless pkt := by
  obtain ⟨phase,known,legal⟩ := (orderly.follows session).first waiting
  have others (room : RoomRef) (p : PlayerRef) : n.server.OthersLive room p := fun _ member _ _ => orderly.alive member
  cases pkt with
  | cSetNickname | cRequestRoomList | cCreateRoom => trivial
  | cJoinRoom roomId player =>
    rcases legal with asks | ⟨after,told⟩
    · cases phase with
      | guest | inRoom => exact asks.elim
      | lobby id =>
        obtain ⟨rfl,listed⟩ := asks
        obtain ⟨room,found⟩ := Option.ne_none_iff_exists'.mp listed
        obtain ⟨p,owns⟩ := known
        exact ⟨room,p,found,owns.1,.inr (.inr ⟨orderly.alive p,others room p⟩)⟩
    · cases phase <;> cases told
  | cChatRoom msg player =>
    rcases legal with asks | ⟨after,told⟩
    · cases phase <;> exact asks.elim
    · cases phase with
      | guest | lobby => cases told
      | inRoom id =>
        simp only [Phase.tell] at told
        split at told
        · rename_i mine
          obtain ⟨p,owns,housed⟩ := known
          obtain ⟨room,found⟩ := Option.ne_none_iff_exists'.mp housed
          exact ⟨p,room,mine ▸ owns.1,found⟩
        · cases told
  | cLeaveRoom player roomId =>
    rcases legal with asks | ⟨after,told⟩
    · cases phase <;> exact asks.elim
    · obtain ⟨_,p,_,_,rfl,owns⟩ := Server.tell_leaves known told
      exact ⟨p,owns.1,fun room _ => .inr (others room p)⟩

theorem Orderly.connected {pkt : ClientPacket} {rest : List ClientPacket} (orderly : n.Orderly) (waiting : n.uplink session = pkt :: rest) :
    n.server.session session = .connected := by
  refine (orderly.sessions session).resolve_right fun ⟨_,_,up,_⟩ => ?_
  rw [waiting] at up
  cases up

theorem Orderly.serves {worker : Nat} {pkt : ClientPacket} {rest : List ClientPacket} (orderly : n.Orderly)
    (waiting : n.uplink session = pkt :: rest) : n.step (.serve worker session) ≠ none ↔ n.server.world.Servable pkt := by
  have handles := @Server.handlePacket_handles n.server worker session pkt
  have nonnull := (Server.handled_harmless orderly.world handles).mpr (orderly.harmless waiting)
  rw [← Server.handled_servable orderly.world handles]
  simp only [step,waiting,Server.step,orderly.connected waiting]
  cases done : n.server.handlePacket worker session pkt with
  | ok result => simp [Except.map,Except.toOption]
  | error fault =>
    rw [done] at nonnull
    cases fault with
    | null ref => exact absurd rfl (nonnull ref)
    | assertion | overrun => simp [Except.map,Except.toOption]

theorem Orderly.knows (orderly : n.Orderly) (quiet : n.Quiet) (session : SessionRef) :
    n.server.world.Recognizes session (n.client session).phase := by
  obtain ⟨up,down⟩ := quiet session
  obtain ⟨phase,known,told⟩ := (orderly.follows session).talks (by simp [up]) (by simp [down])
  rw [up] at told
  cases told
  exact known

-- Clients that wait for their answers cannot crash the server but with a reply too large for a
-- chunk, and when all is quiet the server has every client where the client thinks it is.
theorem patient_clients_safe {s : Network} {events : List NetworkEvent} (path : Runs (Guarded (Enabled step) Patient) start events s)
    (few : events.length + 1 < 2^64) :
    (∀ worker session pkt rest, s.uplink session = pkt :: rest →
      (∀ ref, s.server.handlePacket worker session pkt ≠ .error (.null ref)) ∧
        (s.step (.serve worker session) ≠ none ↔ s.server.world.Servable pkt)) ∧
    (s.Quiet → ∀ session, s.server.world.Recognizes session (s.client session).phase) := by
  obtain ⟨orderly,_⟩ := runs_orderly path few
  refine ⟨fun worker session pkt rest waiting => ⟨?_,orderly.serves waiting⟩,orderly.knows⟩
  exact (Server.handled_harmless orderly.world (Server.handlePacket_handles pkt)).mpr (orderly.harmless waiting)

def entering : List NetworkEvent := created ++ [.input 0 (ascii "join 1"),.serve 0 0,.deliver 0,.deliver 0,.input 0 (ascii "hello")]

theorem patient_clients_safe_entering : ∃ s, Runs (Guarded (Enabled step) Patient) start entering s ∧
    s.uplink 0 = [.cChatRoom (ascii "hello") (some ⟨1,ascii "kim"⟩)] ∧
    ∀ ref, s.server.handlePacket 0 0 (.cChatRoom (ascii "hello") (some ⟨1,ascii "kim"⟩)) ≠ .error (.null ref) := by
  obtain ⟨s,path,waiting⟩ : ∃ s, Runs (Guarded (Enabled step) Patient) start entering s ∧
    s.uplink 0 = [.cChatRoom (ascii "hello") (some ⟨1,ascii "kim"⟩)] := ⟨_,guard_runs rfl,rfl⟩
  exact ⟨s,path,waiting,((patient_clients_safe path (by decide)).1 0 0 _ [] waiting).1⟩

-- Two joins at once, and out again between their answers: the second answer puts the client into
-- the room the server has let it out of, and what it says there is the end of the server.
theorem impatient_client_crashes : ¬ ∀ events s worker session pkt rest, Runs (Enabled step) start events s →
    s.uplink session = pkt :: rest → ∀ ref, s.server.handlePacket worker session pkt ≠ .error (.null ref) := by
  intro always
  have path : Runs (Enabled step) start (created ++ [.input 0 (ascii "join 1"),.input 0 (ascii "join 1"),.serve 0 0,.serve 0 0,
    .deliver 0,.deliver 0,.input 0 (ascii "/leave"),.deliver 0,.deliver 0,.serve 0 0,.input 0 (ascii "hello")]) _ := execute_runs rfl
  exact always _ _ 0 0 _ [] path rfl .room rfl

end Network
end IocpChatServer.DummyClient
