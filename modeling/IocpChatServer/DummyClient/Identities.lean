import IocpChatServer.DummyClient.Conversation
import IocpChatServer.DummyClient.PatientClients
import IocpChatServer.GameServer.Nicknames

namespace IocpChatServer.GameServer
open Std Protocol Foundations Table DummyClient

namespace Protocol

def ClientPacket.actor : ClientPacket → Option Player
  | .cJoinRoom _ player | .cChatRoom _ player | .cLeaveRoom player _ => some (self player)
  | .cSetNickname _ | .cRequestRoomList _ | .cCreateRoom _ _ => none

def ServerPacket.identity : ServerPacket → Option Player
  | .sNicknameResult .ok player => some (self player)
  | _ => none

def ChatMessage.author (chat : ChatMessage) : Player := ⟨chat.playerId,chat.nickname⟩

end Protocol

namespace World

-- A player with this id and name is registered, and the session's.
def Bears (w : World) (session : SessionRef) (player : Protocol.Player) : Prop :=
  ∃ p, w.getPlayer player.id = some p ∧ w.profile p = (some session,player)

def Nicknamed (w : World) : Prop := ∀ id p, w.getPlayer id = some p → w.manager.playerNameToId[(w.players p).name]? = some id

variable {w next : World} {session other : SessionRef} {player theirs : Protocol.Player} {name : Bytes} {id : UInt64} {p : PlayerRef}

theorem Bears.kept (bears : w.Bears session player)
    (kept : ∀ id p, w.getPlayer id = some p → next.getPlayer id = some p ∧ next.profile p = w.profile p) :
    next.Bears session player := by
  obtain ⟨p,known,profile⟩ := bears
  obtain ⟨stays,same⟩ := kept _ p known
  exact ⟨p,stays,same.trans profile⟩

theorem Bears.owned (bears : w.Bears session player) (known : w.getPlayer player.id = some p) :
    w.OwnedBy p session ∧ (w.players p).name = player.name := by
  obtain ⟨q,knownToo,profile⟩ := bears
  cases known.symm.trans knownToo
  exact ⟨congrArg Prod.fst profile,congrArg (·.2.name) profile⟩

theorem Bears.unique (nicknamed : Nicknamed w) (mine : w.Bears session player) (bears : w.Bears other theirs)
    (same : player.id = theirs.id ∨ player.name = theirs.name) : session = other := by
  obtain ⟨p,known,profile⟩ := mine
  obtain ⟨q,knownToo,profileToo⟩ := bears
  have ids : player.id = theirs.id := by
    rcases same with same | same
    · exact same
    · have mine := nicknamed _ p known
      have bears := nicknamed _ q knownToo
      have named : (w.players p).name = (w.players q).name :=
        (congrArg (·.2.name) profile).trans (same.trans (congrArg (·.2.name) profileToo).symm)
      rw [named] at mine
      exact Option.some.inj (mine.symm.trans bears)
  rw [ids] at known
  cases known.symm.trans knownToo
  exact Option.some.inj (congrArg Prod.fst (profile.symm.trans profileToo))

theorem named_bears : (w.named session name).Bears session ⟨w.manager.playerId,name⟩ :=
  ⟨w.playerCount,insert_exact.mpr (.inl ⟨rfl,rfl⟩),named_profile⟩

theorem Nicknamed.frame (nicknamed : Nicknamed w) (names : next.manager.playerNameToId = w.manager.playerNameToId)
    (registry : next.manager.playerIdToPlayer = w.manager.playerIdToPlayer)
    (profiles : ∀ id p, w.getPlayer id = some p → next.profile p = w.profile p) : Nicknamed next := by
  intro id p known
  rw [getPlayer,registry] at known
  have name : (next.players p).name = (w.players p).name := congrArg (·.2.name) (profiles id p known)
  rw [names,name]
  exact nicknamed id p known

theorem named_nicknamed (valid : Valid w) (nicknamed : Nicknamed w) (free : name ∉ w.manager.playerNameToId) :
    Nicknamed (w.named session name) := by
  intro id p known
  rcases insert_exact.mp known with ⟨rfl,rfl⟩ | ⟨_,known⟩
  · simp [named]
  · have other : p ≠ w.playerCount := Nat.ne_of_lt (valid.players id p known).made
    have same : ((w.named session name).players p).name = (w.players p).name := by simp [named,other]
    have listed := nicknamed id p known
    rw [same]
    refine insert_exact.mpr (.inr ⟨fun taken => free ?_,listed⟩)
    rw [taken]
    exact TreeMap.mem_iff_isSome_getElem?.mpr (by rw [listed]; rfl)

end World

namespace Server
variable {s next : Server} {session receiver : SessionRef} {pkt : ClientPacket} {message : ServerPacket} {answer : Bool}
  {player : Protocol.Player} {id : UInt64} {p : PlayerRef} {u : Utterance}

theorem handled_profiled (valid : s.world.Valid) (fresh : s.world.Fresh) (handled : Handles s session pkt (.ok (answer,next)))
    (known : s.world.getPlayer id = some p) : next.world.getPlayer id = some p ∧ next.world.profile p = s.world.profile p := by
  refine ⟨((World.handled_retains valid fresh handled).players id p known).1,?_⟩
  have made := (valid.players id p known).made
  rcases handled_registers handled with quiet | ⟨name,named,_⟩
  · exact quiet.world.profile p made
  · rw [named]
    simp [World.profile,World.named,Nat.ne_of_lt made]

theorem handled_nicknamed (valid : s.world.Valid) (fresh : s.world.Fresh) (nicknamed : s.world.Nicknamed)
    (handled : Handles s session pkt (.ok (answer,next))) : next.world.Nicknamed := by
  have profiles : ∀ id p, s.world.getPlayer id = some p → next.world.profile p = s.world.profile p :=
    fun id p known => (handled_profiled valid fresh handled known).2
  cases handled with
  | named free => exact World.named_nicknamed valid nicknamed free
  | nicknameTaken | listed | roomTaken | founded | rejected | joined | chatted | leavesNowhere | left =>
    exact nicknamed.frame rfl rfl profiles

theorem handled_identity (handled : Handles s session pkt (.ok (answer,next))) (pushed : s.sent = [])
    (sent : (receiver,message) ∈ next.sent) (told : message.identity = some player) : next.world.Bears receiver player := by
  have news : ¬message.IsNews := by
    intro news
    cases message with
    | sRoomList | sCreateRoom | sRoomEvent | sChatRoom => cases told
    | sNicknamePrompt | sNicknameResult | sEnterRoom => exact news
  obtain ⟨_,posted⟩ := handled_posts handled pushed _ sent
  obtain ⟨question,rfl⟩ := posted.resolve_left news
  cases pkt with
  | cRequestRoomList | cCreateRoom | cChatRoom | cLeaveRoom => exact question.elim
  | cSetNickname name =>
    cases handled with
    | nicknameTaken =>
      simp only [pushed,List.nil_append,List.mem_append] at sent
      rcases sent with sent | sent
      · cases delivery_message sent
        cases told
      · cases delivery_message sent
        cases told
    | named =>
      rw [pushed,List.nil_append] at sent
      cases delivery_message sent
      cases told
      exact World.named_bears
  | cJoinRoom =>
    cases handled with
    | rejected =>
      rw [pushed,List.nil_append] at sent
      cases delivery_message sent
      cases told
    | joined =>
      rw [pushed,List.nil_append] at sent
      rcases List.mem_append.mp sent with sent | sent
      · cases toOwners_message sent
        cases told
      · cases delivery_message sent
        cases told

theorem handled_enterer (handled : Handles s session pkt (.ok (answer,next))) (pushed : s.sent = [])
    (sent : (receiver,.sEnterRoom .ok) ∈ next.sent) : receiver = session ∧ pkt.actor ≠ none := by
  obtain ⟨_,posted⟩ := handled_posts handled pushed _ sent
  obtain ⟨_,mine⟩ := posted.resolve_left id
  refine ⟨mine,?_⟩
  rcases handled_enters handled receiver sent with old | admits
  · rw [pushed] at old
    cases old
  · cases pkt with
    | cJoinRoom => exact Option.some_ne_none _
    | cSetNickname | cRequestRoomList | cCreateRoom | cChatRoom | cLeaveRoom => exact admits.elim

theorem uttered (spoken : u ∈ s.world.utterance session pkt) : u.speaker = session ∧ pkt.actor = some u.chat.author := by
  cases pkt with
  | cChatRoom msg player =>
    simp only [World.utterance] at spoken
    split at spoken
    · cases List.mem_singleton.mp spoken
      exact ⟨rfl,rfl⟩
    · cases spoken
  | cSetNickname | cRequestRoomList | cCreateRoom | cJoinRoom | cLeaveRoom => cases spoken

theorem honest (bears : ∀ player, pkt.actor = some player → s.world.Bears session player) : s.Honest session pkt := by
  cases pkt with
  | cJoinRoom | cLeaveRoom => exact fun p known => ((bears _ rfl).owned known).1
  | cChatRoom => exact fun p known => (bears _ rfl).owned known
  | cSetNickname | cRequestRoomList | cCreateRoom => trivial

end Server
end IocpChatServer.GameServer

namespace IocpChatServer.DummyClient
open GameServer Protocol Foundations TransitionSystem

namespace Client
variable {c client : Client} {sent : Option ClientPacket} {message : ServerPacket}

-- The states in which packets carry `self`.
def Named (c : Client) : Prop := c.state = .lobby ∨ c.state = .inRoom

theorem send_packet {pkt packet : ClientPacket} (given : packet ∈ c.send pkt) : packet = pkt := by
  unfold send at given
  split at given <;> cases given
  rfl

theorem Types.acts (types : c.Types (sent,client)) : client.self = c.self ∧ (client.Named → c.Named) ∧
    ∀ pkt ∈ sent, ∀ player, pkt.actor = some player → c.Named ∧ player = c.self := by
  generalize same : (sent,client) = outcome at types
  cases types with
  | nothing =>
    obtain ⟨rfl,rfl⟩ := Prod.mk.inj same
    exact ⟨rfl,id,fun pkt absent => by cases absent⟩
  | nickname | list | create =>
    obtain ⟨rfl,rfl⟩ := Prod.mk.inj same
    refine ⟨rfl,id,fun pkt given player acts => ?_⟩
    cases send_packet given
    cases acts
  | join lobby =>
    obtain ⟨rfl,rfl⟩ := Prod.mk.inj same
    refine ⟨rfl,id,fun pkt given player acts => ?_⟩
    cases send_packet given
    cases acts
    exact ⟨.inl lobby,rfl⟩
  | chat inRoom =>
    obtain ⟨rfl,rfl⟩ := Prod.mk.inj same
    refine ⟨rfl,id,fun pkt given player acts => ?_⟩
    cases send_packet given
    cases acts
    exact ⟨.inr inRoom,rfl⟩
  | leave inRoom =>
    obtain ⟨rfl,rfl⟩ := Prod.mk.inj same
    refine ⟨?_,fun _ => .inr inRoom,fun pkt given player acts => ?_⟩
    · split <;> rfl
    · cases send_packet given
      cases acts
      exact ⟨.inr inRoom,rfl⟩

theorem handlePacket_self : message.identity = some (c.handlePacket message).self ∨
    (c.handlePacket message).self = c.self ∧ ((c.handlePacket message).Named → c.Named ∨ message = .sEnterRoom .ok) := by
  cases message with
  | sNicknamePrompt => exact .inr ⟨rfl,fun named => by rcases named with named | named <;> cases named⟩
  | sNicknameResult error player =>
    cases error with
    | ok => exact .inl rfl
    | invalidNick | duplicateNick | roomNotFound | roomFull =>
      exact .inr ⟨rfl,fun named => by rcases named with named | named <;> cases named⟩
  | sRoomList | sCreateRoom | sChatRoom => exact .inr ⟨rfl,.inl⟩
  | sEnterRoom error =>
    by_cases ok : error = .ok
    · exact .inr ⟨by simp [handlePacket,handleEnterRoom,ok,self],fun _ => .inr (by rw [ok])⟩
    · have same : c.handlePacket (.sEnterRoom error) = c := if_pos ok
      rw [same]
      exact .inr ⟨rfl,.inl⟩
  | sRoomEvent type =>
    simp only [handlePacket,handleRoomEvent]
    split <;> exact .inr ⟨rfl,.inl⟩

end Client

namespace Network

-- A client has got, or is about to get, into a state in which it acts as somebody.
inductive Acting (n : Network) (session : SessionRef) : Prop where
  | named : (n.client session).Named → Acting n session
  | entering : .sEnterRoom .ok ∈ n.downlink session → Acting n session
  | asking : pkt ∈ n.uplink session → pkt.actor ≠ none → Acting n session

-- Whom a client takes itself for, acts for and is told to be, it is.
structure Genuine (n : Network) : Prop where
  world : n.server.world.Valid
  fresh : n.server.world.Fresh
  nicknamed : n.server.world.Nicknamed
  pushed : n.server.sent = []
  self : ∀ session, n.Acting session → n.server.world.Bears session (n.client session).self
  acts : ∀ session, ∀ pkt ∈ n.uplink session, ∀ player, pkt.actor = some player → n.server.world.Bears session player
  told : ∀ session, ∀ message ∈ n.downlink session, ∀ player, message.identity = some player → n.server.world.Bears session player

theorem start_genuine : Genuine start where
  world := World.start_valid
  fresh id p known := by simp [start,Server.start,World.getPlayer] at known
  nicknamed id p known := by simp [start,Server.start,World.getPlayer] at known
  pushed := rfl
  self session acting := by
    cases acting with
    | named named => rcases named with named | named <;> cases named
    | entering waiting => cases waiting
    | asking waiting => cases waiting
  acts _ _ absent := by cases absent
  told _ _ absent := by cases absent

variable {n m : Network} {session : SessionRef}

theorem Acting.elsewhere (acting : m.Acting session) (client : m.client session = n.client session)
    (up : m.uplink session = n.uplink session) (down : m.downlink session = n.downlink session) : n.Acting session := by
  cases acting with
  | named named => exact .named (client ▸ named)
  | entering waiting => exact .entering (down ▸ waiting)
  | asking waiting acts => exact .asking (up ▸ waiting) acts

theorem connect_genuine {worker : Nat} {server : Server} (genuine : n.Genuine)
    (taken : n.server.step (.connect worker session) = some server) : (n.collect server).Genuine := by
  have world : server.world.Valid := Server.step_valid _ _ _ genuine.world taken
  obtain ⟨absent,threads,rfl⟩ := Server.connect_does taken
  have prompted {other : SessionRef} {message : ServerPacket}
      (waiting : message ∈ n.downlink other ++ mail (n.server.sent ++ [(session,ServerPacket.nicknamePrompt)]) other) :
      message ∈ n.downlink other ∨ message = .nicknamePrompt := by
    rw [genuine.pushed,List.nil_append] at waiting
    refine (List.mem_append.mp waiting).imp_right fun new => ?_
    exact congrArg Prod.snd (List.mem_singleton.mp (mem_mail.mp new))
  refine ⟨world,genuine.fresh,genuine.nicknamed,rfl,fun other acting => ?_,genuine.acts,fun other message waiting player told => ?_⟩
  · refine genuine.self other ?_
    cases acting with
    | named named => exact .named named
    | entering waiting =>
      rcases prompted waiting with old | new
      · exact .entering old
      · cases new
    | asking waiting acts => exact .asking waiting acts
  · rcases prompted waiting with old | rfl
    · exact genuine.told other message old player told
    · cases told

theorem input_genuine {line : Bytes} {sent : Option ClientPacket} {client : Client} (genuine : n.Genuine)
    (typed : (n.client session).handleInputLine line = (sent,client)) : Genuine {n with
      client := Function.update n.client session client
      uplink := Function.update n.uplink session (n.uplink session ++ sent.toList)} := by
  have types := @Client.handleInputLine_types (n.client session) line
  rw [typed] at types
  obtain ⟨same,named,acts⟩ := types.acts
  refine ⟨genuine.world,genuine.fresh,genuine.nicknamed,genuine.pushed,fun other acting => ?_,fun other pkt waiting player acting => ?_,
    genuine.told⟩
  · by_cases mine : other = session
    · subst mine
      simp only [Function.update_self,same]
      refine genuine.self other ?_
      cases acting with
      | named becomes =>
        simp only [Function.update_self] at becomes
        exact .named (named becomes)
      | entering waiting => exact .entering waiting
      | @asking pkt waiting acting =>
        simp only [Function.update_self] at waiting
        rcases List.mem_append.mp waiting with old | new
        · exact .asking old acting
        · obtain ⟨player,acting⟩ := Option.ne_none_iff_exists'.mp acting
          exact .named (acts pkt (Option.mem_toList.mp new) player acting).1
    · simp only [Function.update_of_ne mine]
      exact genuine.self other (acting.elsewhere (Function.update_of_ne mine ..) (Function.update_of_ne mine ..) rfl)
  · by_cases mine : other = session
    · subst mine
      simp only [Function.update_self] at waiting
      rcases List.mem_append.mp waiting with old | new
      · exact genuine.acts other pkt old player acting
      · obtain ⟨named,rfl⟩ := acts pkt (Option.mem_toList.mp new) player acting
        exact genuine.self other (.named named)
    · simp only [Function.update_of_ne mine] at waiting
      exact genuine.acts other pkt waiting player acting

theorem deliver_genuine {message : ServerPacket} {rest : List ServerPacket} (genuine : n.Genuine)
    (waiting : n.downlink session = message :: rest) : Genuine {n with
      client := Function.update n.client session ((n.client session).handlePacket message)
      downlink := Function.update n.downlink session rest} := by
  have first : message ∈ n.downlink session := by simp [waiting]
  have others : ∀ later ∈ rest, later ∈ n.downlink session := fun later member => by simp [waiting,member]
  refine ⟨genuine.world,genuine.fresh,genuine.nicknamed,genuine.pushed,fun other acting => ?_,genuine.acts,
    fun other later member player told => ?_⟩
  · by_cases mine : other = session
    · subst mine
      simp only [Function.update_self]
      rcases @Client.handlePacket_self (n.client other) message with told | ⟨same,named⟩
      · exact genuine.told other message first _ told
      · rw [same]
        refine genuine.self other ?_
        cases acting with
        | named becomes =>
          simp only [Function.update_self] at becomes
          rcases named becomes with before | rfl
          · exact .named before
          · exact .entering first
        | entering later =>
          simp only [Function.update_self] at later
          exact .entering (others _ later)
        | asking waiting acting => exact .asking waiting acting
    · simp only [Function.update_of_ne mine]
      exact genuine.self other (acting.elsewhere (Function.update_of_ne mine ..) rfl (Function.update_of_ne mine ..))
  · by_cases mine : other = session
    · subst mine
      simp only [Function.update_self] at member
      exact genuine.told other later (others later member) player told
    · simp only [Function.update_of_ne mine] at member
      exact genuine.told other later member player told

theorem serve_genuine {worker : Nat} {pkt : ClientPacket} {rest : List ClientPacket} {server : Server} (genuine : n.Genuine)
    (few : n.server.world.manager.playerId.toNat + 1 < 2^64) (waiting : n.uplink session = pkt :: rest)
    (served : n.server.step (.packet worker session pkt) = some server) :
    ({n with uplink := Function.update n.uplink session rest}.collect server).Genuine ∧
      server.world.manager.playerId.toNat ≤ n.server.world.manager.playerId.toNat + 1 ∧
      ∀ session player, n.server.world.Bears session player → server.world.Bears session player := by
  obtain ⟨answer,handled⟩ := Server.packet_handled served
  obtain ⟨fresh,count⟩ := World.handled_fresh genuine.fresh few handled
  have kept (session : SessionRef) (player : Protocol.Player) (bears : n.server.world.Bears session player) :
      server.world.Bears session player := bears.kept fun _ _ => Server.handled_profiled genuine.world genuine.fresh handled
  have world : server.world.Valid := World.handled_valid genuine.world handled
  have nicknamed : server.world.Nicknamed := Server.handled_nicknamed genuine.world genuine.fresh genuine.nicknamed handled
  have first : pkt ∈ n.uplink session := by simp [waiting]
  have earlier {other : SessionRef} {later : ClientPacket} (member : later ∈ Function.update n.uplink session rest other) :
      later ∈ n.uplink other := by
    by_cases mine : other = session
    · subst mine
      rw [Function.update_self] at member
      simp [waiting,member]
    · rwa [Function.update_of_ne mine] at member
  refine ⟨⟨world,fresh,nicknamed,rfl,fun other acting => kept _ _ (genuine.self other ?_),fun other later member player acts => ?_,
    fun other message member player told => ?_⟩,count,kept⟩
  · cases acting with
    | named named => exact .named named
    | entering member =>
      rcases List.mem_append.mp member with old | new
      · exact .entering old
      · obtain ⟨rfl,acts⟩ := Server.handled_enterer handled genuine.pushed (mem_mail.mp new)
        exact .asking first acts
    | asking member acts => exact .asking (earlier member) acts
  · exact kept other player (genuine.acts other later (earlier member) player acts)
  · rcases List.mem_append.mp member with old | new
    · exact kept other player (genuine.told other message old player told)
    · have bears : server.world.Bears other player := Server.handled_identity handled genuine.pushed (mem_mail.mp new) told
      exact bears

end Network

namespace Conversation

structure Attributed (s : Conversation) : Prop where
  genuine : s.network.Genuine
  spoken : ∀ u ∈ s.spoken, s.network.server.world.Bears u.speaker u.chat.author

variable {s next : Conversation} {event : NetworkEvent} {session : SessionRef}

theorem start_attributed : Attributed start := ⟨Network.start_genuine,fun _ absent => by cases absent⟩

theorem step_attributed (attributed : s.Attributed) (few : s.network.server.world.manager.playerId.toNat + 1 < 2^64)
    (taken : s.step event = some next) : next.Attributed ∧
      next.network.server.world.manager.playerId.toNat ≤ s.network.server.world.manager.playerId.toNat + 1 := by
  obtain ⟨network,does,rfl⟩ := Option.map_eq_some_iff.mp taken
  cases Network.step_does does with
  | connects connected =>
    have genuine := Network.connect_genuine attributed.genuine connected
    obtain ⟨absent,threads,rfl⟩ := Server.connect_does connected
    exact ⟨⟨genuine,attributed.spoken⟩,Nat.le_succ _⟩
  | types typed =>
    have genuine := Network.input_genuine attributed.genuine typed
    rw [Option.toList_none,List.append_nil,Function.update_eq_self] at genuine
    exact ⟨⟨genuine,attributed.spoken⟩,Nat.le_succ _⟩
  | asks typed existing => exact ⟨⟨Network.input_genuine attributed.genuine typed,attributed.spoken⟩,Nat.le_succ _⟩
  | @serves session pkt rest worker server waiting served =>
    obtain ⟨genuine,count,kept⟩ := Network.serve_genuine attributed.genuine few waiting served
    refine ⟨⟨genuine,fun u member => kept _ _ ?_⟩,count⟩
    rcases List.mem_append.mp member with old | new
    · exact attributed.spoken u old
    · simp only [waiting,List.head?_cons,Option.toList_some,List.flatMap_cons,List.flatMap_nil,List.append_nil] at new
      obtain ⟨rfl,acts⟩ := Server.uttered new
      exact attributed.genuine.acts _ pkt (by simp [waiting]) _ acts
  | delivers waiting => exact ⟨⟨Network.deliver_genuine attributed.genuine waiting,attributed.spoken⟩,Nat.le_succ _⟩

theorem runs_attributed {events : List NetworkEvent} (path : Runs (Enabled step) start events s) (few : events.length + 1 < 2^64) :
    s.Attributed ∧ s.network.server.world.manager.playerId.toNat ≤ events.length + 1 := by
  induction path with
  | nil => exact ⟨start_attributed,Nat.le_refl 1⟩
  | step _ taken ih =>
    rw [List.length_append,List.length_singleton] at few ⊢
    obtain ⟨attributed,count⟩ := ih (by omega)
    obtain ⟨kept,more⟩ := step_attributed attributed (by omega) taken
    exact ⟨kept,by omega⟩

-- Nobody passes for anybody else: a client in the lobby or a room is the server's player of its
-- session, no packet moves a player of another session, and all that is said goes out under the
-- id and the name of a player of the session it came from, which no other session ever uses.
theorem nobody_impersonated {events : List NetworkEvent} (path : Runs (Enabled step) start events s)
    (few : events.length + 1 < 2^64) :
    (∀ session, (s.network.client session).Named → s.network.server.world.Bears session (s.network.client session).self) ∧
    (∀ worker session pkt rest answer next, s.network.uplink session = pkt :: rest →
      s.network.server.handlePacket worker session pkt = .ok (answer,next) → Server.OthersStay s.network.server next session) ∧
    (∀ u ∈ s.spoken, s.network.server.world.Bears u.speaker u.chat.author) ∧
    ∀ u ∈ s.spoken, ∀ v ∈ s.spoken, u.chat.playerId = v.chat.playerId ∨ u.chat.nickname = v.chat.nickname →
      u.speaker = v.speaker := by
  obtain ⟨⟨genuine,spoken⟩,_⟩ := runs_attributed path few
  refine ⟨fun session named => genuine.self session (.named named),fun worker session pkt rest answer next waiting done => ?_,spoken,
    fun u member v memberToo same => (spoken u member).unique genuine.nicknamed (spoken v memberToo) same⟩
  have handled := done ▸ @Server.handlePacket_handles s.network.server worker session pkt
  have honest : s.network.server.Honest session pkt :=
    Server.honest fun player acts => genuine.acts session pkt (by simp [waiting]) player acts
  exact fun id p known foreign => Server.handled_stays genuine.world handled known (honest.moves foreign known)

-- What the two have said to each other names each of them.
theorem nobody_impersonated_greeting : ∃ s, Runs (Enabled step) start greeting s ∧
    s.spoken.map (fun u => (u.speaker,u.chat.author)) = [(1,⟨2,ascii "lee"⟩),(0,⟨1,ascii "kim"⟩)] ∧
    s.network.server.world.Bears 0 (s.network.client 0).self := by
  obtain ⟨s,path,spoken,lobby⟩ : ∃ s, Runs (Enabled step) start greeting s ∧
    s.spoken.map (fun u => (u.speaker,u.chat.author)) = [(1,⟨2,ascii "lee"⟩),(0,⟨1,ascii "kim"⟩)] ∧
    (s.network.client 0).state = .inRoom := ⟨_,execute_runs rfl,rfl,rfl⟩
  exact ⟨s,path,spoken,(nobody_impersonated path (by decide)).1 0 (.inr lobby)⟩

end Conversation
end IocpChatServer.DummyClient
