import IocpChatServer.DummyClient.RoomAgreement
import IocpChatServer.DummyClient.ServerSession
import IocpChatServer.ServerCore.RecvLink

namespace IocpChatServer.DummyClient
open GameServer ServerCore Protocol Protobuf Foundations TransitionSystem Tools RecvSession

-- The server and its clients with the bytes between them: those on their way, and a receive
-- buffer at either end of each connection. A Send is taken to put its buffer on the way as it is.
structure SocketNetwork where
  server : Server
  client : SessionRef → Client
  uplink : SessionRef → List BYTE
  downlink : SessionRef → List BYTE
  serverRecv : SessionRef → RecvSession
  clientRecv : SessionRef → RecvSession

inductive SocketEvent where
  | connect (worker : Nat) (session : SessionRef)
  | input (session : SessionRef) (line : Bytes)
  | serve (worker : Nat) (session : SessionRef) (count : Nat)
  | deliver (session : SessionRef) (count : Nat)
  deriving DecidableEq, Repr

namespace SocketNetwork

def start : SocketNetwork := ⟨.start,fun _ => {},fun _ => [],fun _ => [],fun _ => .start,fun _ => .start⟩

variable (s : SocketNetwork)

def collect (server : Server) : SocketNetwork :=
  {s with
    server := {server with sent := []}
    downlink := fun session => s.downlink session ++ ((mail server.sent session).map ServerPacket.frame).flatten}

-- The server's OnRecvPacket calls of one completion.
def onRecvPackets (worker : Nat) (session : SessionRef) (s : SocketNetwork) : List (List BYTE) → Option SocketNetwork
  | [] => some s
  | buffer :: rest =>
    (s.server.stepSession (.recvPacket worker session buffer)).bind fun server => onRecvPackets worker session (s.collect server) rest

def step : SocketEvent → Option SocketNetwork
  | .connect worker session => (s.server.stepSession (.connected worker session)).map s.collect
  | .input session line =>
    match (s.client session).handleInputLine line with
    | (some pkt,client) =>
      if pkt.Fits then
        some {s with
          client := Function.update s.client session client
          uplink := Function.update s.uplink session (s.uplink session ++ pkt.frame)}
      else none
    | (none,client) => some {s with client := Function.update s.client session client}
  | .serve worker session count =>
    ((s.serverRecv session).take (s.uplink session) count).bind fun (recv,packets) =>
      onRecvPackets worker session {s with
        uplink := Function.update s.uplink session ((s.uplink session).drop count)
        serverRecv := Function.update s.serverRecv session recv} packets
  | .deliver session count =>
    ((s.clientRecv session).take (s.downlink session) count).map fun (recv,packets) => {s with
      client := Function.update s.client session (packets.foldl ServerSession.onRecvPacket (s.client session))
      downlink := Function.update s.downlink session ((s.downlink session).drop count)
      clientRecv := Function.update s.clientRecv session recv}

def Typed : SocketEvent → Prop
  | .input session line =>
    isStructurallyValidUTF8 line = true ∧ ∀ pkt ∈ ((s.client session).handleInputLine line).1, Existing s.server.world pkt
  | .connect _ _ | .serve _ _ _ | .deliver _ _ => True

instance : (event : SocketEvent) → Decidable (s.Typed event)
  | .input session line => inferInstanceAs (Decidable (_ ∧ ∀ pkt ∈ ((s.client session).handleInputLine line).1,Existing s.server.world pkt))
  | .connect _ _ | .serve _ _ _ | .deliver _ _ => .isTrue trivial

end SocketNetwork

def SocketEvent.outside : SocketEvent → List NetworkEvent
  | .connect worker session => [.connect worker session]
  | .input session line => [.input session line]
  | .serve _ _ _ | .deliver _ _ => []

def NetworkEvent.isOutside : NetworkEvent → Bool
  | .connect _ _ | .input _ _ => true
  | .serve _ _ | .deliver _ => false

namespace SocketNetwork

-- The packets on their way are in a receive buffer or on a link as the bytes they are.
structure Carries (s : SocketNetwork) (n : Network) : Prop where
  server : s.server = n.server
  client : s.client = n.client
  up : ∀ session, RecvSession.Carries ((n.uplink session).map ClientPacket.frame) (s.serverRecv session) (s.uplink session)
  down : ∀ session, RecvSession.Carries ((n.downlink session).map ServerPacket.frame) (s.clientRecv session) (s.downlink session)

end SocketNetwork

structure Network.Text (n : Network) : Prop where
  server : n.server.Text
  names : ∀ session, isStructurallyValidUTF8 (n.client session).nickname = true
  up : ∀ session, ∀ pkt ∈ n.uplink session, pkt.Text ∧ pkt.Fits
  down : ∀ session, ∀ pkt ∈ n.downlink session, pkt.Text ∧ pkt.Fits

end IocpChatServer.DummyClient

namespace IocpChatServer.DummyClient
open GameServer ServerCore FrameRoundTrip Protocol Protobuf Foundations TransitionSystem Tools RecvSession

namespace Client
variable {c : Client} {line : Bytes} {pkt : ClientPacket}

theorem handlePacket_text {pkt : ServerPacket} (name : isStructurallyValidUTF8 c.nickname = true) (text : pkt.Text) :
    isStructurallyValidUTF8 (c.handlePacket pkt).nickname = true := by
  cases pkt with
  | sNicknamePrompt | sRoomList | sCreateRoom | sChatRoom => exact name
  | sNicknameResult error player =>
    simp only [handlePacket,handleNicknameResult]
    split
    · exact name
    · exact Server.self_text text
  | sEnterRoom error =>
    simp only [handlePacket,handleEnterRoom]
    split <;> exact name
  | sRoomEvent type =>
    simp only [handlePacket,handleRoomEvent]
    split <;> exact name

theorem send_some {sent : ClientPacket} (sends : c.send pkt = some sent) : sent = pkt := by
  unfold send at sends
  split at sends <;> cases sends
  rfl

theorem drop_text {start : Bytes} (plain : start.all (·.toNat < 0x80) = true) (starts : startsWith line start = true)
    (valid : isStructurallyValidUTF8 line = true) : isStructurallyValidUTF8 (line.drop start.length) = true := by
  obtain ⟨rest,rfl⟩ := List.isPrefixOf_iff_prefix.mp starts
  have ascii : ∀ b ∈ start, b.toNat < 0x80 := by simpa using plain
  rwa [List.drop_left,← valid_ascii ascii]

theorem handleInputLine_text (name : isStructurallyValidUTF8 c.nickname = true) (valid : isStructurallyValidUTF8 line = true)
    (typed : (c.handleInputLine line).1 = some pkt) : pkt.Text := by
  have self : ∀ m ∈ some c.self, m.Text := fun m present => by
    cases present
    exact name
  unfold handleInputLine at typed
  split at typed
  · split at typed
    · cases typed
    · cases send_some typed
      exact valid
  · split at typed
    · cases send_some typed
      trivial
    · split at typed
      · rename_i create
        dsimp only at typed
        split at typed
        · cases typed
        · cases send_some typed
          exact drop_text (by decide) create valid
      · split at typed
        · dsimp only at typed
          split at typed
          · cases typed
          · split at typed
            · cases typed
            · cases send_some typed
              exact self
        · cases typed
  · split at typed
    · cases send_some typed
      exact self
    · split at typed
      · cases send_some typed
        exact ⟨valid,self⟩
      · cases typed
  · cases typed

end Client

namespace Network
variable {n next : Network} {session : SessionRef}

theorem mail_legible {sent : List (SessionRef × ServerPacket)} (legible : GameServer.Legible sent) :
    ∀ pkt ∈ mail sent session, pkt.Text ∧ pkt.Fits := fun pkt member => legible (session,pkt) (mem_mail.mp member)

theorem Text.collect {server : Server} (text : n.Text) (served : server.Text) : (n.collect server).Text := by
  refine ⟨⟨served.world,fun entry member => nomatch member⟩,text.names,text.up,fun session pkt member => ?_⟩
  rcases List.mem_append.mp member with old | new
  · exact text.down session pkt old
  · exact mail_legible served.sent pkt new

theorem Text.fewer {rest : List ClientPacket} (text : n.Text) (fewer : ∀ pkt ∈ rest, pkt ∈ n.uplink session) :
    Text {n with uplink := Function.update n.uplink session rest} := by
  refine ⟨text.server,text.names,fun other pkt member => ?_,text.down⟩
  by_cases same : other = session
  · subst same
    simp only [Function.update_self] at member
    exact text.up other pkt (fewer pkt member)
  · simp only [Function.update_of_ne same] at member
    exact text.up other pkt member

theorem Text.served {worker : Nat} {pkt : ClientPacket} {rest : List ClientPacket} {server : Server} (text : n.Text)
    (waiting : n.uplink session = pkt :: rest) (served : n.server.step (.packet worker session pkt) = some server) :
    ({n with uplink := Function.update n.uplink session rest}.collect server).Text := by
  have said := (text.up session pkt (by simp [waiting])).1
  refine (text.fewer fun other member => by simp [waiting,member]).collect (Server.step_text text.server (fun _ _ _ same => ?_) served)
  cases same
  exact said

theorem Text.typed {line : Bytes} {sent : Option ClientPacket} {client : Client} (text : n.Text)
    (typed : (n.client session).handleInputLine line = (sent,client)) (valid : isStructurallyValidUTF8 line = true)
    (fits : ∀ pkt ∈ sent, pkt.Fits) : Text {n with
      client := Function.update n.client session client
      uplink := Function.update n.uplink session (n.uplink session ++ sent.toList)} := by
  have name : isStructurallyValidUTF8 client.nickname = true := by
    rcases typed_client typed with rfl | rfl <;> exact text.names session
  refine ⟨text.server,client_moved (isStructurallyValidUTF8 ·.nickname = true) text.names name,fun other pkt member => ?_,text.down⟩
  by_cases same : other = session
  · subst same
    simp only [Function.update_self] at member
    rcases List.mem_append.mp member with old | new
    · exact text.up other pkt old
    · have asked := Option.mem_toList.mp new
      exact ⟨Client.handleInputLine_text (text.names other) valid ((congrArg Prod.fst typed).trans asked),fits pkt asked⟩
  · simp only [Function.update_of_ne same] at member
    exact text.up other pkt member

theorem Text.delivered {pkt : ServerPacket} {rest : List ServerPacket} (text : n.Text) (waiting : n.downlink session = pkt :: rest) :
    Text {n with
      client := Function.update n.client session ((n.client session).handlePacket pkt)
      downlink := Function.update n.downlink session rest} := by
  have said := (text.down session pkt (by simp [waiting])).1
  refine ⟨text.server,client_moved (isStructurallyValidUTF8 ·.nickname = true) text.names
    (Client.handlePacket_text (text.names session) said),text.up,fun other pkt member => ?_⟩
  by_cases same : other = session
  · subst same
    simp only [Function.update_self] at member
    exact text.down other pkt (by simp [waiting,member])
  · simp only [Function.update_of_ne same] at member
    exact text.down other pkt member

end Network

namespace SocketNetwork
variable {s next : SocketNetwork} {n : Network} {worker : Nat} {session : SessionRef}

theorem clientFrames_wellFormed {pkts : List ClientPacket} (fit : ∀ pkt ∈ pkts, pkt.Fits) :
    ∀ f ∈ pkts.map ClientPacket.frame, WellFormed f := by
  intro f member
  obtain ⟨pkt,present,rfl⟩ := List.mem_map.mp member
  exact frameOf_wellFormed (fit pkt present)

theorem serverFrames_wellFormed {pkts : List ServerPacket} (fit : ∀ pkt ∈ pkts, pkt.Fits) :
    ∀ f ∈ pkts.map ServerPacket.frame, WellFormed f := by
  intro f member
  obtain ⟨pkt,present,rfl⟩ := List.mem_map.mp member
  exact frameOf_wellFormed (fit pkt present).small

theorem start_carries : start.Carries .start :=
  ⟨rfl,rfl,fun _ => RecvSession.start_carries,fun _ => RecvSession.start_carries⟩

theorem Carries.collect {server : Server} (carries : s.Carries n) : (s.collect server).Carries (n.collect server) := by
  refine ⟨rfl,carries.client,carries.up,fun other => ?_⟩
  simp only [SocketNetwork.collect,Network.collect,List.map_append]
  exact (carries.down other).push _

theorem onRecvPackets_serves {pkts rest : List ClientPacket} (text : n.Text) (waiting : n.uplink session = pkts ++ rest)
    (carries : s.Carries {n with uplink := Function.update n.uplink session rest})
    (done : onRecvPackets worker session s (pkts.map ClientPacket.frame) = some next) :
    ∃ m, Runs (Enabled Network.step) n (List.replicate pkts.length (.serve worker session)) m ∧ m.Text ∧ next.Carries m := by
  induction pkts generalizing s n with
  | nil =>
    cases done
    rw [List.nil_append] at waiting
    rw [← waiting,Function.update_eq_self] at carries
    exact ⟨n,.nil,text,carries⟩
  | cons pkt pkts ih =>
    obtain ⟨said,fits⟩ := text.up session pkt (by simp [waiting])
    obtain ⟨server,served,more⟩ := Option.bind_eq_some_iff.mp done
    rw [Server.stepSession_recv fits,Server.onRecvPacket_text_frame said fits,carries.server] at served
    have later : (s.collect server).Carries {({n with uplink := Function.update n.uplink session (pkts ++ rest)}.collect server) with
        uplink := Function.update (Function.update n.uplink session (pkts ++ rest)) session rest} := by
      rw [Function.update_idem]
      exact carries.collect
    obtain ⟨m,path,texts,carried⟩ := ih (text.served waiting served) (by simp [Network.collect]) later more
    refine ⟨m,.cons ?_ path,texts,carried⟩
    simp only [Enabled,Network.step,waiting,List.cons_append]
    rw [served]
    rfl

theorem recvPackets_delivers {pkts rest : List ServerPacket} (text : n.Text) (waiting : n.downlink session = pkts ++ rest) :
    ∃ m, Runs (Enabled Network.step) n (List.replicate pkts.length (.deliver session)) m ∧ m.Text ∧ m = {n with
      client := Function.update n.client session ((pkts.map ServerPacket.frame).foldl ServerSession.onRecvPacket (n.client session))
      downlink := Function.update n.downlink session rest} := by
  induction pkts generalizing n with
  | nil =>
    rw [List.nil_append] at waiting
    refine ⟨n,.nil,text,?_⟩
    simp only [List.map_nil,List.foldl_nil,← waiting,Function.update_eq_self]
  | cons pkt pkts ih =>
    obtain ⟨said,fits⟩ := text.down session pkt (by simp [waiting])
    obtain ⟨m,path,texts,same⟩ := ih (text.delivered waiting) (by simp)
    refine ⟨m,.cons ?_ path,texts,?_⟩
    · simp only [Enabled,Network.step,waiting,List.cons_append]
      rfl
    · rw [same]
      simp only [Function.update_idem,Function.update_self,List.map_cons,List.foldl_cons,ServerSession.onRecvPacket_frame said fits]

theorem serves_inside {count : Nat} : (List.replicate count (NetworkEvent.serve worker session)).filter (·.isOutside) = [] := by
  simp [NetworkEvent.isOutside]

theorem delivers_inside {count : Nat} : (List.replicate count (NetworkEvent.deliver session)).filter (·.isOutside) = [] := by
  simp [NetworkEvent.isOutside]

theorem step_carries {event : SocketEvent} (text : n.Text) (carries : s.Carries n) (taken : Guarded (Enabled step) Typed s event next) :
    ∃ events m, Runs (Enabled Network.step) n events m ∧ events.filter (·.isOutside) = event.outside ∧ m.Text ∧ next.Carries m := by
  obtain ⟨taken,typed⟩ := taken
  cases event with
  | connect worker session =>
    obtain ⟨server,connected,rfl⟩ := Option.map_eq_some_iff.mp taken
    have onServer : n.server.step (.connect worker session) = some server := carries.server ▸ connected
    have connects : Enabled Network.step n (.connect worker session) (n.collect server) :=
      Option.map_eq_some_iff.mpr ⟨server,onServer,rfl⟩
    have served := @Server.step_text n.server server (.connect worker session) text.server (fun _ _ _ same => by cases same) onServer
    exact ⟨_,_,.single connects,rfl,text.collect served,carries.collect⟩
  | input session line =>
    obtain ⟨valid,existing⟩ := typed
    simp only [Enabled,step] at taken
    rw [carries.client] at taken existing
    split at taken
    · rename_i pkt client sent
      split at taken
      · rename_i fits
        cases taken
        have there : Existing n.server.world pkt := by
          rw [← carries.server]
          exact existing pkt (by rw [sent]; rfl)
        have asks : Enabled Network.step n (.input session line) {n with
            client := Function.update n.client session client
            uplink := Function.update n.uplink session (n.uplink session ++ [pkt])} := by
          simp only [Enabled,Network.step,sent,if_pos there]
        refine ⟨_,_,.single asks,rfl,text.typed sent valid fun other same => ?_,carries.server,rfl,fun other => ?_,carries.down⟩
        · cases same
          exact fits
        · by_cases same : other = session
          · subst same
            simp only [Function.update_self,List.map_append]
            simpa using (carries.up other).push [pkt.frame]
          · simp only [Function.update_of_ne same]
            exact carries.up other
      · cases taken
    · rename_i client silent
      cases taken
      have types : Enabled Network.step n (.input session line) {n with client := Function.update n.client session client} := by
        simp only [Enabled,Network.step,silent]
      have texts := text.typed silent valid (fun _ absent => by cases absent)
      rw [Option.toList_none,List.append_nil,Function.update_eq_self] at texts
      exact ⟨_,_,.single types,rfl,texts,carries.server,rfl,carries.up,carries.down⟩
  | serve worker session count =>
    obtain ⟨⟨recv,packets⟩,received,handled⟩ := Option.bind_eq_some_iff.mp taken
    have fit : ∀ pkt ∈ n.uplink session, pkt.Fits := fun pkt member => (text.up session pkt member).2
    obtain ⟨left,split,link⟩ := (carries.up session).take (clientFrames_wellFormed fit) received
    obtain ⟨pkts,rest,waiting,rfl,rfl⟩ := List.map_eq_append_iff.mp split
    have inHand : Carries {s with
        uplink := Function.update s.uplink session ((s.uplink session).drop count)
        serverRecv := Function.update s.serverRecv session recv} {n with uplink := Function.update n.uplink session rest} := by
      refine ⟨carries.server,carries.client,fun other => ?_,carries.down⟩
      by_cases same : other = session
      · subst same
        simpa only [Function.update_self] using link
      · simp only [Function.update_of_ne same]
        exact carries.up other
    obtain ⟨m,path,texts,carried⟩ := onRecvPackets_serves text waiting inHand handled
    exact ⟨_,m,path,serves_inside,texts,carried⟩
  | deliver session count =>
    obtain ⟨⟨recv,packets⟩,received,rfl⟩ := Option.map_eq_some_iff.mp taken
    have fit : ∀ pkt ∈ n.downlink session, pkt.Fits := fun pkt member => (text.down session pkt member).2
    obtain ⟨left,split,link⟩ := (carries.down session).take (serverFrames_wellFormed fit) received
    obtain ⟨pkts,rest,waiting,rfl,rfl⟩ := List.map_eq_append_iff.mp split
    obtain ⟨m,path,texts,rfl⟩ := recvPackets_delivers text waiting
    refine ⟨_,_,path,delivers_inside,texts,carries.server,?_,carries.up,fun other => ?_⟩
    · simp only [carries.client]
    · by_cases same : other = session
      · subst same
        simpa only [Function.update_self] using link
      · simp only [Function.update_of_ne same]
        exact carries.down other

theorem start_text : Network.start.Text :=
  ⟨Server.start_text,fun _ => rfl,fun _ _ absent => (nomatch absent),fun _ _ absent => nomatch absent⟩

theorem runs_carried {events : List SocketEvent} (path : Runs (Guarded (Enabled step) Typed) start events s) :
    ∃ packetEvents n, Runs (Enabled Network.step) .start packetEvents n ∧
      packetEvents.filter (·.isOutside) = events.flatMap SocketEvent.outside ∧ n.Text ∧ s.Carries n := by
  induction path with
  | nil => exact ⟨[],.start,.nil,rfl,start_text,start_carries⟩
  | step _ taken ih =>
    obtain ⟨before,n,path,same,text,carries⟩ := ih
    obtain ⟨later,m,more,sameToo,texts,carried⟩ := step_carries text carries taken
    refine ⟨before ++ later,m,path.append more,?_,texts,carried⟩
    rw [List.filter_append,same,sameToo,List.flatMap_append,List.flatMap_singleton]

-- The two programs over their sockets do what they do over queues of packets.
theorem sockets_carry_packets {events : List SocketEvent} (path : Runs (Guarded (Enabled step) Typed) start events s) :
    ∃ packetEvents n, Runs (Enabled Network.step) .start packetEvents n ∧
      packetEvents.filter (·.isOutside) = events.flatMap SocketEvent.outside ∧ s.Carries n := by
  obtain ⟨packetEvents,n,packets,same,_,carries⟩ := runs_carried path
  exact ⟨packetEvents,n,packets,same,carries⟩

-- Four bytes of the first packet arrive by themselves, the other five with the second.
def greeted : List SocketEvent := [.connect 0 0,.deliver 0 28,.input 0 (ascii "kim"),.serve 0 0 4,.input 0 (ascii "lee"),.serve 0 0 14]

theorem sockets_carry_packets_greeted : ∃ s n packetEvents, Runs (Guarded (Enabled step) Typed) start greeted s ∧
    (s.client 0).state = .waitingNickname ∧ s.server.world.playerCount = 1 ∧
    Runs (Enabled Network.step) .start packetEvents n ∧ s.Carries n := by
  have path : Runs (Guarded (Enabled step) Typed) start greeted _ := guard_runs rfl
  obtain ⟨packetEvents,n,packets,_,carries⟩ := sockets_carry_packets path
  exact ⟨_,n,packetEvents,path,rfl,rfl,packets,carries⟩

end SocketNetwork
end IocpChatServer.DummyClient
