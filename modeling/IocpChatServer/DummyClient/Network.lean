import IocpChatServer.DummyClient.ClientApp
import IocpChatServer.GameServer.Membership

namespace IocpChatServer.DummyClient
open GameServer Protocol Foundations TransitionSystem

-- The server and its clients, each on a session of its own, and what is on its way between
-- them in either direction.
structure Network where
  server : Server
  client : SessionRef → Client
  uplink : SessionRef → List ClientPacket
  downlink : SessionRef → List ServerPacket

inductive NetworkEvent where
  | connect (worker : Nat) (session : SessionRef)
  | input (session : SessionRef) (line : Bytes)
  | serve (worker : Nat) (session : SessionRef)
  | deliver (session : SessionRef)
  deriving DecidableEq, Repr

def mail (sent : List (SessionRef × ServerPacket)) (session : SessionRef) : List ServerPacket :=
  (sent.filter fun entry => entry.1 = session).map (·.2)

def Existing (w : World) : ClientPacket → Prop
  | .cJoinRoom roomId _ => w.getRoom roomId ≠ none
  | _ => True

instance (w : World) : (pkt : ClientPacket) → Decidable (Existing w pkt)
  | .cJoinRoom roomId _ => inferInstanceAs (Decidable (w.getRoom roomId ≠ none))
  | .cSetNickname _ | .cRequestRoomList _ | .cCreateRoom _ _ | .cChatRoom _ _ | .cLeaveRoom _ _ => .isTrue trivial

namespace Network

def start : Network := ⟨.start,fun _ => {},fun _ => [],fun _ => []⟩

variable (s : Network)

-- What the server has pushed to its sessions goes on its way.
def collect (server : Server) : Network :=
  {s with
    server := {server with sent := []}
    downlink := fun session => s.downlink session ++ mail server.sent session}

def step : NetworkEvent → Option Network
  | .connect worker session => (s.server.step (.connect worker session)).map s.collect
  | .input session line =>
    match (s.client session).handleInputLine line with
    | (some pkt,client) =>
      if Existing s.server.world pkt then
        some {s with
          client := Function.update s.client session client
          uplink := Function.update s.uplink session (s.uplink session ++ [pkt])}
      else none
    | (none,client) => some {s with client := Function.update s.client session client}
  | .serve worker session =>
    match s.uplink session with
    | pkt :: rest =>
      (s.server.step (.packet worker session pkt)).map {s with uplink := Function.update s.uplink session rest}.collect
    | [] => none
  | .deliver session =>
    match s.downlink session with
    | pkt :: rest =>
      some {s with
        client := Function.update s.client session ((s.client session).handlePacket pkt)
        downlink := Function.update s.downlink session rest}
    | [] => none

def Quiet : Prop := ∀ session, s.uplink session = [] ∧ s.downlink session = []

def Has (session : SessionRef) (room : RoomRef) : Prop :=
  ∃ roomId p, s.server.world.getRoom roomId = some room ∧ s.server.world.Member room p ∧
    (s.server.world.players p).ownerSession = some session

structure Agrees (session : SessionRef) : Prop where
  inRoom : (s.client session).state = .inRoom ↔ ∃ room, s.Has session room
  roomId : ∀ room, s.Has session room → (s.client session).currentRoomId = (s.server.world.rooms room).id
  names : ∀ room, s.Has session room →
    List.Perm (((s.client session).room.getD []).map (·.name)) ((s.server.world.rooms room).members.map fun p => (s.server.world.players p).name)

def Agree : Prop := ∀ session, s.Agrees session

def Vacant : Prop := ∀ session, (s.client session).state ≠ .inRoom ∧ ∀ room, ¬ s.Has session room

end Network

inductive Does (s : Network) : NetworkEvent → Network → Prop where
  | connects : s.server.step (.connect worker session) = some server → Does s (.connect worker session) (s.collect server)
  | types : (s.client session).handleInputLine line = (none,client) →
      Does s (.input session line) {s with client := Function.update s.client session client}
  | asks : (s.client session).handleInputLine line = (some pkt,client) → Existing s.server.world pkt →
      Does s (.input session line) {s with
        client := Function.update s.client session client
        uplink := Function.update s.uplink session (s.uplink session ++ [pkt])}
  | serves : s.uplink session = pkt :: rest → s.server.step (.packet worker session pkt) = some server →
      Does s (.serve worker session) ({s with uplink := Function.update s.uplink session rest}.collect server)
  | delivers : s.downlink session = pkt :: rest → Does s (.deliver session) {s with
      client := Function.update s.client session ((s.client session).handlePacket pkt)
      downlink := Function.update s.downlink session rest}

theorem mem_mail {sent : List (SessionRef × ServerPacket)} {session : SessionRef} {pkt : ServerPacket} :
    pkt ∈ mail sent session ↔ (session,pkt) ∈ sent := by simp [mail]

theorem mail_append (one two : List (SessionRef × ServerPacket)) (session : SessionRef) :
    mail (one ++ two) session = mail one session ++ mail two session := by simp [mail]

namespace Network
variable {s next : Network} {event : NetworkEvent}

theorem step_does (taken : s.step event = some next) : Does s event next := by
  cases event with
  | connect worker session =>
    obtain ⟨server,served,rfl⟩ := Option.map_eq_some_iff.mp taken
    exact .connects served
  | input session line =>
    simp only [step] at taken
    split at taken
    · rename_i pkt client sent
      split at taken
      · rename_i existing
        cases taken
        exact .asks sent existing
      · cases taken
    · rename_i client silent
      cases taken
      exact .types silent
  | serve worker session =>
    simp only [step] at taken
    split at taken
    · rename_i pkt rest waiting
      obtain ⟨server,served,rfl⟩ := Option.map_eq_some_iff.mp taken
      exact .serves waiting served
    · cases taken
  | deliver session =>
    simp only [step] at taken
    split at taken
    · rename_i pkt rest waiting
      cases taken
      exact .delivers waiting
    · cases taken

end Network
end IocpChatServer.DummyClient
