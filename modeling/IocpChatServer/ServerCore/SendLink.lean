import Mathlib.Data.List.Flatten
import IocpChatServer.ServerCore.RecvLink
import IocpChatServer.ServerCore.SendLoss

namespace IocpChatServer.ServerCore

-- What MakeSendBuffer leaves in a SendBuffer: a header with the size, and the payload.
abbrev Frame : Type := {frame : List BYTE // WellFormed frame}

-- The two ends of a connection, one way. `onWay` are the bytes of accepted WSASend calls the
-- peer has not received, and `received` the buffers of the peer's OnRecvPacket calls.
structure SendLink (Thread : Type _) where
  sender : SessionSend.State Thread Frame
  onWay : List BYTE
  receiver : RecvSession
  received : List (List BYTE)

inductive LinkEvent (Thread : Type _) where
  | send (event : Thread × SessionSend.Choice Frame)
  | receive (count : Nat)

namespace SendLink
open Foundations TransitionSystem SessionSend
variable {Thread : Type _} [DecidableEq Thread]

def start : SendLink Thread := ⟨.start,[],.start,[]⟩

-- A stream socket sends what an accepted WSASend gave it, in the order of the calls.
def step (s : SendLink Thread) : LinkEvent Thread → Option (SendLink Thread)
  | .send event => (SessionSend.step s.sender event).map fun sender => {s with
      sender := sender
      onWay := s.onWay ++ (sender.accepted.drop s.sender.accepted.length).flatten.unattach.flatten}
  | .receive count => (s.receiver.take s.onWay count).map fun (receiver,packets) => {s with
      onWay := s.onWay.drop count
      receiver := receiver
      received := s.received ++ packets}

structure Holds (s : SendLink Thread) (waiting : List Frame) : Prop where
  ordered : Ordered s.sender
  part : s.sender.accepted.Sublist s.sender.given
  whole : s.received ++ waiting.unattach = s.sender.accepted.flatten.unattach
  carried : RecvSession.Carries waiting.unattach s.receiver s.onWay

variable {s next : SendLink Thread} {waiting : List Frame} {event : LinkEvent Thread} {holder turn : Option Thread}

theorem moves_accepted {sender after : SessionSend.State Thread Frame} {event : Thread × Choice Frame}
    (moves : Moves sender holder event after turn) :
    ∃ more, after.accepted = sender.accepted ++ more ∧
      (sender.accepted.Sublist sender.given → after.accepted.Sublist after.given) := by
  cases moves with
  | handedOver => exact ⟨[sender.sendBuffers],rfl,fun part => part.append (List.Sublist.refl _)⟩
  | refused => exact ⟨[],by simp [State.goto],fun part => part.trans (List.sublist_append_left _ _)⟩
  | walked | dropped | took | queued | drained | completed | clearing | relocked =>
    exact ⟨[],by simp [State.goto],id⟩

omit [DecidableEq Thread] in
theorem start_holds : Holds (start : SendLink Thread) [] :=
  ⟨⟨none,start_inv⟩,List.Sublist.refl _,rfl,RecvSession.start_carries⟩

theorem framed (waiting : List Frame) : ∀ f ∈ waiting.unattach, WellFormed f := by
  intro f member
  exact (List.mem_unattach.mp member).1

theorem Holds.sent {sender : SessionSend.State Thread Frame} {event : Thread × Choice Frame} (holds : Holds s waiting)
    (taken : SessionSend.step s.sender event = some sender) :
    ∃ more, Holds {s with
      sender := sender
      onWay := s.onWay ++ (sender.accepted.drop s.sender.accepted.length).flatten.unattach.flatten} (waiting ++ more) := by
  obtain ⟨holder,valid⟩ := holds.ordered
  obtain ⟨turn,moves⟩ := step_moves valid taken
  obtain ⟨more,accepted,part⟩ := moves_accepted moves
  refine ⟨more.flatten,⟨turn,moves.inv valid⟩,part holds.part,?_,?_⟩
  · rw [accepted,List.flatten_append,List.unattach_append,List.unattach_append,← holds.whole,List.append_assoc]
  · rw [accepted,List.drop_left,List.unattach_append]
    exact holds.carried.push _

omit [DecidableEq Thread] in
theorem Holds.arrived {receiver : RecvSession} {packets : List (List BYTE)} {count : Nat} (holds : Holds s waiting)
    (taken : s.receiver.take s.onWay count = some (receiver,packets)) :
    ∃ rest, Holds {s with
      onWay := s.onWay.drop count
      receiver := receiver
      received := s.received ++ packets} rest := by
  obtain ⟨left,parts,carried⟩ := holds.carried.take (framed waiting) taken
  obtain ⟨first,rest,rfl,rfl,rfl⟩ := List.map_eq_append_iff.mp parts
  refine ⟨rest,holds.ordered,holds.part,?_,carried⟩
  rw [← holds.whole,List.unattach_append,List.append_assoc]
  rfl

def Linked (s : SendLink Thread) : Prop := ∃ waiting, Holds s waiting

theorem step_linked (s : SendLink Thread) (event : LinkEvent Thread) (next : SendLink Thread) (linked : Linked s)
    (taken : s.step event = some next) : Linked next := by
  obtain ⟨waiting,holds⟩ := linked
  cases event with
  | send event =>
    obtain ⟨sender,sent,rfl⟩ := Option.map_eq_some_iff.mp taken
    obtain ⟨more,after⟩ := holds.sent sent
    exact ⟨_,after⟩
  | receive count =>
    obtain ⟨⟨receiver,packets⟩,received,rfl⟩ := Option.map_eq_some_iff.mp taken
    exact holds.arrived received

-- However many threads send, however the calls end and the bytes are cut: what the peer hands over
-- are the first frames accepted, whole and in the order of their pushes, none twice. The others are
-- in its receive buffer and on their way, and if no WSASend has failed the rest waits with the sender.
theorem sends_arrive {events : List (LinkEvent Thread)} (path : Runs (Enabled step) (start : SendLink Thread) events s) :
    ∃ waiting : List Frame,
      s.received ++ waiting.unattach = s.sender.accepted.flatten.unattach ∧
      waiting.unattach.flatten = s.receiver.recvBuffer.queued ++ s.onWay ∧
      s.sender.accepted.flatten.Sublist s.sender.pushed ∧
      (s.sender.accepted = s.sender.given → ∀ wsaBufs, Handed s.sender wsaBufs →
        s.received ++ waiting.unattach ++ wsaBufs.unattach ++ s.sender.sendQueue.unattach = s.sender.pushed.unattach) := by
  obtain ⟨waiting,holds⟩ := path.invariant step_linked ⟨[],start_holds⟩
  obtain ⟨unread,behind,way⟩ := holds.carried
  obtain ⟨holder,valid⟩ := holds.ordered
  refine ⟨waiting,holds.whole,?_,?_,fun all wsaBufs handed => ?_⟩
  · rw [behind.queued,way,List.take_append_drop]
  · have given : s.sender.given.flatten.Sublist s.sender.pushed := by
      rw [← valid.order,List.append_assoc]
      exact List.sublist_append_left _ _
    exact holds.part.flatten.trans given
  · have none := valid.handed handed
    rw [holds.whole,← none,all,List.unattach_append,List.unattach_append]

-- Two threads push before one of them sends for both; the peer has got one frame and a half.
def halfway : List (LinkEvent Bool) :=
  [.send (false,.send (some ⟨[4,0,1,0],by decide⟩)),.send (true,.send (some ⟨[5,0,2,0,9],by decide⟩)),.send (false,.go),
    .send (true,.go),.send (false,.go),.send (true,.go),.send (false,.go),.send (false,.go),.send (false,.go),
    .send (false,.go),.send (false,.wsaSend none),.receive 4,.receive 2]

theorem sends_arrive_half : ∃ s : SendLink Bool, Runs (Enabled step) start halfway s ∧
    s.received = [[4,0,1,0]] ∧ s.onWay = [2,0,9] ∧ ∃ waiting : List Frame,
      s.received ++ waiting.unattach = s.sender.accepted.flatten.unattach ∧
      waiting.unattach.flatten = s.receiver.recvBuffer.queued ++ s.onWay ∧
      ∀ wsaBufs, Handed s.sender wsaBufs →
        s.received ++ waiting.unattach ++ wsaBufs.unattach ++ s.sender.sendQueue.unattach = s.sender.pushed.unattach := by
  have done : (execute step start halfway).map (fun s => (s.received,s.onWay,decide (s.sender.accepted = s.sender.given))) =
      some ([[4,0,1,0]],[2,0,9],true) := by
    decide +kernel
  obtain ⟨s,reached,seen⟩ := Option.map_eq_some_iff.mp done
  have path := execute_runs reached
  obtain ⟨waiting,whole,bytes,_,rest⟩ := sends_arrive path
  have all := of_decide_eq_true (congrArg (·.2.2) seen)
  exact ⟨s,path,congrArg Prod.fst seen,congrArg (·.2.1) seen,waiting,whole,bytes,rest all⟩

end SendLink
end IocpChatServer.ServerCore
