import IocpChatServer.ServerCore.PacketSession

namespace IocpChatServer.ServerCore
open Foundations Memory Framing

structure WsaBuf where
  buf : Nat
  len : Nat
  deriving DecidableEq, Repr

-- The receive half of a session. WSARecv is taken to be accepted here; `packets` are the
-- OnRecvPacket calls made so far, and `overlapped` remembers that some memcpy of Clean had
-- overlapping ranges, after which the source promises nothing.
structure RecvSession where
  connected : Bool
  recvBuffer : RecvBuffer
  recvPosted : Option WsaBuf
  packets : List (List BYTE)
  overlapped : Bool

namespace RecvSession

def bufferSize : Nat := 0x10000

def disconnect (s : RecvSession) : RecvSession := {s with connected := false}

def registerRecv (s : RecvSession) : RecvSession :=
  if s.connected = false then s
  else {s with recvPosted := some ⟨s.recvBuffer.writePos,s.recvBuffer.freeSize⟩}

-- OnRecv is given the length of this completion, not the length of what is queued.
def processRecv (s : RecvSession) (numOfBytes : Nat) : Option RecvSession :=
  if numOfBytes = 0 then some s.disconnect
  else match s.recvBuffer.onWrite numOfBytes with
    | none => some s.disconnect
    | some written => do
      let parse ← PacketSession.onRecv written.readPtr numOfBytes
      let s := {s with recvBuffer := written,packets := s.packets ++ parse.packets}
      if parse.processLen < 0 ∨ (written.dataSize : Int) < parse.processLen then some s.disconnect
      else match written.onRead parse.processLen.toNat with
        | none => some s.disconnect
        | some read => some (registerRecv {s with
            recvBuffer := read.clean
            overlapped := s.overlapped || read.copiesOverlapping})

-- A completion of the posted WSARecv. Without one the peer's bytes go nowhere.
def complete (s : RecvSession) (bytes : List BYTE) : Option RecvSession :=
  match s.recvPosted with
  | none => some s
  | some posted => processRecv
      {s with recvPosted := none,recvBuffer := s.recvBuffer.deposit posted.buf bytes} bytes.length

def receive (s : RecvSession) : List (List BYTE) → Option RecvSession
  | [] => some s
  | bytes :: rest => (s.complete bytes).bind (receive · rest)

-- ProcessConnect has run: connected, nothing received, the first WSARecv posted.
def start : RecvSession :=
  registerRecv ⟨true,RecvBuffer.make bufferSize,none,[],false⟩

theorem receive_append (s : RecvSession) (earlier later : List (List BYTE)) :
    s.receive (earlier ++ later) = (s.receive earlier).bind (receive · later) := by
  induction earlier generalizing s with
  | nil => rfl
  | cons bytes rest ih =>
    cases done : s.complete bytes with
    | none => simp [receive,done]
    | some next => simp [receive,done,ih]

structure UpToDate (frames : List (List BYTE)) (n : Nat) (s : RecvSession) : Prop where
  connected : s.connected = true
  apart : s.overlapped = false
  posted : s.recvPosted = some ⟨s.recvBuffer.writePos,s.recvBuffer.freeSize⟩
  capacity : s.recvBuffer.capacity = 10 * bufferSize
  room : s.recvBuffer.bufferSize = bufferSize
  packets : s.packets = arrived frames n
  queued : s.recvBuffer.queued = (missing frames n).flatten.take (waiting frames n)

variable {frames pieces : List (List BYTE)} {bytes : List BYTE} {n : Nat} {s : RecvSession}

theorem start_upToDate (wf : ∀ f ∈ frames, WellFormed f) : UpToDate frames 0 start := by
  have none : arrived frames 0 = [] := by
    cases frames with
    | nil => rfl
    | cons f rest =>
      have long := (wf f List.mem_cons_self).header
      exact if_neg (by unfold PacketHeader.sizeof at long; omega)
  refine ⟨rfl,rfl,rfl,rfl,rfl,none.symm,?_⟩
  simp [waiting,none,start,registerRecv,RecvBuffer.queued,RecvBuffer.dataSize,RecvBuffer.make]

theorem processRecv_reads {written : RecvBuffer} {p : Nat} {calls : List (List BYTE)} (positive : n ≠ 0)
    (wrote : s.recvBuffer.onWrite n = some written)
    (parsed : PacketSession.onRecv written.readPtr n = some ⟨p,calls⟩) (within : p ≤ written.dataSize) :
    ∃ read, written.onRead p = some read ∧ s.processRecv n = some (registerRecv {s with
      recvBuffer := read.clean
      packets := s.packets ++ calls
      overlapped := s.overlapped || read.copiesOverlapping}) := by
  obtain ⟨read,consumed⟩ := RecvBuffer.onRead_some within
  refine ⟨read,consumed,?_⟩
  have kept : ¬ ((p : Int) < 0 ∨ (written.dataSize : Int) < p) := by omega
  simp only [processRecv,if_neg positive,wrote,parsed,Option.bind_eq_bind,Option.bind_some,if_neg kept,
    Int.toNat_natCast,consumed]

-- A session that is up: of the frames not handed over it has `unread` bytes.
structure Behind (rest : List (List BYTE)) (unread : Nat) (s : RecvSession) : Prop where
  connected : s.connected = true
  posted : s.recvPosted = some ⟨s.recvBuffer.writePos,s.recvBuffer.freeSize⟩
  capacity : s.recvBuffer.capacity = 10 * bufferSize
  room : s.recvBuffer.bufferSize = bufferSize
  queued : s.recvBuffer.queued = rest.flatten.take unread
  within : unread ≤ rest.flatten.length

-- One completion: OnRecv looks at as many unread bytes as this completion brought, and hands
-- over the frames that end there.
theorem complete_behind {rest : List (List BYTE)} {unread : Nat} (wf : ∀ f ∈ rest, WellFormed f) (behind : Behind rest unread s)
    (some_ : bytes ≠ []) (fits : bytes.length ≤ s.recvBuffer.freeSize) (within : unread + bytes.length ≤ rest.flatten.length)
    (fresh : bytes = (rest.flatten.drop unread).take bytes.length) :
    ∃ next, s.complete bytes = some next ∧ next.packets = s.packets ++ arrived rest bytes.length ∧
      Behind (missing rest bytes.length) (unread + waiting rest bytes.length) next ∧
      (unread + waiting rest bytes.length < bufferSize →
        next.overlapped = s.overlapped ∧ bufferSize ≤ next.recvBuffer.freeSize) := by
  obtain ⟨connected,posted,capacity,room,queued,_⟩ := behind
  obtain ⟨written,wrote⟩ := @RecvBuffer.onWrite_some (s.recvBuffer.deposit s.recvBuffer.writePos bytes)
    bytes.length fits
  -- everything queued after the write is again a prefix of what is not handed over
  have grown := RecvBuffer.deposit_queued wrote
  change written.queued = s.recvBuffer.queued ++ bytes at grown
  have whole : written.queued = rest.flatten.take (unread + bytes.length) := by
    rw [grown,queued,List.take_add,← fresh]
  have size : written.dataSize = unread + bytes.length := by
    rw [← RecvBuffer.queued_length,whole,List.length_take]
    omega
  have content : slice written.readPtr 0 bytes.length = rest.flatten.take bytes.length := by
    have more : bytes.length ≤ written.dataSize := by omega
    rw [← slice_take more,← RecvBuffer.queued_ptr,whole,List.take_take,Nat.min_eq_left (by omega)]
  have small : bytes.length < 2^31 := by
    have := s.recvBuffer.bounded
    unfold RecvBuffer.freeSize bufferSize at *
    omega
  have parsed := PacketSession.onRecv_frames wf small (by omega) content
  have handed := arrived_seen rest bytes.length
  obtain ⟨read,consumed,ran⟩ := @processRecv_reads bytes.length
    {s with recvPosted := none,recvBuffer := s.recvBuffer.deposit s.recvBuffer.writePos bytes}
    written _ _ (by simpa using some_) wrote parsed (by omega)
  obtain ⟨_,left,_,_,readCapacity,readRoom⟩ := RecvBuffer.onRead_parts consumed
  obtain ⟨_,_,_,_,writtenCapacity,writtenRoom⟩ := RecvBuffer.onWrite_parts wrote
  have readCapacity : read.capacity = 10 * bufferSize := by rw [readCapacity,writtenCapacity]; exact capacity
  have readRoom : read.bufferSize = bufferSize := by rw [readRoom,writtenRoom]; exact room
  -- what is left of it once the frames handed over are cut off
  have parts := congrArg List.length (stream_parts rest bytes.length)
  rw [List.length_append] at parts
  have newQueue : read.queued = (missing rest bytes.length).flatten.take (unread + waiting rest bytes.length) := by
    have behindThem : unread + bytes.length - (arrived rest bytes.length).flatten.length = unread + waiting rest bytes.length := by omega
    rw [left,whole,List.drop_take,behindThem]
    conv_lhs => rw [stream_parts rest bytes.length,List.drop_left]
  have newSize : read.dataSize = unread + waiting rest bytes.length := by
    rw [← RecvBuffer.queued_length,newQueue,List.length_take]
    omega
  refine ⟨_,by simpa [complete,posted] using ran,?_,?_,?_⟩
  · simp [registerRecv,connected]
  · simp only [registerRecv,connected,Bool.true_eq_false,if_false]
    exact ⟨rfl,rfl,by simpa using readCapacity,by simpa using readRoom,by simpa [RecvBuffer.clean_queued] using newQueue,by omega⟩
  · intro light
    have clear : read.copiesOverlapping = false := RecvBuffer.clean_apart read (by omega)
    have free := read.clean_room (by omega)
    simpa [registerRecv,connected,clear,readRoom] using free

theorem UpToDate.behind (valid : UpToDate frames n s) (within : n ≤ frames.flatten.length) :
    Behind (missing frames n) (waiting frames n) s := by
  obtain ⟨connected,_,posted,capacity,room,_,queued⟩ := valid
  have seen := arrived_seen frames n
  have parts := congrArg List.length (stream_parts frames n)
  rw [List.length_append] at parts
  exact ⟨connected,posted,capacity,room,queued,by omega⟩

theorem complete_delivers (wf : ∀ f ∈ frames, WellFormed f) (valid : UpToDate frames n s)
    (some_ : bytes ≠ []) (fits : bytes.length ≤ s.recvBuffer.freeSize)
    (within : n + bytes.length ≤ frames.flatten.length)
    (fresh : bytes = (frames.flatten.drop n).take bytes.length) :
    ∃ next, s.complete bytes = some next ∧
      next.packets = s.packets ++ arrived (missing frames n) bytes.length ∧
      (arrived (missing frames n) bytes.length =
        arrived (missing frames n) (waiting frames n + bytes.length) →
        UpToDate frames (n + bytes.length) next) := by
  have seen := arrived_seen frames n
  have parts := congrArg List.length (stream_parts frames n)
  rw [List.length_append] at parts
  have rest : frames.flatten.drop n = (missing frames n).flatten.drop (waiting frames n) := by
    conv_lhs => rw [stream_parts frames n]
    rw [List.drop_append,List.drop_of_length_le arrived_fits]
    rfl
  have missingWf : ∀ f ∈ missing frames n, WellFormed f :=
    fun f member => wf f (List.mem_of_mem_drop member)
  obtain ⟨next,completed,packets,behind,light⟩ := complete_behind missingWf (valid.behind (by omega)) some_ fits (by omega) (rest ▸ fresh)
  refine ⟨next,completed,packets,fun same => ?_⟩
  obtain ⟨missed,waits⟩ := missing_more frames n bytes.length same
  have bounded := waiting_bounded (fun f member => (wf f member).short) (by decide) within
  rw [← missed,← waits] at behind
  have apart := (light (by unfold bufferSize; omega)).1
  refine ⟨behind.connected,apart.trans valid.apart,behind.posted,behind.capacity,behind.room,?_,behind.queued⟩
  rw [packets,valid.packets,same]
  exact (arrived_more frames n bytes.length).symm

def received (pieces : List (List BYTE)) (k : Nat) : Nat := (pieces.take k).flatten.length

def Completions (pieces : List (List BYTE)) : Prop :=
  ∀ k bytes, pieces[k]? = some bytes → bytes ≠ [] ∧
    ∀ s, start.receive (pieces.take k) = some s → bytes.length ≤ s.recvBuffer.freeSize

-- After every completion the session is up, and exactly the frames that have wholly
-- arrived have been handed over, in order.
def DeliversOnTime (frames pieces : List (List BYTE)) : Prop :=
  ∀ k ≤ pieces.length, ∃ s, start.receive (pieces.take k) = some s ∧ s.connected = true ∧
    s.overlapped = false ∧ s.packets = arrived frames (received pieces k)

-- No completion leaves fewer bytes of an unfinished frame behind than there were before it.
def NeverShrinks (frames pieces : List (List BYTE)) : Prop :=
  ∀ k < pieces.length, waiting frames (received pieces k) ≤ waiting frames (received pieces (k+1))

theorem take_next {k : Nat} (at_ : pieces[k]? = some bytes) :
    pieces.take (k+1) = pieces.take k ++ [bytes] := by
  rw [List.take_add_one,at_]
  rfl

theorem received_next {k : Nat} (at_ : pieces[k]? = some bytes) :
    received pieces (k+1) = received pieces k + bytes.length := by
  simp [received,take_next at_]

theorem covered_iff (frames : List (List BYTE)) (n k : Nat) :
    waiting frames n ≤ waiting frames (n+k) ↔
      arrived (missing frames n) k = arrived (missing frames n) (waiting frames n + k) := by
  rw [arrived_same (by omega)]
  have before := arrived_seen frames n
  have after := arrived_seen frames (n+k)
  rw [arrived_more,List.flatten_append,List.length_append] at after
  omega

theorem next_piece {k : Nat} (split : pieces.flatten <+: frames.flatten) (at_ : pieces[k]? = some bytes) :
    received pieces k + bytes.length ≤ frames.flatten.length ∧
      bytes = (frames.flatten.drop (received pieces k)).take bytes.length := by
  obtain ⟨more,split⟩ := split
  have whole : pieces.flatten = (pieces.take k).flatten ++ (bytes ++ (pieces.drop (k+1)).flatten) := by
    conv_lhs => rw [← List.take_append_drop (k+1) pieces,List.flatten_append,take_next at_]
    simp
  rw [← split,whole]
  constructor
  · simp only [received,List.length_append]
    omega
  · simp [received]

theorem receive_upToDate (wf : ∀ f ∈ frames, WellFormed f) (split : pieces.flatten = frames.flatten)
    (fits : Completions pieces) {k : Nat} (within : k ≤ pieces.length)
    (grows : ∀ j < k, waiting frames (received pieces j) ≤ waiting frames (received pieces (j+1))) :
    ∃ s, start.receive (pieces.take k) = some s ∧ UpToDate frames (received pieces k) s := by
  induction k with
  | zero => exact ⟨start,rfl,start_upToDate wf⟩
  | succ k ih =>
    obtain ⟨s,ran,valid⟩ := ih (by omega) (fun j below => grows j (by omega))
    obtain ⟨bytes,at_⟩ : ∃ bytes, pieces[k]? = some bytes := ⟨_,List.getElem?_eq_getElem (by omega)⟩
    obtain ⟨some_,room⟩ := fits k bytes at_
    obtain ⟨bounded,fresh⟩ := @next_piece frames pieces bytes k ⟨[],by rw [List.append_nil,split]⟩ at_
    obtain ⟨next,completed,_,kept⟩ := complete_delivers wf valid some_ (room s ran) bounded fresh
    have step := grows k (by omega)
    rw [received_next at_] at step ⊢
    exact ⟨next,by simp [take_next at_,receive_append,ran,receive,completed],kept ((covered_iff _ _ _).mp step)⟩

-- Nothing waits at the end of the stream, so nothing may wait on the way: every completion ends
-- where a frame does.
theorem neverShrinks_boundaries (split : pieces.flatten = frames.flatten) :
    NeverShrinks frames pieces ↔ ∀ k ≤ pieces.length, waiting frames (received pieces k) = 0 := by
  constructor
  · intro grows k within
    induction within using Nat.decreasingInduction with
    | self =>
      rw [received,List.take_length,split]
      exact waiting_whole frames
    | of_succ k below ih => exact Nat.le_zero.mp (ih ▸ grows k below)
  · intro none k below
    rw [none k (Nat.le_of_lt below),none (k+1) below]

theorem reassembly_exact (wf : ∀ f ∈ frames, WellFormed f) (split : pieces.flatten = frames.flatten)
    (fits : Completions pieces) : DeliversOnTime frames pieces ↔ NeverShrinks frames pieces := by
  constructor
  · intro delivers k
    induction k using Nat.strongRecOn with
    | ind k ih =>
      intro below
      obtain ⟨s,ran,valid⟩ := receive_upToDate wf split fits (Nat.le_of_lt below)
        (fun j earlier => ih j earlier (by omega))
      obtain ⟨bytes,at_⟩ : ∃ bytes, pieces[k]? = some bytes := ⟨_,List.getElem?_eq_getElem below⟩
      obtain ⟨some_,room⟩ := fits k bytes at_
      obtain ⟨bounded,fresh⟩ := @next_piece frames pieces bytes k ⟨[],by rw [List.append_nil,split]⟩ at_
      obtain ⟨next,completed,packets,_⟩ := complete_delivers wf valid some_ (room s ran) bounded fresh
      obtain ⟨after,ranOn,_,_,onTime⟩ := delivers (k+1) below
      have same : next = after := by
        simpa [take_next at_,receive_append,ran,receive,completed] using ranOn
      subst same
      rw [received_next at_] at onTime ⊢
      rw [packets,valid.packets,arrived_more] at onTime
      exact (covered_iff _ _ _).mpr (List.append_cancel_left onTime)
  · intro grows k within
    obtain ⟨s,ran,valid⟩ := receive_upToDate wf split fits within (fun j below => grows j (by omega))
    exact ⟨s,ran,valid.connected,valid.apart,valid.packets⟩

def hello : List BYTE := [4,0,0xE9,3]
def hi : List BYTE := [6,0,0xEA,3,1,2]

theorem whole_completions : Completions [hello ++ hi,hello] := by
  intro k bytes at_
  match k,at_ with
  | 0,at_ => cases at_; exact ⟨by decide,fun s ran => by cases ran; decide⟩
  | 1,at_ => cases at_; exact ⟨by decide,fun s ran => by cases ran; decide⟩

theorem reassembly_exact_whole : DeliversOnTime [hello,hi,hello] [hello ++ hi,hello] := by
  refine (@reassembly_exact [hello,hi,hello] [hello ++ hi,hello] (by decide) rfl whole_completions).mpr ?_
  exact (@neverShrinks_boundaries [hello,hi,hello] [hello ++ hi,hello] rfl).mpr (by decide)

-- A frame as three bytes and one: the last byte arrives, and nothing is handed over.
def helloPieces : List (List BYTE) := [[4,0,0xE9],[3]]

theorem helloPieces_completions : Completions helloPieces := by
  intro k bytes at_
  match k,at_ with
  | 0,at_ => cases at_; exact ⟨by decide,fun s ran => by cases ran; decide⟩
  | 1,at_ => cases at_; exact ⟨by decide,fun s ran => by cases ran; decide⟩

theorem reassembly_split_lost : (∀ f ∈ [hello], WellFormed f) ∧ helloPieces.flatten = [hello].flatten ∧
    Completions helloPieces ∧ ¬ DeliversOnTime [hello] helloPieces := by
  refine ⟨by decide,rfl,helloPieces_completions,?_⟩
  intro delivers
  obtain ⟨s,ran,_,_,packets⟩ := delivers 2 (Nat.le_refl 2)
  cases ran
  revert packets
  decide

end RecvSession
end IocpChatServer.ServerCore
