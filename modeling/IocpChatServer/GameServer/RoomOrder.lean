import Mathlib.Data.List.Sort
import IocpChatServer.GameServer.HandlerResult
import IocpChatServer.Foundations.Table
import IocpChatServer.Foundations.TransitionSystem

namespace IocpChatServer.GameServer
open Std ServerCore Protocol Foundations Table TransitionSystem

inductive RoomCall where
  | enter (player : PlayerRef)
  | leave (player : PlayerRef)
  | broadcast (sendBuffer : ServerPacket)
  deriving DecidableEq

-- A call that has got past its check: the room from then on, the message and the players
-- whose sessions it is for, in the order of the loop.
structure Operation where
  call : RoomCall
  room : Room
  sendBuffer : ServerPacket
  recipients : List PlayerRef

-- The thread that has the room's lock, with the number of its operation and those it has not
-- yet reached.
structure RoomSection where
  thread : Nat
  number : Nat
  sendBuffer : ServerPacket
  left : List PlayerRef

structure Push where
  sendBuffer : ServerPacket
  operation : Option Nat
  deriving DecidableEq

-- `sendQueue` has all pushes to a session so far: RegisterSend takes them in this order.
structure RoomThreads where
  room : Room
  lock : Option RoomSection
  operations : List Operation
  sendQueue : SessionRef → List Push

inductive RoomEvent where
  | acquire (thread : Nat) (call : RoomCall)
  | push (thread : Nat)
  | release (thread : Nat)
  | send (session : SessionRef) (sendBuffer : ServerPacket)

-- The Player objects, and the session that `ownerSession.lock()` gives for each of them.
section
variable (player : PlayerRef → Player) (owner : PlayerRef → SessionRef)

def Room.roomEvent (r : Room) (type : RoomEventType) (p : PlayerRef) : ServerPacket :=
  .sRoomEvent type r.getSummary (player p).playerId (player p).name

-- What a call does before its loop. Enter answers false when the room is full.
def Room.operation (r : Room) : RoomCall → Option Operation
  | .enter p =>
    if r.isFull then none
    else
      let joined := {r with players := r.players.insert (player p).playerId p}
      some ⟨.enter p,joined,joined.roomEvent player .playerJoined p,joined.members⟩
  | .leave p =>
    let rest := {r with players := r.players.erase (player p).playerId}
    some ⟨.leave p,rest,rest.roomEvent player .playerLeft p,p :: rest.members⟩
  | .broadcast sendBuffer => some ⟨.broadcast sendBuffer,r,sendBuffer,r.members⟩

namespace RoomThreads

def start (name : Bytes) (maxPlayerCount id : UInt64) : RoomThreads := ⟨⟨{},name,id,maxPlayerCount⟩,none,[],fun _ => []⟩

def add (s : RoomThreads) (session : SessionRef) (push : Push) : RoomThreads :=
  {s with sendQueue := Function.update s.sendQueue session (s.sendQueue session ++ [push])}

-- One thread at a time is between `acquire` and `release`, while the pushes of all others go
-- on. A message that MakeSendBuffer refuses ends the program.
def step (s : RoomThreads) : RoomEvent → Option RoomThreads
  | .acquire thread call =>
    match s.lock,s.room.operation player call with
    | some _,_ => none
    | none,none => some s
    | none,some op =>
      if op.sendBuffer.Fits then
        some {s with
          room := op.room
          lock := some ⟨thread,s.operations.length,op.sendBuffer,op.recipients⟩
          operations := s.operations ++ [op]}
      else none
  | .push thread =>
    match s.lock with
    | some ⟨holder,number,sendBuffer,p :: left⟩ =>
      if holder = thread then
        some ({s with lock := some ⟨holder,number,sendBuffer,left⟩}.add (owner p) ⟨sendBuffer,some number⟩)
      else none
    | _ => none
  | .release thread =>
    match s.lock with
    | some ⟨holder,_,_,[]⟩ => if holder = thread then some {s with lock := none} else none
    | _ => none
  | .send session sendBuffer => some (s.add session ⟨sendBuffer,none⟩)

inductive Does (s : RoomThreads) : RoomEvent → RoomThreads → Prop where
  | refused : Does s (.acquire thread call) s
  | acquired (free : s.lock = none) (does : s.room.operation player call = some op) (fits : op.sendBuffer.Fits) :
      Does s (.acquire thread call) {s with
        room := op.room
        lock := some ⟨thread,s.operations.length,op.sendBuffer,op.recipients⟩
        operations := s.operations ++ [op]}
  | pushed (held : s.lock = some ⟨thread,number,sendBuffer,p :: left⟩) : Does s (.push thread)
      ({s with lock := some ⟨thread,number,sendBuffer,left⟩}.add (owner p) ⟨sendBuffer,some number⟩)
  | released (held : s.lock = some ⟨thread,number,sendBuffer,[]⟩) : Does s (.release thread) {s with lock := none}
  | sent : Does s (.send session sendBuffer) (s.add session ⟨sendBuffer,none⟩)

variable {player owner} {s next : RoomThreads} {event : RoomEvent}

theorem step_does (taken : step player owner s event = some next) : Does player owner s event next := by
  cases event with
  | acquire thread call =>
    simp only [step] at taken
    split at taken
    · cases taken
    · cases taken
      exact .refused
    · rename_i free does
      split at taken
      · rename_i fits
        cases taken
        exact .acquired free does fits
      · cases taken
  | push thread =>
    simp only [step] at taken
    split at taken
    · rename_i held
      split at taken
      · rename_i same
        cases taken
        subst same
        exact .pushed held
      · cases taken
    · cases taken
  | release thread =>
    simp only [step] at taken
    split at taken
    · rename_i held
      split at taken
      · rename_i same
        cases taken
        subst same
        exact .released held
      · cases taken
    · cases taken
  | send session sendBuffer =>
    cases taken
    exact .sent

def waiting (s : RoomThreads) (number : Nat) : List PlayerRef :=
  match s.lock with
  | some held => if held.number = number then held.left else []
  | none => []

def pushes (s : RoomThreads) (number : Nat) (session : SessionRef) : List Push :=
  (s.sendQueue session).filter fun push => push.operation = some number

def numbers (s : RoomThreads) (session : SessionRef) : List Nat := (s.sendQueue session).filterMap Push.operation

structure Reaches (op : Operation) : Prop where
  nodup : op.recipients.Nodup
  exact : ∀ p, p ∈ op.recipients ↔ p ∈ op.room.members ∨ op.call = .leave p
  joined : ∀ p, op.call = .enter p → p ∈ op.room.members
  left : ∀ p, op.call = .leave p → p ∉ op.room.members

variable (player owner) in
structure Ordered (s : RoomThreads) : Prop where
  keyed : ∀ (key : UInt64) (p : PlayerRef), s.room.players[key]? = some p → (player p).playerId = key
  reaches : ∀ op ∈ s.operations, Reaches op
  delivered : ∀ n op, s.operations[n]? = some op → ∃ done, op.recipients = done ++ s.waiting n ∧
    ∀ session, s.pushes n session = (done.filter fun p => owner p = session).map fun _ => ⟨op.sendBuffer,some n⟩
  held : ∀ lock, s.lock = some lock → lock.number + 1 = s.operations.length ∧
    ∃ op, s.operations[lock.number]? = some op ∧ op.sendBuffer = lock.sendBuffer
  given : ∀ session, ∀ n ∈ s.numbers session, n < s.operations.length
  sorted : ∀ session, (s.numbers session).Pairwise (· ≤ ·)

variable {r : Room} {call : RoomCall} {op : Operation} {p : PlayerRef}

theorem members_nodup {players : TreeMap UInt64 PlayerRef}
    (keyed : ∀ (key : UInt64) (p : PlayerRef), players[key]? = some p → (player p).playerId = key) :
    (players.toList.map (·.2)).Nodup := by
  refine List.Nodup.map_on ?_ (players.distinct_keys_toList.imp ?_)
  · rintro ⟨key,p⟩ one ⟨other,q⟩ two same
    have one := keyed key p (TreeMap.mem_toList_iff_getElem?_eq_some.mp one)
    have two := keyed other q (TreeMap.mem_toList_iff_getElem?_eq_some.mp two)
    cases same
    rw [← one,← two]
  · rintro ⟨key,p⟩ ⟨other,q⟩ apart same
    cases same
    exact apart (by simp)

theorem operation_keyed (keyed : ∀ (key : UInt64) (p : PlayerRef), r.players[key]? = some p → (player p).playerId = key)
    (does : r.operation player call = some op) (key : UInt64) (p : PlayerRef) (member : op.room.players[key]? = some p) :
    (player p).playerId = key := by
  cases call with
  | enter q =>
    simp only [Room.operation] at does
    split at does
    · cases does
    · cases does
      rcases insert_exact.mp member with ⟨same,rfl⟩ | ⟨_,member⟩
      · exact same
      · exact keyed key p member
  | leave q =>
    cases does
    exact keyed key p (erase_exact.mp member).2
  | broadcast sendBuffer =>
    cases does
    exact keyed key p member

theorem operation_reaches (keyed : ∀ (key : UInt64) (p : PlayerRef), r.players[key]? = some p → (player p).playerId = key)
    (does : r.operation player call = some op) : Reaches op := by
  have nodup : op.room.members.Nodup := members_nodup (operation_keyed keyed does)
  cases call with
  | enter q =>
    simp only [Room.operation] at does
    split at does
    · cases does
    · cases does
      refine ⟨nodup,fun p => by simp,fun p same => ?_,by simp⟩
      cases same
      exact entries_exact.mpr ⟨_,insert_exact.mpr (.inl ⟨rfl,rfl⟩)⟩
  | leave q =>
    cases does
    have away : q ∉ Room.members {r with players := r.players.erase (player q).playerId} := by
      intro member
      obtain ⟨key,member⟩ := entries_exact.mp member
      obtain ⟨apart,member⟩ := erase_exact.mp member
      exact apart (keyed key q member)
    refine ⟨List.nodup_cons.mpr ⟨away,nodup⟩,fun p => ?_,by simp,fun p same => ?_⟩
    · simp only [List.mem_cons,RoomCall.leave.injEq]
      rw [or_comm,eq_comm]
    · cases same
      exact away
  | broadcast sendBuffer =>
    cases does
    exact ⟨nodup,fun p => by simp,by simp,by simp⟩

variable {session other : SessionRef} {push : Push} {n : Nat}

theorem add_queue (s : RoomThreads) : (s.add session push).sendQueue other =
    if other = session then s.sendQueue other ++ [push] else s.sendQueue other := by
  by_cases same : other = session
  · simp [add,same]
  · simp [add,same]

theorem add_numbers (s : RoomThreads) : (s.add session push).numbers other =
    s.numbers other ++ if other = session then push.operation.toList else [] := by
  unfold numbers
  rw [add_queue]
  split
  · cases number : push.operation <;> simp [number]
  · simp

theorem add_pushes (s : RoomThreads) : (s.add session push).pushes n other =
    s.pushes n other ++ if push.operation = some n ∧ session = other then [push] else [] := by
  unfold pushes
  rw [add_queue]
  by_cases same : other = session
  · subst same
    by_cases mine : push.operation = some n <;> simp [mine]
  · simp [same,Ne.symm same]

theorem start_ordered (name : Bytes) (maxPlayerCount id : UInt64) : Ordered player owner (start name maxPlayerCount id) := by
  constructor
  all_goals simp [start,numbers]

theorem Ordered.unpushed (ordered : Ordered player owner s) : s.pushes s.operations.length session = [] := by
  refine List.filter_eq_nil_iff.mpr fun push member number => ?_
  have known : s.operations.length ∈ s.numbers session := List.mem_filterMap.mpr ⟨push,member,by simpa using number⟩
  exact Nat.lt_irrefl _ (ordered.given session _ known)

theorem acquired_ordered (ordered : Ordered player owner s) (free : s.lock = none)
    (does : s.room.operation player call = some op) (thread : Nat) : Ordered player owner {s with
      room := op.room
      lock := some ⟨thread,s.operations.length,op.sendBuffer,op.recipients⟩
      operations := s.operations ++ [op]} where
  keyed := operation_keyed ordered.keyed does
  reaches other member := by
    rcases List.mem_append.mp member with old | new
    · exact ordered.reaches other old
    · cases List.mem_singleton.mp new
      exact operation_reaches ordered.keyed does
  delivered n other known := by
    rcases Nat.lt_trichotomy n s.operations.length with old | new | beyond
    · rw [List.getElem?_append_left old] at known
      obtain ⟨done,whole,pushes⟩ := ordered.delivered n other known
      refine ⟨done,?_,pushes⟩
      simpa [waiting,free,Nat.ne_of_gt old] using whole
    · subst new
      cases List.getElem?_concat_length.symm.trans known
      exact ⟨[],by simp [waiting],fun session => ordered.unpushed⟩
    · rw [List.getElem?_eq_none (by simp; omega)] at known
      cases known
  held lock same := by
    cases same
    exact ⟨by simp,op,by simp,rfl⟩
  given session n member := by
    have old := ordered.given session n member
    simp only [List.length_append,List.length_singleton]
    omega
  sorted := ordered.sorted

theorem pushed_ordered {thread number : Nat} {sendBuffer : ServerPacket} {left : List PlayerRef} (ordered : Ordered player owner s)
    (held : s.lock = some ⟨thread,number,sendBuffer,p :: left⟩) : Ordered player owner
      ({s with lock := some ⟨thread,number,sendBuffer,left⟩}.add (owner p) ⟨sendBuffer,some number⟩) := by
  obtain ⟨last,op,current,same⟩ := ordered.held _ held
  have last : number + 1 = s.operations.length := last
  refine ⟨ordered.keyed,ordered.reaches,fun n other known => ?_,fun lock here => ?_,fun session n member => ?_,fun session => ?_⟩
  · obtain ⟨done,whole,pushes⟩ := ordered.delivered n other known
    by_cases mine : number = n
    · -- the operation that has the lock has reached one player more
      subst mine
      cases current.symm.trans known
      refine ⟨done ++ [p],?_,fun session => ?_⟩
      · simpa [waiting,held,add] using whole
      · rw [add_pushes]
        have before : RoomThreads.pushes {s with lock := some ⟨thread,number,sendBuffer,left⟩} number session =
            s.pushes number session := rfl
        rw [before,pushes session,List.filter_append,List.map_append]
        by_cases here : owner p = session <;> simp [here,same]
    · refine ⟨done,?_,fun session => ?_⟩
      · simpa [waiting,held,add,mine] using whole
      · rw [add_pushes,if_neg (by simp [mine]),List.append_nil]
        exact pushes session
  · cases here
    exact ⟨last,op,current,same⟩
  · rw [add_numbers] at member
    rcases List.mem_append.mp member with old | new
    · exact ordered.given session n old
    · split at new
      · cases List.mem_singleton.mp new
        exact Nat.lt_of_succ_le (Nat.le_of_eq last)
      · cases new
  · rw [add_numbers]
    refine List.pairwise_append.mpr ⟨ordered.sorted session,?_,fun n old m new => ?_⟩
    · split <;> simp
    · split at new
      · cases List.mem_singleton.mp new
        have given := ordered.given session n old
        omega
      · cases new

theorem step_ordered (s : RoomThreads) (event : RoomEvent) (next : RoomThreads) (ordered : Ordered player owner s)
    (taken : step player owner s event = some next) : Ordered player owner next := by
  cases step_does taken with
  | refused => exact ordered
  | acquired free does fits => exact acquired_ordered ordered free does _
  | pushed held => exact pushed_ordered ordered held
  | released held =>
    refine ⟨ordered.keyed,ordered.reaches,fun n op known => ?_,by simp,ordered.given,ordered.sorted⟩
    obtain ⟨done,whole,pushes⟩ := ordered.delivered n op known
    refine ⟨done,?_,pushes⟩
    simpa [waiting,held] using whole
  | @sent session sendBuffer =>
    refine ⟨ordered.keyed,ordered.reaches,fun n op known => ?_,ordered.held,fun other n member => ?_,fun other => ?_⟩
    · obtain ⟨done,whole,pushes⟩ := ordered.delivered n op known
      refine ⟨done,whole,fun other => ?_⟩
      rw [add_pushes,if_neg (by simp),List.append_nil]
      exact pushes other
    · exact ordered.given other n (by simpa [add_numbers] using member)
    · simpa [add_numbers] using ordered.sorted other

theorem sorted_pair {numbers : List Nat} {i j : Nat} (sorted : numbers.Pairwise (· ≤ ·)) (first : i ∈ numbers)
    (second : j ∈ numbers) (before : i < j) : [i,j].Sublist numbers := by
  have apart : [i,j].Nodup := by simp [Nat.ne_of_lt before]
  have both : [i,j] ⊆ numbers := by simp [first,second]
  exact List.sublist_of_subperm_of_pairwise (List.subperm_of_subset apart both) (by simp [Nat.le_of_lt before]) sorted

theorem sorted_before {numbers : List Nat} {i j : Nat} (sorted : numbers.Pairwise (· ≤ ·)) (pair : [i,j].Sublist numbers) : i ≤ j := by
  simpa using sorted.sublist pair

variable {name : Bytes} {maxPlayerCount id : UInt64} {events : List RoomEvent}

-- Each operation that has left the room has pushed its message once for each of those it is
-- for, and all sessions get the messages of two operations in the same order.
theorem total_order (path : Runs (Enabled (step player owner)) (start name maxPlayerCount id) events s) :
    (∀ n op, s.operations[n]? = some op → Reaches op ∧ (s.waiting n = [] → ∀ session,
      s.pushes n session = (op.recipients.filter fun p => owner p = session).map fun _ => ⟨op.sendBuffer,some n⟩)) ∧
    ∀ one two i j, i ≠ j → [i,j].Sublist (s.numbers one) → i ∈ s.numbers two → j ∈ s.numbers two →
      [i,j].Sublist (s.numbers two) ∧ ¬ [j,i].Sublist (s.numbers two) := by
  have ordered := path.invariant step_ordered (start_ordered name maxPlayerCount id)
  refine ⟨fun n op known => ⟨ordered.reaches op (List.mem_of_getElem? known),fun finished session => ?_⟩,
    fun one two i j apart pair first second => ?_⟩
  · obtain ⟨done,whole,pushes⟩ := ordered.delivered n op known
    rw [finished,List.append_nil] at whole
    rw [whole]
    exact pushes session
  · have before : i < j := Nat.lt_of_le_of_ne (sorted_before (ordered.sorted one) pair) apart
    refine ⟨sorted_pair (ordered.sorted two) first second before,fun back => ?_⟩
    exact Nat.not_le_of_lt before (sorted_before (ordered.sorted two) back)

-- "ann" and "bob" enter, and each of them gets a chat message after the message that "bob" has
-- come.
def exchange : List RoomEvent :=
  [.acquire 0 (.enter 0),.push 0,.release 0,.acquire 1 (.enter 1),.push 1,.send 0 .nicknamePrompt,.push 1,.release 1,
    .acquire 0 (.broadcast .nicknamePrompt),.push 0,.send 1 .nicknamePrompt,.push 0,.release 0]

def people : PlayerRef → Player
  | 0 => {playerId := 1,name := ascii "ann",ownerSession := some 0}
  | p => {playerId := 2,name := ascii "bob",ownerSession := some p}

theorem total_order_exchange : ∃ s, Runs (Enabled (step people fun p => p)) (start (ascii "hall") 16 1) exchange s ∧
    s.numbers 0 = [0,1,2] ∧ s.numbers 1 = [1,2] ∧ [1,2].Sublist (s.numbers 1) ∧ ¬ [2,1].Sublist (s.numbers 1) := by
  have path : Runs (Enabled (step people fun p => p)) (start (ascii "hall") 16 1) exchange _ := execute_runs rfl
  exact ⟨_,path,rfl,rfl,(total_order path).2 0 1 1 2 (by decide) (by decide) (by decide) (by decide)⟩

-- With no other thread in between, the lock section of a call does to the room and to the
-- queues what the call does as a whole.
def Shows (s : RoomThreads) (server : Server) (room : RoomRef) : Prop := s.room = server.world.rooms room ∧
  ∀ session, (s.sendQueue session).map Push.sendBuffer = (server.sent.filter fun sent => sent.1 = session).map (·.2)

theorem section_runs {thread number : Nat} {sendBuffer : ServerPacket} {left : List PlayerRef}
    (held : s.lock = some ⟨thread,number,sendBuffer,left⟩) : ∃ events next, Runs (Enabled (step player owner)) s events next ∧
      next.room = s.room ∧ next.lock = none ∧ ∀ session, next.sendQueue session =
        s.sendQueue session ++ (left.filter fun p => owner p = session).map fun _ => ⟨sendBuffer,some number⟩ := by
  induction left generalizing s with
  | nil =>
    have taken : step player owner s (.release thread) = some {s with lock := none} := by simp [step,held]
    exact ⟨_,_,.single taken,rfl,rfl,by simp⟩
  | cons p left ih =>
    have taken : step player owner s (.push thread) =
        some ({s with lock := some ⟨thread,number,sendBuffer,left⟩}.add (owner p) ⟨sendBuffer,some number⟩) := by
      simp [step,held]
    obtain ⟨events,next,path,room,free,queue⟩ := @ih ({s with lock := some ⟨thread,number,sendBuffer,left⟩}.add (owner p) ⟨sendBuffer,some number⟩) rfl
    refine ⟨_,next,.cons taken path,room,free,fun session => ?_⟩
    rw [queue session,add_queue]
    by_cases here : session = owner p
    · simp [here]
    · simp [here,Ne.symm here]

end RoomThreads

namespace Server
variable {s next : Server} {worker : Nat} {room : RoomRef} {call : RoomCall} {owner : PlayerRef → SessionRef} {pkt : ServerPacket}
  {players : List PlayerRef}

theorem seated_roomEvent {w : World} {type : RoomEventType} {p : PlayerRef} {seats : TreeMap UInt64 PlayerRef} :
    (w.seated room seats).roomEvent type room p = Room.roomEvent w.players {w.rooms room with players := seats} type p := by
  rw [World.roomEvent,World.seated_room]
  rfl

def roomCall (s : Server) (worker : Nat) (room : RoomRef) : RoomCall → Except Fault Server
  | .enter p => s.enter worker room (some p) >>= fun entered => .ok entered.2
  | .leave p => s.leave worker room (some p) >>= .ok
  | .broadcast sendBuffer => .ok (s.broadcast room sendBuffer)

theorem toOwner_live {p : PlayerRef} (alive : ∀ p, s.lock p = some (owner p)) (connected : ∀ p, s.session (owner p) = .connected) :
    s.toOwner p pkt = [(owner p,pkt)] := by
  simp [toOwner,alive,delivery,connected]

theorem toOwners_live (alive : ∀ p, s.lock p = some (owner p)) (connected : ∀ p, s.session (owner p) = .connected) :
    s.toOwners players pkt = players.map fun p => (owner p,pkt) := by
  unfold toOwners
  induction players with
  | nil => rfl
  | cons p rest ih => rw [List.flatMap_cons,toOwner_live alive connected,ih,List.map_cons,List.singleton_append]

def Performs (s : Server) (owner : PlayerRef → SessionRef) (room : RoomRef) (call : RoomCall) (result : Except Fault Server) : Prop :=
  ∀ next, result = .ok next → (s.world.rooms room).operation s.world.players call = none ∧ next = s ∨
    ∃ op, (s.world.rooms room).operation s.world.players call = some op ∧ op.sendBuffer.Fits ∧
      next.world.rooms room = op.room ∧ next.sent = s.sent ++ op.recipients.map fun p => (owner p,op.sendBuffer)

theorem roomCall_performs (alive : ∀ p, s.lock p = some (owner p)) (connected : ∀ p, s.session (owner p) = .connected)
    (made : ∀ sendBuffer, call = .broadcast sendBuffer → sendBuffer.Fits) :
    Performs s owner room call (s.roomCall worker room call) := by
  cases call with
  | enter p =>
    have nothing (fault : Fault) : Performs s owner room (.enter p) (.error fault) := fun _ done => by cases done
    refine enter_elim (fun full next done => ?_) (fun _ => nothing _) (fun _ _ _ _ => nothing _) (fun _ _ _ _ _ => nothing _)
      fun q same notFull fits _ threads next done => ?_
    · cases done
      exact .inl ⟨by simp [Room.operation,full],rfl⟩
    · cases done
      cases same
      have event : s.world.joinedEvent room p = _ := seated_roomEvent
      refine .inr ⟨_,if_neg (by simp [notFull]),event ▸ fits,World.seated_room _ _,?_⟩
      rw [toOwners_live alive connected,event,World.entered,World.seated_room]
  | leave p =>
    have nothing (fault : Fault) : Performs s owner room (.leave p) (.error fault) := fun _ done => by cases done
    refine leave_elim (fun _ => nothing _) (fun _ _ _ => nothing _) (fun _ _ _ _ => nothing _) fun q same fits _ threads next done => ?_
    cases done
    cases same
    have event : s.world.leftEvent room p = _ := seated_roomEvent
    refine .inr ⟨_,rfl,event ▸ fits,World.seated_room _ _,?_⟩
    rw [toOwners_live alive connected,toOwner_live alive connected,event,World.left,World.seated_room,List.append_assoc]
    rfl
  | broadcast sendBuffer =>
    rintro next ⟨⟩
    refine .inr ⟨_,rfl,made sendBuffer rfl,?_,?_⟩
    · rw [broadcast_sent]
    · rw [broadcast_sent,toOwners_live alive connected]

theorem roomCall_shown {threads : RoomThreads} (alive : ∀ p, s.lock p = some (owner p))
    (connected : ∀ p, s.session (owner p) = .connected) (made : ∀ sendBuffer, call = .broadcast sendBuffer → sendBuffer.Fits)
    (free : threads.lock = none) (shown : threads.Shows s room) (done : s.roomCall worker room call = .ok next) :
    ∃ events after, Runs (Enabled (RoomThreads.step s.world.players owner)) threads events after ∧
      after.lock = none ∧ after.Shows next room := by
  obtain ⟨same,queues⟩ := shown
  rcases roomCall_performs alive connected made next done with ⟨_,rfl⟩ | ⟨op,does,fits,changed,sent⟩
  · exact ⟨[],threads,.nil,free,same,queues⟩
  · rw [← same] at does
    have taken : RoomThreads.step s.world.players owner threads (.acquire 0 call) = some {threads with
        room := op.room
        lock := some ⟨0,threads.operations.length,op.sendBuffer,op.recipients⟩
        operations := threads.operations ++ [op]} := by
      simp [RoomThreads.step,free,does,fits]
    obtain ⟨events,after,path,left,released,queue⟩ := @RoomThreads.section_runs s.world.players owner {threads with
        room := op.room
        lock := some ⟨0,threads.operations.length,op.sendBuffer,op.recipients⟩
        operations := threads.operations ++ [op]} _ _ _ _ rfl
    refine ⟨_,after,.cons taken path,released,left.trans changed.symm,fun session => ?_⟩
    rw [queue session,sent,List.map_append,queues session,List.filter_append,List.map_append]
    simp [List.filter_map,Function.comp_def]

end Server
end
end IocpChatServer.GameServer
