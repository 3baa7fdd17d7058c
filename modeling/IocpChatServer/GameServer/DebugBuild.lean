import IocpChatServer.GameServer.LockHierarchy
import IocpChatServer.ServerCore.DebugLocks

namespace IocpChatServer.GameServer.LockUse
open Foundations Locking Program TransitionSystem DepthFirst ServerCore DeadLockProfiler DebugLocks
variable {SessionId RoomId Thread : Type} [DecidableEq Thread]

-- What `typeid(this).name()` names.
inductive ClassName where
  | gameSessionManager | room | service | session | sendBufferManager
  deriving DecidableEq, Repr

def className : LockName SessionId RoomId → ClassName
  | .gameSessionManager => .gameSessionManager
  | .room _ => .room
  | .service => .service
  | .session _ => .session
  | .sendBufferManager => .sendBufferManager

def classRank : ClassName → Nat
  | .gameSessionManager | .room | .service => 0
  | .session => 1
  | .sendBufferManager => 2

theorem class_ranks : (fun object : LockName SessionId RoomId => classRank (className object)) = rank := by
  funext object
  cases object <;> rfl

theorem operations_inOrder : InOrder classRank className (Operations : Code SessionId RoomId → Prop) := by
  intro p operation
  rw [class_ranks]
  exact operations_ordered p operation

theorem middle_class {low middle high : ClassName} (first : classRank low < classRank middle)
    (second : classRank middle < classRank high) :
    low ∈ [ClassName.gameSessionManager,.room,.service] ∧ middle = .session ∧ high = .sendBufferManager := by
  cases middle <;> cases high <;> cases low <;> simp [classRank] at first second ⊢

omit [DecidableEq Thread] in
theorem three_classes {p : Profiler ClassName Thread} {outer session chunks : Nat} (ranked : Ranked classRank p)
    (below : p.Below classRank outer session) (above : p.Below classRank session chunks) :
    (∃ low ∈ [ClassName.gameSessionManager,.room,.service], p.nameToId low = some outer) ∧
      p.nameToId .session = some session ∧ p.nameToId .sendBufferManager = some chunks := by
  obtain ⟨low,middle,bottom,first,less⟩ := below
  obtain ⟨middleToo,high,firstToo,second,lessToo⟩ := above
  cases ranked.distinct _ _ _ first firstToo
  obtain ⟨outer,rfl,rfl⟩ := middle_class less lessToo
  exact ⟨⟨low,outer,bottom⟩,first,second⟩

-- A thread does not ask for the lock of the chunks when the last it has got is a session's.
def Calm (s : Process (LockName SessionId RoomId) ClassName Thread) (t : Thread) : Prop :=
  ∀ g, request (s.threads t).todo = some g → g.object = .sendBufferManager →
    ∀ taken ∈ (s.threads t).held.head?, className taken.object ≠ .session

def Untroubled (s : Process (LockName SessionId RoomId) ClassName Thread) : Prop :=
  ∀ a b, Edge (successors s.profiler.lockHistory) a b → s.profiler.nameToId .session ≠ some a

variable {s next : Process (LockName SessionId RoomId) ClassName Thread} {t : Thread} {events : List Thread}
  {g : Guard (LockName SessionId RoomId)} {a b : Nat} {crash : Crash}

omit [DecidableEq Thread] in
theorem calm_edges {p : Profiler ClassName Thread} (valid : Inv classRank className s) (calm : Calm s t) (untroubled : Untroubled s)
    (asks : request (s.threads t).todo = some g) (unasked : s.asked t = false) (ranked : Ranked classRank p)
    (names : p.nameToId = (s.profiler.lockId (className g.object)).2.nameToId) (below : p.Below classRank a b)
    (edge : Edge (successors (s.profiler.searched t (className g.object))) a b) : p.nameToId .session ≠ some a := by
  intro session
  obtain ⟨_,named,keeps⟩ := lockId_ranked valid.ranked (className g.object)
  rw [← names] at named
  have keeps : s.profiler.Keeps p := fun name lockId known => by
    rw [names]
    exact keeps name lockId known
  rcases searched_edges.mp edge with old | ⟨top,rfl⟩
  · obtain ⟨low,_,known,_⟩ := valid.ranked.climbs a b old
    cases ranked.distinct _ _ _ (keeps _ _ known) session
    exact untroubled a b old known
  · obtain ⟨low,high,first,second,less⟩ := below
    cases ranked.distinct _ _ _ first session
    cases ranked.distinct _ _ _ second named
    have chunks : className g.object = .sendBufferManager := by
      cases found : className g.object <;> simp [classRank,found] at less ⊢
    have object : g.object = .sendBufferManager := by
      cases found : g.object <;> simp [className,found] at chunks ⊢
    have stacked := valid.stacked t
    rw [Process.Stacked,unasked_named unasked] at stacked
    cases stack : s.profiler.lockStack t with
    | nil =>
      rw [stack] at top
      cases top
    | cons lockId rest =>
      rw [stack] at top stacked
      cases top
      cases holds : (s.threads t).held with
      | nil =>
        rw [holds] at stacked
        cases stacked
      | cons taken held =>
        rw [holds] at stacked
        have known := keeps _ _ (List.forall₂_cons.mp stacked).1
        exact calm g asks object taken (by rw [holds]; rfl) (ranked.distinct _ _ _ known session)

theorem calm_step (valid : Inv classRank className s) (untroubled : Untroubled s)
    (taken : Guarded (Step className Operations) Calm s t next) : Untroubled next := by
  obtain ⟨taken,calm⟩ := taken
  cases taken with
  | push asks unasked pushed =>
    obtain ⟨ranked,names,_,edges⟩ := pushLock_ranked valid.ranked (valid.onto asks unasked) pushed
    intro a b edge
    exact calm_edges valid calm untroubled asks unasked ranked names (ranked.climbs a b edge) (edges a b edge)
  | pop closing holds popped =>
    obtain ⟨_,_,pops,_⟩ := valid.pops closing holds
    cases pops.symm.trans popped
    exact untroubled
  | take | move => exact untroubled

theorem runs_untroubled (path : Runs (Guarded (DebugLocks.Step className Operations) Calm) .start events s) : Untroubled s := by
  have both : Inv classRank className s ∧ Untroubled s := by
    induction path with
    | nil => exact ⟨start_inv,fun _ _ absent => by cases absent⟩
    | step _ taken ih => exact ⟨step_inv operations_inOrder ih.1 taken.1,calm_step ih.1 ih.2 taken⟩
  exact both.2

-- The profiler of a debug build finds every guard closed in its turn. If it stops the process,
-- then at a lock order without a cycle, by reading off its arrays, and after a session's lock
-- under a room's, the manager's or the service's and the lock of the chunks under a session's.
-- Without the latter it never does.
theorem profiler_misled (path : Runs (DebugLocks.Step className Operations) .start events s) (t : Thread) :
    (∀ rest, (s.threads t).todo = .unlock :: rest → ∃ g held profiler, (s.threads t).held = g :: held ∧
      s.profiler.popLock t (className g.object) = .ok profiler) ∧
    ∀ g, request (s.threads t).todo = some g → s.asked t = false →
      (∀ crash, s.profiler.pushLock t (className g.object) = .error crash →
        (∃ printed, crash = .found (.outOfRange printed)) ∧ Acyclic (successors (s.profiler.searched t (className g.object))) ∧
        ∃ outer session chunks, (∃ low ∈ [ClassName.gameSessionManager,.room,.service],
            (s.profiler.lockId (className g.object)).2.nameToId low = some outer) ∧
          (s.profiler.lockId (className g.object)).2.nameToId .session = some session ∧
          (s.profiler.lockId (className g.object)).2.nameToId .sendBufferManager = some chunks ∧
          Edge (successors (s.profiler.searched t (className g.object))) outer session ∧
          Edge (successors (s.profiler.searched t (className g.object))) session chunks) ∧
      (Runs (Guarded (DebugLocks.Step className Operations) Calm) .start events s → Calm s t →
        ∃ profiler, s.profiler.pushLock t (className g.object) = .ok profiler) := by
  have valid : Inv classRank className s := runs_inv operations_inOrder path
  refine ⟨fun rest closing => ?_,fun g asks unasked => ⟨fun crash crashed => ?_,fun guarded calm => ?_⟩⟩
  · have follows := (valid.locks.disciplined t).follows
    rw [closing] at follows
    cases holds : (s.threads t).held with
    | nil =>
      rw [holds] at follows
      exact follows.elim
    | cons g held =>
      obtain ⟨_,_,pops,_⟩ := valid.pops closing holds
      exact ⟨g,held,_,rfl,pops⟩
  · obtain ⟨printed,acyclic,outer,session,chunks,first,second,below,above⟩ :=
      pushLock_misled valid.ranked (valid.onto asks unasked) crashed
    obtain ⟨ranked,_⟩ := lockId_ranked valid.ranked (className g.object)
    obtain ⟨low,middle,high⟩ := three_classes ranked below above
    exact ⟨printed,acyclic,outer,session,chunks,low,middle,high,first,second⟩
  · have untroubled : Untroubled s := runs_untroubled guarded
    cases pushed : s.profiler.pushLock t (className g.object) with
    | ok profiler => exact ⟨profiler,rfl⟩
    | error crash =>
      obtain ⟨_,_,outer,session,chunks,first,second,below,above⟩ := pushLock_misled valid.ranked (valid.onto asks unasked) pushed
      obtain ⟨ranked,_⟩ := lockId_ranked valid.ranked (className g.object)
      exact absurd (three_classes ranked below above).2.1 (calm_edges valid calm untroubled asks unasked ranked rfl above second)

def process (first second : Local (LockName Nat Nat)) (asked : Bool → Bool) (profiler : Profiler ClassName Bool) :
    Process (LockName Nat Nat) ClassName Bool := ⟨pair first second,asked,profiler⟩

section Pair
variable {first second after : Local (LockName Nat Nat)} {asked : Bool → Bool} {profiler pushed : Profiler ClassName Bool} {one : Bool}

theorem first_moves (move : Move Operations (fun g => ∀ u, ¬ Blocks (pair first second) false g u) first after)
    (none : request first.todo = none) (stays : closes first.todo = false) :
    DebugLocks.Step className Operations (process first second asked profiler) false (process after second asked profiler) :=
  .move none stays (first_step move)

theorem second_moves (move : Move Operations (fun g => ∀ u, ¬ Blocks (pair first second) true g u) second after)
    (none : request second.todo = none) (stays : closes second.todo = false) :
    DebugLocks.Step className Operations (process first second asked profiler) true (process first after asked profiler) :=
  .move none stays (second_step move)

theorem pushes {g : Guard (LockName Nat Nat)} (asks : request (pair first second one).todo = some g) (unasked : asked one = false)
    (pushes : profiler.pushLock one (className g.object) = .ok pushed) : DebugLocks.Step className Operations
      (process first second asked profiler) one (process first second (Function.update asked one true) pushed) :=
  .push asks unasked pushes

theorem first_takes (move : Move Operations (fun g => ∀ u, ¬ Blocks (pair first second) false g u) first after)
    (waits : asked false = true) : DebugLocks.Step className Operations (process first second asked profiler) false
      (process after second (Function.update asked false false) profiler) :=
  .take waits (first_step move)

theorem second_takes (move : Move Operations (fun g => ∀ u, ¬ Blocks (pair first second) true g u) second after)
    (waits : asked true = true) : DebugLocks.Step className Operations (process first second asked profiler) true
      (process first after (Function.update asked true false) profiler) :=
  .take waits (second_step move)

theorem second_pops {g : Guard (LockName Nat Nat)} {rest : List (Item (LockName Nat Nat))} {held : List (Guard (LockName Nat Nat))}
    (pops : profiler.popLock true (className g.object) = .ok pushed) : DebugLocks.Step className Operations
      (process first ⟨.unlock :: rest,g :: held⟩ asked profiler) true (process first ⟨rest,held⟩ asked pushed) :=
  .pop rfl rfl pops (second_step .unlock)

end Pair

-- A session's send has come back and its next one fails, while another thread sends to a room.
-- The send buffers go under the session's guard.
theorem profiler_misled_send : ∃ (s : Process (LockName Nat Nat) ClassName Bool) (events : List Bool),
    Runs (DebugLocks.Step className Operations) .start events s ∧ (s.threads true).held = [⟨.session 7,.write⟩] ∧
    s.profiler.pushLock true .sendBufferManager = .error (.found (.outOfRange [(1,0)])) ∧
    Acyclic (successors (s.profiler.searched true .sendBufferManager)) := by
  have path : Runs (DebugLocks.Step className Operations) (process ⟨[],[]⟩ ⟨[],[]⟩ (fun _ => false) .start) _ _ :=
    .cons (second_moves (.start ⟨.dispatch 7,rfl⟩) rfl rfl) <|
    .cons (second_moves .seq rfl rfl) <|
    .cons (second_moves (.any (some .send)) rfl rfl) <|
    .cons (second_moves .seq rfl rfl) <|
    .cons (second_moves .done rfl rfl) <|
    .cons (second_moves .seq rfl rfl) <|
    .cons (second_moves .done rfl rfl) <|
    .cons (second_moves .seq rfl rfl) <|
    .cons (second_moves (.any false) rfl rfl) <|
    .cons (second_moves .seq rfl rfl) <|
    .cons (second_moves .skip rfl rfl) <|
    .cons (@pushes _ _ _ _ _ true _ rfl rfl rfl) <|
    .cons (second_takes (.lock (by intro u; cases u <;> simp [Blocks,pair])) rfl) <|
    .cons (first_moves (.start ⟨.roomBroadcast 0,rfl⟩) rfl rfl) <|
    .cons (first_moves .seq rfl rfl) <|
    .cons (@pushes _ _ _ _ _ false _ rfl rfl rfl) <|
    .cons (first_takes (.lock (by intro u; cases u <;> simp [Blocks,pair])) rfl) <|
    .cons (first_moves (.again 8) rfl rfl) <|
    .cons (first_moves .seq rfl rfl) <|
    .cons (first_moves .seq rfl rfl) <|
    .cons (first_moves (.any true) rfl rfl) <|
    .cons (first_moves .seq rfl rfl) <|
    .cons (@pushes _ _ _ _ _ false _ rfl rfl rfl) <|
    .cons (first_takes (.lock (by intro u; cases u <;> simp [Blocks,pair])) rfl) <|
    .cons (second_moves (.any true) rfl rfl) <|
    .cons (second_moves (.any true) rfl rfl) <|
    .cons (second_moves .seq rfl rfl) <|
    .cons (second_moves .done rfl rfl) <|
    .cons (second_moves .seq rfl rfl) <|
    .cons (@pushes _ _ _ _ _ true _ rfl rfl rfl) <|
    .cons (second_takes (.lock (by intro u; cases u <;> simp [Blocks,pair])) rfl) <|
    .cons (second_moves .done rfl rfl) <|
    .cons (second_pops rfl) <|
    .cons (second_moves .seq rfl rfl) <|
    .cons (second_moves .done rfl rfl) <|
    .cons (second_moves .seq rfl rfl) <|
    .cons (second_moves (.any true) rfl rfl) <|
    .cons (second_moves .seq rfl rfl) <|
    .cons (second_moves (.any false) rfl rfl) <|
    .cons (second_moves .skip rfl rfl) <|
    .cons (second_moves .seq rfl rfl) <|
    .cons (second_moves .done rfl rfl) <|
    .cons (second_moves .seq rfl rfl) <|
    .cons (second_moves (.again ()) rfl rfl) <|
    .cons (second_moves (.any true) rfl rfl) <|
    .single (second_moves .seq rfl rfl)
  have begins : process ⟨[],[]⟩ ⟨[],[]⟩ (fun _ => false) .start = .start := by
    unfold process
    rw [← start_pair]
    rfl
  rw [begins] at path
  have crashed := ((profiler_misled path true).2 ⟨.sendBufferManager,.write⟩ rfl rfl).1 (.found (.outOfRange [(1,0)])) rfl
  exact ⟨_,_,path,rfl,rfl,crashed.2.1⟩

end IocpChatServer.GameServer.LockUse
