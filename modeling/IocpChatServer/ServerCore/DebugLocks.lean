import IocpChatServer.Foundations.Locking
import IocpChatServer.ServerCore.LockOrder

namespace IocpChatServer.ServerCore.DeadLockProfiler
open Foundations DepthFirst
variable {Name Thread R : Type _} [DecidableEq Name] [DecidableEq Thread] [Preorder R]

def Profiler.searched (p : Profiler Name Thread) (thread : Thread) (name : Name) : LockHistory :=
  let (lockId,q) := p.lockId name
  match q.lockStack thread with
  | [] => q.lockHistory
  | prevId :: _ => (q.record prevId lockId).lockHistory

def Profiler.Below (rank : Name → R) (p : Profiler Name Thread) (a b : Nat) : Prop :=
  ∃ low high, p.nameToId low = some a ∧ p.nameToId high = some b ∧ rank low < rank high

-- All locks have been taken in the order of their names' ranks.
structure Ranked (rank : Name → R) (p : Profiler Name Thread) : Prop where
  named : ∀ name lockId, p.nameToId name = some lockId → lockId < p.nameCount
  distinct : ∀ one two lockId, p.nameToId one = some lockId → p.nameToId two = some lockId → one = two
  climbs : ∀ a b, Edge (successors p.lockHistory) a b → p.Below rank a b
  filled : ∀ lockId, p.lockHistory lockId ≠ some []

def Profiler.Keeps (p next : Profiler Name Thread) : Prop :=
  ∀ name lockId, p.nameToId name = some lockId → next.nameToId name = some lockId

variable {rank : Name → R} {p q next : Profiler Name Thread} {thread : Thread} {name : Name} {lockId prevId a b : Nat}
  {rest : List Nat} {stop : Stop} {crash : Crash}

omit [DecidableEq Name] [DecidableEq Thread] in
theorem Ranked.known (ranked : Ranked rank p) : Known p.lockHistory p.nameCount := by
  intro lockId nextSet entry next member
  have edge : Edge (successors p.lockHistory) lockId next := by simpa [Edge,successors,entry] using member
  obtain ⟨low,high,_,named,_⟩ := ranked.climbs _ _ edge
  exact ranked.named high next named

omit [DecidableEq Name] [DecidableEq Thread] in
theorem Ranked.acyclic (ranked : Ranked rank p) : Acyclic (successors p.lockHistory) := by
  have ordered : IsTrans Nat (p.Below rank) := by
    constructor
    rintro a b c ⟨low,middle,first,second,less⟩ ⟨middleToo,high,secondToo,third,lessToo⟩
    cases ranked.distinct _ _ _ second secondToo
    exact ⟨low,high,first,third,less.trans lessToo⟩
  refine acyclic_within ?_ ranked.climbs
  rintro a ⟨low,high,first,second,less⟩
  cases ranked.distinct _ _ _ first second
  exact lt_irrefl _ less

-- A search of such a history that stops is wrong, and has walked off the arrays. It takes three
-- locks in a row to mislead it.
omit [DecidableEq Name] [DecidableEq Thread] in
theorem Ranked.misled (ranked : Ranked rank p) (stopped : checkCycle p.lockHistory p.nameCount = .error stop) :
    (∃ printed, stop = .outOfRange printed) ∧
      ∃ a b c, Edge (successors p.lockHistory) a b ∧ Edge (successors p.lockHistory) b c := by
  obtain ⟨met,after,search⟩ := search_exists ranked.known
  have follows := checkCycle_follows ranked.known search
  cases found : met.find? (alarming p.lockHistory) with
  | none =>
    rw [found] at follows
    rw [show checkCycle p.lockHistory p.nameCount = .ok () from follows] at stopped
    cases stopped
  | some m =>
    rw [found] at follows
    obtain ⟨_,same,reports⟩ := follows
    cases same.symm.trans stopped
    have placed := (meeting_placed search (List.mem_of_find?_eq_some found)).1
    have alarm : alarming p.lockHistory m = true := List.find?_some found
    refine ⟨reports.2 fun back => ranked.acyclic _ (placed.cycle (List.mem_of_mem_tail back)),?_⟩
    cases path : m.path with
    | nil => simp [alarming,path] at alarm
    | cons tail ancestors =>
      have edge : Edge (successors p.lockHistory) tail m.head :=
        (List.cons_subset.mp (placed.edges tail (by rw [path]; rfl))).1
      cases entry : p.lockHistory m.head with
      | none => simp [alarming,path,entry] at alarm
      | some nextSet =>
        cases nextSet with
        | nil => exact absurd entry (ranked.filled m.head)
        | cons next more => exact ⟨tail,m.head,next,edge,by simp [Edge,successors,entry]⟩

theorem entered {table : Name → Option Nat} {count : Nat} {other : Name}
    (known : Function.update table name (some count) other = some lockId) :
    other = name ∧ lockId = count ∨ other ≠ name ∧ table other = some lockId := by
  by_cases same : other = name
  · subst same
    rw [Function.update_self] at known
    exact .inl ⟨rfl,(Option.some.inj known).symm⟩
  · rw [Function.update_of_ne same] at known
    exact .inr ⟨same,known⟩

omit [DecidableEq Thread] in
theorem lockId_keeps (p : Profiler Name Thread) (name : Name) :
    (p.lockId name).2.lockHistory = p.lockHistory ∧ (p.lockId name).2.lockStack = p.lockStack := by
  unfold Profiler.lockId
  split <;> exact ⟨rfl,rfl⟩

omit [DecidableEq Thread] in
theorem lockId_ranked (ranked : Ranked rank p) (name : Name) : Ranked rank (p.lockId name).2 ∧
    (p.lockId name).2.nameToId name = some (p.lockId name).1 ∧ p.Keeps (p.lockId name).2 := by
  unfold Profiler.lockId
  split
  · rename_i known
    exact ⟨ranked,known,fun _ _ same => same⟩
  · rename_i new
    have keeps : p.Keeps {p with
        nameToId := Function.update p.nameToId name (some p.nameCount),nameCount := p.nameCount + 1} := by
      intro other id known
      have apart : other ≠ name := by
        rintro rfl
        rw [new] at known
        cases known
      exact (Function.update_of_ne apart _ _).trans known
    refine ⟨⟨fun other id known => ?_,fun one two id first second => ?_,fun a b edge => ?_,ranked.filled⟩,
      Function.update_self ..,keeps⟩
    · rcases entered known with ⟨_,rfl⟩ | ⟨_,known⟩
      · exact Nat.lt_succ_self _
      · exact Nat.lt_succ_of_lt (ranked.named other id known)
    · rcases entered first with ⟨mine,rfl⟩ | ⟨_,first⟩
      · rcases entered second with ⟨yours,_⟩ | ⟨_,second⟩
        · exact mine.trans yours.symm
        · exact absurd (ranked.named two _ second) (Nat.lt_irrefl _)
      · rcases entered second with ⟨_,rfl⟩ | ⟨_,second⟩
        · exact absurd (ranked.named one _ first) (Nat.lt_irrefl _)
        · exact ranked.distinct one two id first second
    · obtain ⟨low,high,first,second,less⟩ := ranked.climbs a b edge
      exact ⟨low,high,keeps _ _ first,keeps _ _ second,less⟩

omit [DecidableEq Name] [DecidableEq Thread] in
theorem record_ranked (ranked : Ranked rank p) (below : p.Below rank prevId lockId) : Ranked rank (p.record prevId lockId) where
  named := ranked.named
  distinct := ranked.distinct
  climbs a b edge := by
    rcases (record_edges p a b).mp edge with old | ⟨rfl,rfl⟩
    · exact ranked.climbs a b old
    · exact below
  filled id := by
    by_cases same : id = prevId
    · subst same
      simp only [Profiler.record,Function.update_self]
      intro empty
      have member : lockId ∈ ((p.lockHistory id).getD []).orderedInsert (· ≤ ·) lockId := by simp
      rw [Option.some.inj empty] at member
      cases member
    · simpa only [Profiler.record,Function.update_of_ne same] using ranked.filled id

omit [DecidableEq Name] in
theorem restack_ranked (ranked : Ranked rank p) (stack : List Nat) : Ranked rank (p.restack thread stack) :=
  ⟨ranked.named,ranked.distinct,ranked.climbs,ranked.filled⟩

def Profiler.Onto (rank : Name → R) (p : Profiler Name Thread) (thread : Thread) (name : Name) : Prop :=
  ∀ top ∈ (p.lockStack thread).head?, ∃ other, p.nameToId other = some top ∧ (other = name ∨ rank other < rank name)

omit [DecidableEq Thread] in
theorem searched_edges : Edge (successors (p.searched thread name)) a b ↔
    Edge (successors p.lockHistory) a b ∨ (p.lockStack thread).head? = some a ∧ (p.lockId name).1 = b := by
  obtain ⟨history,kept⟩ := lockId_keeps p name
  unfold Profiler.searched
  cases found : p.lockId name with | mk lockId q
  rw [found] at history kept
  dsimp only at history kept ⊢
  rw [kept]
  cases p.lockStack thread with
  | nil => simp [history]
  | cons prevId rest =>
    dsimp only
    rw [record_edges,history,List.head?_cons,Option.some.injEq]
    exact or_congr_right (and_congr eq_comm eq_comm)

theorem pushLock_cases (p : Profiler Name Thread) (thread : Thread) (name : Name) :
    p.pushLock thread name = .ok ((p.lockId name).2.push thread (p.lockId name).1) ∨
    ∃ prevId q, (p.lockStack thread).head? = some prevId ∧ (p.lockId name).1 ≠ prevId ∧
      q = (p.lockId name).2.record prevId (p.lockId name).1 ∧ p.searched thread name = q.lockHistory ∧
      ((∃ stop, checkCycle q.lockHistory q.nameCount = .error stop ∧ p.pushLock thread name = .error (.found stop)) ∨
        p.pushLock thread name = .ok (q.push thread (p.lockId name).1)) := by
  obtain ⟨_,kept⟩ := lockId_keeps p name
  unfold Profiler.pushLock Profiler.searched
  cases found : p.lockId name with | mk lockId q
  simp only [found] at kept ⊢
  rw [kept]
  cases p.lockStack thread with
  | nil => exact .inl rfl
  | cons prevId rest =>
    dsimp only
    by_cases same : lockId = prevId
    · exact .inl (if_pos same)
    · rw [if_neg same]
      by_cases old : lockId ∈ (q.lockHistory prevId).getD []
      · exact .inl (if_pos old)
      · rw [if_neg old]
        refine .inr ⟨prevId,_,rfl,same,rfl,rfl,?_⟩
        cases checkCycle (q.record prevId lockId).lockHistory (q.record prevId lockId).nameCount with
        | error stop => exact .inl ⟨stop,rfl,rfl⟩
        | ok => exact .inr rfl

omit [DecidableEq Thread] in
theorem recorded_ranked (ranked : Ranked rank p) (onto : p.Onto rank thread name) (top : (p.lockStack thread).head? = some prevId)
    (apart : (p.lockId name).1 ≠ prevId) : Ranked rank ((p.lockId name).2.record prevId (p.lockId name).1) := by
  obtain ⟨rankedNow,named,keeps⟩ := lockId_ranked ranked name
  obtain ⟨other,known,same | less⟩ := onto prevId top
  · subst same
    exact absurd (Option.some.inj (named.symm.trans (keeps _ _ known))) apart
  · exact record_ranked rankedNow ⟨other,name,keeps _ _ known,named,less⟩

theorem pushLock_ranked (ranked : Ranked rank p) (onto : p.Onto rank thread name) (pushed : p.pushLock thread name = .ok next) :
    Ranked rank next ∧ next.nameToId = (p.lockId name).2.nameToId ∧
      next.lockStack = Function.update p.lockStack thread ((p.lockId name).1 :: p.lockStack thread) ∧
      ∀ a b, Edge (successors next.lockHistory) a b → Edge (successors (p.searched thread name)) a b := by
  obtain ⟨history,kept⟩ := lockId_keeps p name
  rcases pushLock_cases p thread name with plain | ⟨prevId,q,top,apart,rfl,searched,⟨stop,_,failed⟩ | returned⟩
  · cases plain.symm.trans pushed
    refine ⟨restack_ranked (lockId_ranked ranked name).1 _,rfl,?_,fun a b edge => searched_edges.mpr (.inl ?_)⟩
    · simp only [Profiler.push,Profiler.restack,kept]
    · rwa [← history]
  · cases failed.symm.trans pushed
  · cases returned.symm.trans pushed
    refine ⟨restack_ranked (recorded_ranked ranked onto top apart) _,rfl,?_,fun a b edge => ?_⟩
    · simp only [Profiler.push,Profiler.restack,Profiler.record,kept]
    · rwa [searched]

theorem pushLock_misled (ranked : Ranked rank p) (onto : p.Onto rank thread name) (crashed : p.pushLock thread name = .error crash) :
    (∃ printed, crash = .found (.outOfRange printed)) ∧ Acyclic (successors (p.searched thread name)) ∧
      ∃ a b c, Edge (successors (p.searched thread name)) a b ∧ Edge (successors (p.searched thread name)) b c ∧
        (p.lockId name).2.Below rank a b ∧ (p.lockId name).2.Below rank b c := by
  rcases pushLock_cases p thread name with plain | ⟨prevId,q,top,apart,rfl,searched,⟨stop,stopped,failed⟩ | returned⟩
  · cases plain.symm.trans crashed
  · cases failed.symm.trans crashed
    have recorded := recorded_ranked ranked onto top apart
    obtain ⟨⟨printed,rfl⟩,a,b,c,first,second⟩ := recorded.misled stopped
    rw [searched]
    exact ⟨⟨printed,rfl⟩,recorded.acyclic,a,b,c,first,second,recorded.climbs a b first,recorded.climbs b c second⟩
  · cases returned.symm.trans crashed

theorem popLock_pops (named : p.nameToId name = some lockId) (stack : p.lockStack thread = lockId :: rest) :
    p.popLock thread name = .ok (p.restack thread rest) := by
  simp [Profiler.popLock,Profiler.indexId,stack,named]

end IocpChatServer.ServerCore.DeadLockProfiler

namespace IocpChatServer.ServerCore.DebugLocks
open Foundations TransitionSystem DeadLockProfiler Locking
variable {Object Name Thread R : Type} [DecidableEq Name] [DecidableEq Thread]

-- Threads of a debug build. A thread has asked when PushLock has come back and its lock is yet
-- to be got.
structure Process (Object Name Thread : Type) where
  threads : Thread → Local Object
  asked : Thread → Bool
  profiler : Profiler Name Thread

def request : List (Item Object) → Option (Guard Object)
  | .run (.lock g _) :: _ => some g
  | _ => none

def closes : List (Item Object) → Bool
  | .unlock :: _ => true
  | _ => false

namespace Process

def start : Process Object Name Thread := ⟨Locking.start,fun _ => false,.start⟩

def named (s : Process Object Name Thread) (t : Thread) : List (Guard Object) :=
  (if s.asked t then request (s.threads t).todo else none).toList ++ (s.threads t).held

def Stacked (className : Object → Name) (s : Process Object Name Thread) (t : Thread) : Prop :=
  List.Forall₂ (fun lockId g => s.profiler.nameToId (className g.object) = some lockId) (s.profiler.lockStack t) (s.named t)

end Process

-- PushLock comes before the lock is got, and PopLock before it is given back. As it changes
-- nothing but the thread's own stack it is one step with that.
inductive Step (className : Object → Name) (operations : Program Object → Prop) (s : Process Object Name Thread) (t : Thread) :
    Process Object Name Thread → Prop where
  | push : request (s.threads t).todo = some g → s.asked t = false → s.profiler.pushLock t (className g.object) = .ok profiler →
      Step className operations s t {s with asked := Function.update s.asked t true,profiler := profiler}
  | take : s.asked t = true → Locking.Step operations s.threads t threads →
      Step className operations s t {s with threads := threads,asked := Function.update s.asked t false}
  | pop : (s.threads t).todo = .unlock :: rest → (s.threads t).held = g :: held →
      s.profiler.popLock t (className g.object) = .ok profiler → Locking.Step operations s.threads t threads →
      Step className operations s t {s with threads := threads,profiler := profiler}
  | move : request (s.threads t).todo = none → closes (s.threads t).todo = false → Locking.Step operations s.threads t threads →
      Step className operations s t {s with threads := threads}

variable [Preorder R] {rank : Name → R} {className : Object → Name} {operations : Program Object → Prop}
  {free : Guard Object → Prop} {before after : Local Object} {s next : Process Object Name Thread} {t : Thread}

theorem move_takes {g : Guard Object} (move : Move operations free before after) (asks : request before.todo = some g) :
    after.held = g :: before.held := by
  cases move with
  | lock =>
    cases asks
    rfl
  | start | skip | seq | any | done | again | unlock => cases asks

theorem move_pops {g : Guard Object} {rest : List (Item Object)} {held : List (Guard Object)} (move : Move operations free before after)
    (closing : before.todo = .unlock :: rest) (holds : before.held = g :: held) : after.held = held := by
  cases move with
  | unlock =>
    cases holds
    rfl
  | start | skip | seq | any | done | again | lock => cases closing

theorem move_keeps (move : Move operations free before after) (unasked : request before.todo = none)
    (stays : closes before.todo = false) : after.held = before.held := by
  cases move with
  | lock => cases unasked
  | unlock => cases stays
  | start | skip | seq | any | done | again => rfl

def InOrder (rank : Name → R) (className : Object → Name) (operations : Program Object → Prop) : Prop :=
  ∀ p, operations p → p.Ordered (fun object => rank (className object)) []

structure Inv (rank : Name → R) (className : Object → Name) (s : Process Object Name Thread) : Prop where
  locks : Locking.Inv (fun object => rank (className object)) s.threads
  ranked : Ranked rank s.profiler
  waits : ∀ t, s.asked t = true → request (s.threads t).todo ≠ none
  stacked : ∀ t, s.Stacked className t

omit [DecidableEq Name] [DecidableEq Thread] in
theorem start_ranked : Ranked rank (Profiler.start : Profiler Name Thread) where
  named _ _ absent := by cases absent
  distinct _ _ _ absent := by cases absent
  climbs _ _ absent := by cases absent
  filled _ absent := by cases absent

omit [DecidableEq Name] [DecidableEq Thread] in
theorem start_inv : Inv rank className (Process.start : Process Object Name Thread) where
  locks := Locking.start_inv
  ranked := start_ranked
  waits _ asked := by cases asked
  stacked _ := .nil

omit [DecidableEq Name] [DecidableEq Thread] [Preorder R] in
theorem unasked_named (unasked : s.asked t = false) : s.named t = (s.threads t).held := by
  simp [Process.named,unasked]

omit [DecidableEq Name] [DecidableEq Thread] in
theorem Inv.unasked (valid : Inv rank className s) (none : request (s.threads t).todo = none) : s.asked t = false := by
  cases asked : s.asked t with
  | false => rfl
  | true => exact absurd none (valid.waits t asked)

omit [DecidableEq Name] [DecidableEq Thread] in
theorem Inv.admits {g : Guard Object} (valid : Inv rank className s) (asks : request (s.threads t).todo = some g) :
    Admits (fun object => rank (className object)) (s.threads t).held g := by
  unfold request at asks
  split at asks
  · rename_i todo
    cases asks
    exact valid.locks.request todo
  · cases asks

omit [DecidableEq Name] [DecidableEq Thread] in
theorem Inv.onto {g : Guard Object} (valid : Inv rank className s) (asks : request (s.threads t).todo = some g)
    (unasked : s.asked t = false) : s.profiler.Onto rank t (className g.object) := by
  intro top first
  have stacked := valid.stacked t
  have admits := valid.admits asks
  rw [Process.Stacked,unasked_named unasked] at stacked
  cases stack : s.profiler.lockStack t with
  | nil =>
    rw [stack] at first
    cases first
  | cons lockId rest =>
    rw [stack] at first stacked
    cases first
    cases holds : (s.threads t).held with
    | nil =>
      rw [holds] at stacked
      cases stacked
    | cons taken held =>
      rw [holds] at stacked admits
      refine ⟨className taken.object,(List.forall₂_cons.mp stacked).1,?_⟩
      exact (admits.above taken List.mem_cons_self).imp_left fun same => by rw [same]

omit [DecidableEq Name] [DecidableEq Thread] [Preorder R] in
theorem others_stacked {u : Thread} (stacked : s.Stacked className u) (keeps : s.profiler.Keeps next.profiler)
    (threads : next.threads u = s.threads u) (asked : next.asked u = s.asked u)
    (stack : next.profiler.lockStack u = s.profiler.lockStack u) : next.Stacked className u := by
  have named : next.named u = s.named u := by simp only [Process.named,threads,asked]
  rw [Process.Stacked,stack,named]
  exact stacked.imp fun _ _ known => keeps _ _ known

theorem push_inv {g : Guard Object} {profiler : Profiler Name Thread} (valid : Inv rank className s)
    (asks : request (s.threads t).todo = some g) (unasked : s.asked t = false)
    (pushed : s.profiler.pushLock t (className g.object) = .ok profiler) :
    Inv rank className {s with asked := Function.update s.asked t true,profiler := profiler} := by
  obtain ⟨ranked,names,stack,_⟩ := pushLock_ranked valid.ranked (valid.onto asks unasked) pushed
  obtain ⟨_,named,keeps⟩ := lockId_ranked valid.ranked (className g.object)
  rw [← names] at named
  have keeps : s.profiler.Keeps profiler := fun name lockId known => by
    rw [names]
    exact keeps name lockId known
  refine ⟨valid.locks,ranked,fun u asked => ?_,fun u => ?_⟩
  · by_cases mine : u = t
    · subst mine
      rw [asks]
      exact Option.some_ne_none g
    · simp only [Function.update_of_ne mine] at asked
      exact valid.waits u asked
  · by_cases mine : u = t
    · subst mine
      have stacked := valid.stacked u
      rw [Process.Stacked,unasked_named unasked] at stacked
      simp only [Process.Stacked,Process.named,Function.update_self,if_true,asks,stack]
      exact .cons named (stacked.imp fun _ _ known => keeps _ _ known)
    · refine others_stacked (valid.stacked u) keeps rfl (Function.update_of_ne mine _ _) ?_
      simp only [stack,Function.update_of_ne mine]

omit [DecidableEq Name] in
theorem take_inv {threads : Thread → Local Object} (ordered : InOrder rank className operations)
    (valid : Inv rank className s) (asked : s.asked t = true) (taken : Locking.Step operations s.threads t threads) :
    Inv rank className {s with threads := threads,asked := Function.update s.asked t false} := by
  refine ⟨Locking.step_inv ordered valid.locks taken,valid.ranked,fun u askedToo => ?_,fun u => ?_⟩
  · by_cases mine : u = t
    · subst mine
      simp only [Function.update_self] at askedToo
      cases askedToo
    · simp only [Function.update_of_ne mine] at askedToo
      simp only [taken.2 u mine]
      exact valid.waits u askedToo
  · by_cases mine : u = t
    · subst mine
      obtain ⟨g,asks⟩ := Option.ne_none_iff_exists'.mp (valid.waits u asked)
      have stacked := valid.stacked u
      simp only [Process.Stacked,Process.named,asked,if_true,asks] at stacked
      simp only [Process.Stacked,Process.named,Function.update_self,move_takes taken.1 asks]
      exact stacked
    · exact others_stacked (valid.stacked u) (fun _ _ known => known) (taken.2 u mine) (Function.update_of_ne mine _ _) rfl

theorem Inv.pops {g : Guard Object} {rest : List (Item Object)} {held : List (Guard Object)} (valid : Inv rank className s)
    (closing : (s.threads t).todo = .unlock :: rest) (holds : (s.threads t).held = g :: held) : ∃ lockId ids,
      s.profiler.popLock t (className g.object) = .ok (s.profiler.restack t ids) ∧ s.profiler.lockStack t = lockId :: ids := by
  have stacked := valid.stacked t
  rw [Process.Stacked,unasked_named (valid.unasked (by rw [closing]; rfl)),holds] at stacked
  cases stack : s.profiler.lockStack t with
  | nil =>
    rw [stack] at stacked
    cases stacked
  | cons lockId ids =>
    rw [stack] at stacked
    exact ⟨lockId,ids,popLock_pops (List.forall₂_cons.mp stacked).1 stack,rfl⟩

theorem pop_inv {g : Guard Object} {rest : List (Item Object)} {held : List (Guard Object)} {profiler : Profiler Name Thread}
    {threads : Thread → Local Object} (ordered : InOrder rank className operations)
    (valid : Inv rank className s) (closing : (s.threads t).todo = .unlock :: rest) (holds : (s.threads t).held = g :: held)
    (popped : s.profiler.popLock t (className g.object) = .ok profiler) (taken : Locking.Step operations s.threads t threads) :
    Inv rank className {s with threads := threads,profiler := profiler} := by
  obtain ⟨lockId,ids,pops,stack⟩ := valid.pops closing holds
  cases pops.symm.trans popped
  have unasked : s.asked t = false := valid.unasked (by rw [closing]; rfl)
  refine ⟨Locking.step_inv ordered valid.locks taken,restack_ranked valid.ranked ids,fun u asked => ?_,fun u => ?_⟩
  · by_cases mine : u = t
    · subst mine
      rw [unasked] at asked
      cases asked
    · simp only [taken.2 u mine]
      exact valid.waits u asked
  · by_cases mine : u = t
    · subst mine
      have stacked := valid.stacked u
      rw [Process.Stacked,unasked_named unasked,holds,stack] at stacked
      simp only [Process.Stacked,Process.named,unasked,Profiler.restack,Function.update_self,move_pops taken.1 closing holds]
      exact (List.forall₂_cons.mp stacked).2
    · exact others_stacked (valid.stacked u) (fun _ _ known => known) (taken.2 u mine) rfl (Function.update_of_ne mine _ _)

omit [DecidableEq Name] in
theorem move_inv {threads : Thread → Local Object} (ordered : InOrder rank className operations)
    (valid : Inv rank className s) (none : request (s.threads t).todo = none) (stays : closes (s.threads t).todo = false)
    (taken : Locking.Step operations s.threads t threads) : Inv rank className {s with threads := threads} := by
  have unasked := valid.unasked none
  refine ⟨Locking.step_inv ordered valid.locks taken,valid.ranked,fun u asked => ?_,fun u => ?_⟩
  · by_cases mine : u = t
    · subst mine
      rw [unasked] at asked
      cases asked
    · simp only [taken.2 u mine]
      exact valid.waits u asked
  · by_cases mine : u = t
    · subst mine
      have stacked := valid.stacked u
      rw [Process.Stacked,unasked_named unasked] at stacked
      simp only [Process.Stacked,Process.named,unasked,move_keeps taken.1 none stays]
      exact stacked
    · exact others_stacked (valid.stacked u) (fun _ _ known => known) (taken.2 u mine) rfl rfl

theorem step_inv (ordered : InOrder rank className operations) (valid : Inv rank className s)
    (taken : Step className operations s t next) : Inv rank className next := by
  cases taken with
  | push asks unasked pushed => exact push_inv valid asks unasked pushed
  | take asked taken => exact take_inv ordered valid asked taken
  | pop closing holds popped taken => exact pop_inv ordered valid closing holds popped taken
  | move none stays taken => exact move_inv ordered valid none stays taken

theorem runs_inv {events : List Thread} (ordered : InOrder rank className operations)
    (path : Runs (Step className operations) .start events s) : Inv rank className s :=
  path.invariant (fun _ _ _ valid taken => step_inv ordered valid taken) start_inv

end IocpChatServer.ServerCore.DebugLocks
