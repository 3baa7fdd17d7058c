import IocpChatServer.Foundations.DepthFirst
import IocpChatServer.ServerCore.DeadLockProfiler

namespace IocpChatServer.ServerCore.DeadLockProfiler
open Foundations DepthFirst

def successors (lockHistory : LockHistory) (lockId : Nat) : List Nat := (lockHistory lockId).getD []

def Known (lockHistory : LockHistory) (lockCount : Nat) : Prop :=
  ∀ lockId nextSet, lockHistory lockId = some nextSet → ∀ next ∈ nextSet, next < lockCount

-- What the code sees of a meeting: the head was not discovered after the tail, and it has an
-- entry, so that the only store to `_finished[head]` was not made.
def alarming (lockHistory : LockHistory) (m : Meeting Nat) : Bool :=
  match m.path with
  | [] => false
  | tail :: _ => decide (m.seen.idxOf tail ≤ m.seen.idxOf m.head) && (lockHistory m.head).isSome

structure Shows (lockHistory : LockHistory) (s : Search) (seen : List Nat) : Prop where
  order : ∀ x, s.discoveredOrder x = if x ∈ seen then (seen.length : Int) - 1 - seen.idxOf x else -1
  count : s.discoveredCount = seen.length
  finished : ∀ x, s.finished x = (decide (x ∈ seen) && (lockHistory x).isNone)

def Ancestry (parent : Nat → Int) : List Nat → Prop
  | [] => True
  | [root] => parent root = -1
  | child :: above :: rest => parent child = above ∧ Ancestry parent (above :: rest)

structure Parents (parent : Nat → Int) (path seen : List Nat) : Prop where
  ancestry : Ancestry parent path
  unset : ∀ x, x ∉ seen → parent x = -1

def Reports (m : Meeting Nat) (stop : Stop) : Prop :=
  (m.head ∈ m.path.tail → ∃ printed, stop = .deadlockDetected printed) ∧
  (m.head ∉ m.path.tail → ∃ printed, stop = .outOfRange printed)

def Follows (lockHistory : LockHistory) (path : List Nat) (met : List (Meeting Nat)) (after : List Nat)
    (result : Except Stop Search) : Prop :=
  match met.find? (alarming lockHistory) with
  | none => ∃ s, result = .ok s ∧ Shows lockHistory s after ∧ Parents s.parent path after
  | some m => ∃ stop, result = .error stop ∧ Reports m stop

variable {lockHistory : LockHistory} {s : Search} {path seen todo middle after : List Nat} {met inner : List (Meeting Nat)}
  {parent : Nat → Int} {here there lockCount fuel : Nat}

theorem successors_below (known : Known lockHistory lockCount) (x : Nat) :
    successors lockHistory x ⊆ List.range lockCount := by
  intro next member
  cases entry : lockHistory x with
  | none => simp [successors,entry] at member
  | some nextSet => exact List.mem_range.mpr (known x nextSet entry next (by simpa [successors,entry] using member))

theorem Shows.discovered (shows : Shows lockHistory s seen) (x : Nat) : s.discoveredOrder x = -1 ↔ x ∉ seen := by
  rw [shows.order x]
  by_cases member : x ∈ seen
  · have below := List.idxOf_lt_length_of_mem member
    simp only [member,if_true,not_true_eq_false,iff_false]
    omega
  · simp [member]

theorem Shows.later (shows : Shows lockHistory s seen) (one : here ∈ seen) (two : there ∈ seen) :
    s.discoveredOrder here < s.discoveredOrder there ↔ seen.idxOf there < seen.idxOf here := by
  have belowOne := List.idxOf_lt_length_of_mem one
  have belowTwo := List.idxOf_lt_length_of_mem two
  rw [shows.order here,shows.order there]
  simp only [one,two,if_true]
  omega

theorem Shows.enter (shows : Shows lockHistory s seen) (x : Nat) :
    Function.update s.discoveredOrder here s.discoveredCount x =
      if x ∈ here :: seen then ((here :: seen).length : Int) - 1 - (here :: seen).idxOf x else -1 := by
  by_cases same : x = here
  · subst same
    simp [shows.count]
  · have apart : here ≠ x := fun other => same other.symm
    rw [Function.update_of_ne same,shows.order x,List.idxOf_cons_ne _ apart]
    simp only [List.mem_cons,same,false_or,List.length_cons]
    split
    · push_cast
      omega
    · rfl

theorem Ancestry.above (ancestry : Ancestry parent (here :: path)) : Ancestry parent path := by
  cases path with
  | nil => trivial
  | cons above rest => exact ancestry.2

theorem Ancestry.untouched (ancestry : Ancestry parent path) (off : there ∉ path) (value : Int) :
    Ancestry (Function.update parent there value) path := by
  induction path with
  | nil => trivial
  | cons child path ih =>
    obtain ⟨apart,higher⟩ := List.ne_and_not_mem_of_not_mem_cons off
    have same : Function.update parent there value child = parent child := Function.update_of_ne (Ne.symm apart) _ _
    cases path with
    | nil => exact same.trans ancestry
    | cons above rest => exact ⟨same.trans ancestry.1,ih ancestry.2 higher⟩

theorem report_above (ancestry : Ancestry parent (here :: path)) (room : path.length < fuel) (member : there ∈ path)
    (printed : List (Nat × Nat)) : ∃ all, report parent there fuel here printed = .deadlockDetected all := by
  induction path generalizing here fuel printed with
  | nil => cases member
  | cons above path ih =>
    cases fuel with
    | zero => exact absurd room (Nat.not_lt_zero _)
    | succ fuel =>
      have up : parent here = .ofNat above := ancestry.1
      by_cases same : above = there
      · exact ⟨_,by simp only [report,up,same,if_true]; rfl⟩
      · obtain ⟨all,rest⟩ := ih ancestry.2 (Nat.lt_of_succ_lt_succ room)
          ((List.mem_cons.mp member).resolve_left fun other => same other.symm) (printed ++ [(above,here)])
        exact ⟨all,by simp only [report,up,same,if_false]; exact rest⟩

theorem report_off (ancestry : Ancestry parent (here :: path)) (room : path.length < fuel) (off : there ∉ path)
    (printed : List (Nat × Nat)) : ∃ all, report parent there fuel here printed = .outOfRange all := by
  induction path generalizing here fuel printed with
  | nil =>
    cases fuel with
    | zero => exact absurd room (Nat.not_lt_zero _)
    | succ fuel =>
      have top : parent here = .negSucc 0 := ancestry
      exact ⟨printed,by simp only [report,top]⟩
  | cons above path ih =>
    cases fuel with
    | zero => exact absurd room (Nat.not_lt_zero _)
    | succ fuel =>
      have up : parent here = .ofNat above := ancestry.1
      obtain ⟨apart,higher⟩ := List.ne_and_not_mem_of_not_mem_cons off
      obtain ⟨all,rest⟩ := ih ancestry.2 (Nat.lt_of_succ_lt_succ room) higher (printed ++ [(above,here)])
      exact ⟨all,by simp only [report,up,Ne.symm apart,if_false]; exact rest⟩

theorem reports (shows : Shows lockHistory s seen) (parents : Parents s.parent (here :: path) seen)
    (placed : Placed (successors lockHistory) (here :: path) (there :: todo) seen) :
    Reports ⟨here :: path,seen,there⟩ (report s.parent there s.discoveredCount here [(here,there)]) := by
  have room : path.length < s.discoveredCount := by
    rw [shows.count]
    exact placed.order.length_le
  exact ⟨fun member => report_above parents.ancestry room member _,
    fun off => report_off parents.ancestry room off _⟩

theorem Follows.found {m : Meeting Nat} {stop : Stop} (alarm : alarming lockHistory m = true) (reports : Reports m stop) :
    Follows lockHistory path (m :: met) after (.error stop) := by
  simp only [Follows,List.find?_cons,alarm]
  exact ⟨stop,rfl,reports⟩

theorem Follows.passed {m : Meeting Nat} {result : Except Stop Search} (quiet : alarming lockHistory m = false)
    (rest : Follows lockHistory path met after result) : Follows lockHistory path (m :: met) after result := by
  simpa only [Follows,List.find?_cons,quiet] using rest

theorem Follows.both {first : Except Stop Search} {rest : Search → Except Stop Search}
    (below : Follows lockHistory path inner middle first)
    (then_ : ∀ s, Shows lockHistory s middle → Parents s.parent path middle →
      Follows lockHistory path met after (rest s)) :
    Follows lockHistory path (inner ++ met) after (first >>= rest) := by
  unfold Follows at below
  cases found : inner.find? (alarming lockHistory) with
  | some m =>
    obtain ⟨stop,result,reports⟩ := by simpa only [found] using below
    rw [result]
    simp only [Follows,List.find?_append,found]
    exact ⟨stop,rfl,reports⟩
  | none =>
    obtain ⟨s,result,shows,parents⟩ := by simpa only [found] using below
    rw [result]
    change Follows lockHistory path (inner ++ met) after (rest s)
    have later := then_ s shows parents
    simpa only [Follows,List.find?_append,found,Option.none_or] using later

theorem dfs_enters (new : here ∉ seen) (shows : Shows lockHistory s seen)
    (parents : Parents s.parent (here :: path) (here :: seen))
    (search : Explores (successors lockHistory) (here :: path) (successors lockHistory here) (here :: seen) inner middle)
    (loop : ∀ nextSet s, lockHistory here = some nextSet → Shows lockHistory s (here :: seen) →
      Parents s.parent (here :: path) (here :: seen) →
      Follows lockHistory (here :: path) inner middle (nextSet.foldlM (examine (dfs lockHistory fuel) here) s)) :
    Follows lockHistory path inner middle (dfs lockHistory (fuel + 1) here s) := by
  have undiscovered := (shows.discovered here).mpr new
  simp only [dfs,undiscovered,ne_eq,not_true_eq_false,if_false]
  cases entry : lockHistory here with
  | none =>
    rw [successors,entry] at search
    cases search
    refine ⟨_,rfl,⟨shows.enter,?_,fun x => ?_⟩,parents.ancestry.above,parents.unset⟩
    · simp [shows.count]
    · by_cases same : x = here
      · subst same
        simp [entry]
      · simp [shows.finished x,same]
  | some nextSet =>
    have entered : Shows lockHistory {s with
        discoveredOrder := Function.update s.discoveredOrder here s.discoveredCount
        discoveredCount := s.discoveredCount + 1} (here :: seen) := by
      refine ⟨shows.enter,by simp [shows.count],fun x => ?_⟩
      by_cases same : x = here
      · subst same
        simp [entry,shows.finished x]
      · simp [shows.finished x,same]
    have below := loop nextSet _ entry entered parents
    unfold Follows at below ⊢
    cases found : inner.find? (alarming lockHistory) with
    | some m => simpa only [found] using below
    | none =>
      obtain ⟨s,result,shows,parents⟩ := by simpa only [found] using below
      exact ⟨s,result,shows,parents.ancestry.above,parents.unset⟩

theorem meeting_quiet (shows : Shows lockHistory s seen) (one : here ∈ seen) (two : there ∈ seen)
    (dfs : Nat → Search → Except Stop Search) (quiet : alarming lockHistory ⟨here :: path,seen,there⟩ = false) :
    examine dfs here s there = .ok s := by
  have known := (shows.discovered there).not.mpr (by simpa using two)
  have later := shows.later one two
  have finished := shows.finished there
  simp only [alarming,Bool.and_eq_false_iff,decide_eq_false_iff_not,Nat.not_le] at quiet
  unfold examine
  rw [if_neg known]
  rcases quiet with newer | none
  · rw [if_pos (later.mpr newer)]
  · have closed : s.finished there = true := by
      rw [finished]
      cases entry : lockHistory there with
      | none => simpa using two
      | some _ => simp [entry] at none
    simp [closed]

theorem meeting_alarming (shows : Shows lockHistory s seen) (one : here ∈ seen) (two : there ∈ seen)
    (dfs : Nat → Search → Except Stop Search) (alarm : alarming lockHistory ⟨here :: path,seen,there⟩ = true) :
    examine dfs here s there = .error (report s.parent there s.discoveredCount here [(here,there)]) := by
  have known := (shows.discovered there).not.mpr (by simpa using two)
  have later := shows.later one two
  obtain ⟨older,entry⟩ := by simpa only [alarming,Bool.and_eq_true,decide_eq_true_eq] using alarm
  have unfinished : s.finished there = false := by
    rw [shows.finished there]
    cases value : lockHistory there with
    | none => simp [value] at entry
    | some _ => simp
  unfold examine
  rw [if_neg known,if_neg (fun less => absurd (later.mp less) (by omega)),if_pos unfinished]

-- The loop over the successors still to be examined at the end of a path. The induction is on
-- the search; the recursion bound is spent by the nodes discovered.
theorem loop_follows (known : Known lockHistory lockCount)
    (search : Explores (successors lockHistory) path todo seen met after) (at_ : path = here :: ancestors)
    (placed : Placed (successors lockHistory) path todo seen) (inside : seen ⊆ List.range lockCount)
    (below : todo ⊆ List.range lockCount) (shows : Shows lockHistory s seen) (parents : Parents s.parent path seen)
    (room : lockCount ≤ fuel + seen.length) :
    Follows lockHistory path met after (todo.foldlM (examine (dfs lockHistory fuel) here) s) := by
  have closed := successors_below known
  induction search generalizing here ancestors fuel s with
  | done => exact ⟨s,rfl,shows,parents⟩
  | @meet seen there path rest met after two search ih =>
    subst at_
    have one : here ∈ seen := placed.order.subset List.mem_cons_self
    rw [List.foldlM_cons]
    cases alarm : alarming lockHistory ⟨here :: ancestors,seen,there⟩ with
    | true =>
      rw [meeting_alarming shows one two _ alarm]
      exact .found alarm (reports shows parents placed)
    | false =>
      rw [meeting_quiet shows one two _ alarm]
      exact .passed alarm (ih rfl placed.rest inside (List.cons_subset.mp below).2 shows parents room)
  | @enter seen there path inner middle rest met after new first search inner_ih rest_ih =>
    subst at_
    obtain ⟨less,others⟩ := List.cons_subset.mp below
    have undiscovered := (shows.discovered there).mpr new
    have space := DepthFirst.room new less placed.nodup inside
    rw [List.length_range] at space
    have grown : there :: seen ⊆ List.range lockCount := List.cons_subset.mpr ⟨less,inside⟩
    have childless : there ∉ here :: ancestors := fun member => new (placed.order.subset member)
    cases fuel with
    | zero => omega
    | succ fuel =>
      rw [List.foldlM_cons]
      refine .both ?_ fun s shows parents => rest_ih rfl (placed.left first new) (first.inside closed (closed there) grown)
        others shows parents ?_
      · unfold examine
        rw [if_pos undiscovered]
        refine dfs_enters new ⟨shows.order,shows.count,shows.finished⟩ ⟨?_,?_⟩ first ?_
        · exact ⟨Function.update_self there _ _,parents.ancestry.untouched childless here⟩
        · intro x unseen
          obtain ⟨apart,other⟩ := List.ne_and_not_mem_of_not_mem_cons unseen
          exact (Function.update_of_ne apart _ _).trans (parents.unset x other)
        · intro nextSet s entry shows parents
          have below : Follows lockHistory (there :: here :: ancestors) inner middle
              ((successors lockHistory there).foldlM (examine (dfs lockHistory fuel) there) s) :=
            inner_ih rfl (placed.entered new) grown (closed there) shows parents
              (by simp only [List.length_cons]; omega)
          rwa [successors,entry] at below
      · obtain ⟨more,grown⟩ := first.grows
        simp only [grown,List.length_append,List.length_cons]
        omega

-- CheckCycle's loop over all ids. An id discovered from an earlier one returns at once.
theorem roots_follow (known : Known lockHistory lockCount)
    (search : Explores (successors lockHistory) path todo seen met after) (top : path = [])
    (nodup : seen.Nodup) (inside : seen ⊆ List.range lockCount) (below : todo ⊆ List.range lockCount)
    (shows : Shows lockHistory s seen) (parents : Parents s.parent [] seen) :
    Follows lockHistory [] met after (todo.foldlM (fun s lockId => dfs lockHistory lockCount lockId s) s) := by
  have closed := successors_below known
  induction search generalizing s with
  | done => exact ⟨s,rfl,shows,parents⟩
  | @meet seen root path rest met after two search ih =>
    subst top
    obtain ⟨less,others⟩ := List.cons_subset.mp below
    have discovered := (shows.discovered root).not.mpr (by simpa using two)
    have returns : dfs lockHistory lockCount root s = .ok s := by
      cases lockCount with
      | zero => simp at less
      | succ _ => simp [dfs,discovered]
    rw [List.foldlM_cons,returns]
    exact .passed rfl (ih rfl nodup inside others shows parents)
  | @enter seen root path inner middle rest met after new first search _ rest_ih =>
    subst top
    obtain ⟨less,others⟩ := List.cons_subset.mp below
    have grown : root :: seen ⊆ List.range lockCount := List.cons_subset.mpr ⟨less,inside⟩
    have distinct := List.nodup_cons.mpr ⟨new,nodup⟩
    have placed : Placed (successors lockHistory) [] (root :: rest) seen := .roots nodup
    obtain ⟨fuel,bound⟩ : ∃ fuel, lockCount = fuel + 1 :=
      Nat.exists_eq_succ_of_ne_zero (by rintro rfl; simp at less)
    rw [List.foldlM_cons]
    refine .both ?_ fun s shows parents => rest_ih rfl (first.nodup distinct) (first.inside closed (closed root) grown)
      others shows parents
    rw [bound]
    refine dfs_enters new shows ⟨parents.unset root new,fun x unseen => parents.unset x fun member =>
      unseen (List.mem_cons_of_mem _ member)⟩ first ?_
    intro nextSet s entry shows parents
    have below : Follows lockHistory [root] inner middle
        ((successors lockHistory root).foldlM (examine (dfs lockHistory fuel) root) s) :=
      loop_follows known first rfl (placed.entered new) grown (closed root) shows parents
        (by simp only [List.length_cons]; omega)
    rwa [successors,entry] at below

theorem checkCycle_follows (known : Known lockHistory lockCount)
    (search : Explores (successors lockHistory) [] (List.range lockCount) [] met after) :
    match met.find? (alarming lockHistory) with
    | none => checkCycle lockHistory lockCount = .ok ()
    | some m => ∃ stop, checkCycle lockHistory lockCount = .error stop ∧ Reports m stop := by
  have start : Shows lockHistory fresh [] := ⟨fun _ => rfl,rfl,fun _ => rfl⟩
  have follows := roots_follow known search rfl List.nodup_nil (List.nil_subset _) (List.Subset.refl _) start
    ⟨trivial,fun _ _ => rfl⟩
  unfold Follows at follows
  cases found : met.find? (alarming lockHistory) with
  | none =>
    obtain ⟨s,result,_⟩ := by simpa only [found] using follows
    simp only [checkCycle,result]
    rfl
  | some m =>
    obtain ⟨stop,result,reports⟩ := by simpa only [found] using follows
    exact ⟨stop,by simp only [checkCycle,result]; rfl,reports⟩

theorem search_exists (known : Known lockHistory lockCount) :
    ∃ met after, Explores (successors lockHistory) [] (List.range lockCount) [] met after :=
  explores_exists (successors_below known) (List.Subset.refl _)

theorem meeting_placed (search : Explores (successors lockHistory) [] (List.range lockCount) [] met after)
    {m : Meeting Nat} (member : m ∈ met) : Placed (successors lockHistory) m.path [m.head] m.seen ∧ m.head ∈ m.seen :=
  search.traced (.roots List.nodup_nil) m member

-- The report is raised over a cycle, and the walk up from `here` ends at `there`.
def NoFalseAlarm (lockHistory : LockHistory) (lockCount : Nat) : Prop :=
  ∀ stop, checkCycle lockHistory lockCount = .error stop →
    (∃ printed, stop = .deadlockDetected printed) ∧ ¬ Acyclic (successors lockHistory)

-- The first edge met to a node that has successors of its own and was not discovered after
-- the edge's tail leads to a proper ancestor of the tail.
def BackEdgeFirst (lockHistory : LockHistory) (lockCount : Nat) : Prop :=
  ∀ met after, Explores (successors lockHistory) [] (List.range lockCount) [] met after →
    ∀ m, met.find? (alarming lockHistory) = some m → m.head ∈ m.path.tail

theorem no_false_alarm_exact (known : Known lockHistory lockCount) :
    NoFalseAlarm lockHistory lockCount ↔ BackEdgeFirst lockHistory lockCount := by
  constructor
  · intro quiet met after search m found
    have follows := checkCycle_follows known search
    rw [found] at follows
    obtain ⟨stop,result,reports⟩ := follows
    obtain ⟨⟨printed,detected⟩,_⟩ := quiet stop result
    by_contra off
    obtain ⟨_,stray⟩ := reports.2 off
    rw [detected] at stray
    cases stray
  · intro first stop result
    obtain ⟨met,after,search⟩ := search_exists known
    have follows := checkCycle_follows known search
    cases found : met.find? (alarming lockHistory) with
    | none =>
      rw [found] at follows
      rw [show checkCycle lockHistory lockCount = .ok () from follows] at result
      cases result
    | some m =>
      rw [found] at follows
      obtain ⟨_,same,reports⟩ := follows
      cases same.symm.trans result
      have above := first met after search m found
      have placed := (meeting_placed search (List.mem_of_find?_eq_some found)).1
      exact ⟨reports.1 above,fun acyclic => acyclic _ (placed.cycle (List.mem_of_mem_tail above))⟩

-- Three locks taken in turn: 0 before 1, 1 before 2, and 0 before 2.
theorem no_false_alarm_exact_triangle : BackEdgeFirst (fun | 0 => some [1,2] | 1 => some [2] | _ => none) 3 := by
  refine (no_false_alarm_exact ?_).mp fun stop result => by cases result
  intro lockId nextSet entry next member
  match lockId,entry with
  | 0,rfl => simp at member; omega
  | 1,rfl => simp at member; omega

-- Lock 0 before 1, and then lock 2 before 0: the edge from 2 crosses to an inner node.
def crossing : LockHistory
  | 0 => some [1]
  | 2 => some [0]
  | _ => none

theorem no_false_alarm_crossing : Known crossing 3 ∧ Acyclic (successors crossing) ∧
    checkCycle crossing 3 = .error (.outOfRange [(2,0)]) ∧ ¬ NoFalseAlarm crossing 3 := by
  have result : checkCycle crossing 3 = .error (.outOfRange [(2,0)]) := rfl
  have edges : ∀ a b, Edge (successors crossing) a b → a = 0 ∧ b = 1 ∨ a = 2 ∧ b = 0 := by
    intro a b edge
    match a,edge with
    | 0,edge => exact .inl ⟨rfl,by simpa [Edge,successors,crossing] using edge⟩
    | 2,edge => exact .inr ⟨rfl,by simpa [Edge,successors,crossing] using edge⟩
    | 1,edge => simp [Edge,successors,crossing] at edge
    | n + 3,edge => simp [Edge,successors,crossing] at edge
  refine ⟨?_,?_,result,fun quiet => ?_⟩
  · intro lockId nextSet entry next member
    have edge : Edge (successors crossing) lockId next := by simpa [Edge,successors,entry] using member
    have heads := edges _ _ edge
    omega
  · have forward : ∀ a b, Relation.TransGen (Edge (successors crossing)) a b →
        a = 0 ∧ b = 1 ∨ a = 2 ∧ b < 2 := by
      intro a b path
      induction path with
      | single edge =>
        have ends := edges _ _ edge
        omega
      | tail _ edge ih =>
        have ends := edges _ _ edge
        omega
    intro a cycle
    have ends := forward a a cycle
    omega
  · obtain ⟨⟨_,other⟩,_⟩ := quiet _ result
    cases other

end IocpChatServer.ServerCore.DeadLockProfiler
