import IocpChatServer.Foundations.TransitionSystem
import IocpChatServer.ServerCore.CycleCheck

namespace IocpChatServer.ServerCore.DeadLockProfiler
open Foundations DepthFirst TransitionSystem
variable {lockHistory : LockHistory} {lockCount : Nat}

theorem checkCycle_acyclic (known : Known lockHistory lockCount) (returned : checkCycle lockHistory lockCount = .ok ()) :
    Acyclic (successors lockHistory) := by
  obtain ⟨met,after,search⟩ := search_exists known
  have follows := checkCycle_follows known search
  cases found : met.find? (alarming lockHistory) with
  | some m =>
    rw [found] at follows
    obtain ⟨stop,result,_⟩ := follows
    rw [returned] at result
    cases result
  | none =>
    refine search.acyclic (successors_below known) fun m member back => ?_
    have placed := (meeting_placed search member).1
    have quiet := List.find?_eq_none.mp found m member
    obtain ⟨child,edge⟩ := placed.child back
    have entry : (lockHistory m.head).isSome := by
      cases value : lockHistory m.head with
      | none => simp [Edge,successors,value] at edge
      | some _ => rfl
    cases path : m.path with
    | nil => simp [path] at back
    | cons tail ancestors =>
      rw [path] at placed back
      exact quiet (by simp [alarming,path,entry,placed.older back])

variable {Name Thread : Type _} [DecidableEq Name] [DecidableEq Thread] {p next : Profiler Name Thread}
  {thread : Thread} {lockId prevId : Nat} {name : Name}

def Joined (lockHistory : LockHistory) (upper lower : Nat) : Prop :=
  upper = lower ∨ Edge (successors lockHistory) lower upper

structure Inv (p : Profiler Name Thread) : Prop where
  named : ∀ name lockId, p.nameToId name = some lockId → lockId < p.nameCount
  known : Known p.lockHistory p.nameCount
  stacked : ∀ thread, ∀ lockId ∈ p.lockStack thread, lockId < p.nameCount
  joined : ∀ thread, (p.lockStack thread).IsChain (Joined p.lockHistory)
  acyclic : Acyclic (successors p.lockHistory)

omit [DecidableEq Thread] in
theorem Inv.counted (valid : Inv p) (small : lockId ≤ p.nameCount) :
    Inv {p with nameToId := Function.update p.nameToId name (some lockId),nameCount := p.nameCount + 1} where
  named := by
    intro other id value
    by_cases same : other = name
    · subst same
      simp only [Function.update_self] at value
      cases value
      exact Nat.lt_succ_of_le small
    · simp only [Function.update_of_ne same] at value
      exact Nat.lt_succ_of_lt (valid.named other id value)
  known := fun id nextSet entry next member => Nat.lt_succ_of_lt (valid.known id nextSet entry next member)
  stacked := fun thread id member => Nat.lt_succ_of_lt (valid.stacked thread id member)
  joined := valid.joined
  acyclic := valid.acyclic

omit [DecidableEq Thread] in
theorem lockId_inv (valid : Inv p) (found : p.lockId name = (lockId,next)) : Inv next ∧ lockId < next.nameCount := by
  unfold Profiler.lockId at found
  split at found
  · rename_i id value
    cases found
    exact ⟨valid,valid.named name _ value⟩
  · cases found
    exact ⟨valid.counted (Nat.le_refl _),Nat.lt_succ_self _⟩

omit [DecidableEq Thread] in
theorem indexId_inv (valid : Inv p) (name : Name) :
    Inv (p.indexId name).2 ∧ (p.indexId name).2.lockStack = p.lockStack := by
  unfold Profiler.indexId
  split
  · exact ⟨valid,rfl⟩
  · exact ⟨valid.counted (Nat.zero_le _),rfl⟩

omit [DecidableEq Name] in
theorem restack_inv (valid : Inv p) {stack : List Nat} (small : ∀ lockId ∈ stack, lockId < p.nameCount)
    (chain : stack.IsChain (Joined p.lockHistory)) : Inv (p.restack thread stack) where
  named := valid.named
  known := valid.known
  stacked := by
    intro other id member
    by_cases same : other = thread
    · subst same
      simp only [Profiler.restack,Function.update_self] at member
      exact small id member
    · simp only [Profiler.restack,Function.update_of_ne same] at member
      exact valid.stacked other id member
  joined := by
    intro other
    by_cases same : other = thread
    · subst same
      simpa only [Profiler.restack,Function.update_self] using chain
    · simpa only [Profiler.restack,Function.update_of_ne same] using valid.joined other
  acyclic := valid.acyclic

omit [DecidableEq Name] in
theorem push_inv (valid : Inv p) (small : lockId < p.nameCount)
    (onto : ∀ top ∈ (p.lockStack thread).head?, Joined p.lockHistory lockId top) : Inv (p.push thread lockId) :=
  restack_inv valid (List.forall_mem_cons.mpr ⟨small,valid.stacked thread⟩)
    (List.isChain_cons.mpr ⟨onto,valid.joined thread⟩)

omit [DecidableEq Name] [DecidableEq Thread] in
theorem record_edges (p : Profiler Name Thread) (a b : Nat) :
    Edge (successors (p.record prevId lockId).lockHistory) a b ↔
      Edge (successors p.lockHistory) a b ∨ a = prevId ∧ b = lockId := by
  by_cases same : a = prevId
  · subst same
    simp only [Edge,successors,Profiler.record,Function.update_self,Option.getD_some,List.mem_orderedInsert,true_and]
    exact or_comm
  · simp only [Edge,successors,Profiler.record,Function.update_of_ne same,same,false_and,or_false]

omit [DecidableEq Name] [DecidableEq Thread] in
theorem record_inv (valid : Inv p) (small : lockId < p.nameCount)
    (returned : checkCycle (p.record prevId lockId).lockHistory p.nameCount = .ok ()) :
    Inv (p.record prevId lockId) := by
  have known : Known (p.record prevId lockId).lockHistory p.nameCount := by
    intro id nextSet entry next member
    have edge : Edge (successors (p.record prevId lockId).lockHistory) id next := by
      simpa only [Edge,successors,entry,Option.getD_some] using member
    rcases (record_edges p id next).mp edge with old | ⟨_,new⟩
    · exact List.mem_range.mp (successors_below valid.known id old)
    · exact new ▸ small
  refine ⟨valid.named,known,valid.stacked,fun thread => ?_,checkCycle_acyclic known returned⟩
  refine (valid.joined thread).imp fun upper lower joined => ?_
  exact joined.imp_right fun edge => (record_edges p lower upper).mpr (.inl edge)

theorem pushLock_inv (valid : Inv p) (pushed : p.pushLock thread name = .ok next) : Inv next := by
  unfold Profiler.pushLock at pushed
  cases found : p.lockId name with | mk id q
  obtain ⟨validNow,small⟩ := lockId_inv valid found
  simp only [found] at pushed
  cases stack : q.lockStack thread with
  | nil =>
    simp only [stack] at pushed
    cases pushed
    exact push_inv validNow small (by simp [stack])
  | cons prevId rest =>
    simp only [stack] at pushed
    split at pushed
    · rename_i same
      cases pushed
      refine push_inv validNow small fun top member => ?_
      rw [stack] at member
      cases member
      exact .inl same
    · split at pushed
      · rename_i edge
        cases pushed
        refine push_inv validNow small fun top member => ?_
        rw [stack] at member
        cases member
        exact .inr edge
      · split at pushed
        · cases pushed
        · rename_i returned
          cases pushed
          have recorded := record_inv validNow small returned
          refine push_inv recorded small fun top member => ?_
          have same : top = prevId := by simpa [Profiler.record,stack] using member.symm
          exact .inr ((record_edges q top id).mpr (.inr ⟨same,rfl⟩))

theorem popLock_inv (valid : Inv p) (popped : p.popLock thread name = .ok next) : Inv next := by
  obtain ⟨validNow,kept⟩ := indexId_inv valid name
  unfold Profiler.popLock at popped
  split at popped
  · cases popped
  · rename_i top rest stack
    dsimp only at popped
    split at popped
    · cases popped
    · cases popped
      have stacked := validNow.stacked thread
      have joined := validNow.joined thread
      rw [kept,stack] at stacked joined
      exact restack_inv validNow (fun id member => stacked id (List.mem_cons_of_mem _ member)) joined.tail

theorem step_inv (valid : Inv p) {event : Thread × Call × Name} (taken : step p event = some next) : Inv next := by
  obtain ⟨thread,call,name⟩ := event
  cases call with
  | pushLock =>
    cases pushed : p.pushLock thread name with
    | error crash => simp [step,pushed,Except.toOption] at taken
    | ok after =>
      cases (show some after = some next by simpa [step,pushed,Except.toOption] using taken)
      exact pushLock_inv valid pushed
  | popLock =>
    cases popped : p.popLock thread name with
    | error crash => simp [step,popped,Except.toOption] at taken
    | ok after =>
      cases (show some after = some next by simpa [step,popped,Except.toOption] using taken)
      exact popLock_inv valid popped

omit [DecidableEq Name] [DecidableEq Thread] in
theorem start_inv : Inv (Profiler.start : Profiler Name Thread) where
  named := fun _ _ value => by cases value
  known := fun _ _ entry => by cases entry
  stacked := fun _ _ member => by cases member
  joined := fun _ => List.isChain_nil
  acyclic := by
    intro a cycle
    obtain ⟨_,edge,_⟩ := Relation.TransGen.head'_iff.mp cycle
    cases edge

theorem runs_inv (path : Runs (Enabled step) (Profiler.start : Profiler Name Thread) events p) : Inv p :=
  path.invariant (fun _ _ _ valid taken => step_inv valid taken) start_inv

theorem stack_reaches {stack : List Nat} {upper lower : Nat} (chain : stack.IsChain (Joined lockHistory))
    (above : [upper,lower].Sublist stack) : Relation.ReflTransGen (Edge (successors lockHistory)) lower upper := by
  have first : ∀ (rest : List Nat) (top : Nat), (top :: rest).IsChain (Joined lockHistory) → ∀ lower ∈ top :: rest,
      Relation.ReflTransGen (Edge (successors lockHistory)) lower top := by
    intro rest
    induction rest with
    | nil =>
      intro top _ lower member
      rw [List.mem_singleton.mp member]
    | cons second rest ih =>
      intro top chain lower member
      obtain ⟨joined,below⟩ := List.isChain_cons_cons.mp chain
      rcases List.mem_cons.mp member with same | deeper
      · rw [same]
      · have reach := ih second below lower deeper
        rcases joined with same | edge
        · exact same ▸ reach
        · exact reach.tail edge
  induction stack with
  | nil => cases above
  | cons top stack ih =>
    cases above with
    | cons _ deeper => exact ih chain.tail deeper
    | cons_cons _ rest => exact first stack _ chain lower (List.mem_cons_of_mem _ (List.singleton_sublist.mp rest))

-- No inversion is left: an edge order without cycles that every stack follows, and no ring of
-- threads whose locks wait for each other.
theorem no_inversion (path : Runs (Enabled step) (Profiler.start : Profiler Name Thread) events p) :
    Acyclic (successors p.lockHistory) ∧
    (∀ thread lower upper, [upper,lower].Sublist (p.lockStack thread) → lower ≠ upper →
      Relation.TransGen (Edge (successors p.lockHistory)) lower upper) ∧
    ¬ ∃ (n : Nat) (thread : Fin (n + 2) → Thread) (lock : Fin (n + 2) → Nat),
      (∀ i, [lock (i + 1),lock i].Sublist (p.lockStack (thread i))) ∧ ∃ i j, lock i ≠ lock j := by
  have valid := runs_inv path
  refine ⟨valid.acyclic,fun thread lower upper above apart => ?_,?_⟩
  · rcases Relation.reflTransGen_iff_eq_or_transGen.mp (stack_reaches (valid.joined thread) above) with same | reach
    · exact absurd same.symm apart
    · exact reach
  · intro given
    obtain ⟨n,thread,lock,above,i,j,apart⟩ := given
    exact apart (valid.acyclic.ring (fun i => stack_reaches (valid.joined (thread i)) (above i)) i j)

-- Two threads take the locks 7 and 8 in the same order.
theorem no_inversion_pair : ∃ events p, Runs (Enabled step) (Profiler.start : Profiler Nat Bool) events p ∧
    p.lockStack false = [1,0] ∧ p.lockStack true = [1,0] ∧ Acyclic (successors p.lockHistory) := by
  have path : Runs (Enabled step) (Profiler.start : Profiler Nat Bool) _ _ :=
    @execute_runs _ _ _ [(false,.pushLock,7),(false,.pushLock,8),(true,.pushLock,7),(true,.pushLock,8)] _ _ rfl
  exact ⟨_,_,path,rfl,rfl,(no_inversion path).1⟩

end IocpChatServer.ServerCore.DeadLockProfiler
