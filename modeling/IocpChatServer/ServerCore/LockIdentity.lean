import Mathlib.Algebra.Order.BigOperators.Group.Finset
import Mathlib.Algebra.Order.Ring.Nat
import IocpChatServer.ServerCore.LockExclusion

namespace IocpChatServer.ServerCore.Lock
open Foundations TransitionSystem
variable {Thread : Type _} [DecidableEq Thread]

-- ThreadManager::InitTLS: the LThreadId of the thread, and SThreadId after it.
def initTLS (threadId : UInt32) : UInt32 × UInt32 := (threadId,threadId + 1)

def counter : Nat → UInt32
  | 0 => 1
  | n + 1 => (initTLS (counter n)).2

theorem counter_exact (n : Nat) : (counter n).toNat = (n + 1) % 2^32 := by
  induction n with
  | zero => rfl
  | succ n ih =>
    have one : (1 : UInt32).toNat = 1 := rfl
    rw [counter,initTLS,UInt32.toNat_add,ih,one]
    omega

theorem handed_out (id : UInt32) (nonzero : id ≠ 0) : ∃ n, (initTLS (counter n)).1 = id := by
  have positive : id.toNat ≠ 0 := fun zero => nonzero (UInt32.toNat_inj.mp zero)
  have bound := id.toNat_lt
  refine ⟨id.toNat - 1,UInt32.toNat_inj.mp ?_⟩
  rw [initTLS,counter_exact]
  omega

-- The test at the head of WriteLock and of ReadLock.
def Reenters (id : UInt32) (s : State Thread) : Prop := id = lockThreadId s.lockFlag

-- Nobody else has done anything, and `a` has come back from a WriteLock.
def owned (id : Thread → UInt32) (a : Thread) : State Thread :=
  ⟨desired (id a),1,fun _ => .outside,Function.update (fun _ => []) a [.write],false⟩

def Locking (_ : State Thread) (event : Thread × Choice) : Prop := event.2 ≠ .call .writeUnlock ∧ event.2 ≠ .call .readUnlock

def Reading (s : State Thread) (event : Thread × Choice) : Prop := Locking s event ∧ event.2 ≠ .call .writeLock

instance (s : State Thread) (event : Thread × Choice) : Decidable (Locking s event) := inferInstanceAs (Decidable (_ ∧ _))

instance (s : State Thread) (event : Thread × Choice) : Decidable (Reading s event) := inferInstanceAs (Decidable (_ ∧ _))

def opens [Fintype Thread] (s : State Thread) : Nat := ∑ t, (s.held t).count .read

-- With at most `n` ReadLocks open, the flag tells `a`, which has the lock, from `b`, and nobody
-- has it when nobody has taken it.
structure Identified [Fintype Thread] (id : Thread → UInt32) (a b : Thread) (n : Nat) : Prop where
  taken : desired (id a) ≠ emptyFlag
  kept : ∀ events s, Runs (Guarded (Enabled (stepAs id)) Locking) (owned id a) events s → opens s ≤ n → Reenters (id a) s ∧ ¬ Reenters (id b) s
  free : ∀ events s, Runs (Guarded (Enabled (stepAs id)) Reading) State.start events s → opens s ≤ n → ∀ c ≠ 0, ¬ Reenters c s

def Attempts : Position → Prop
  | .writeUnlockLoad | .writeUnlockCount | .writeUnlockStore | .readUnlock => False
  | _ => True

inductive Goes (number : UInt32) (s : State Thread) (t : Thread) : State Thread → Prop where
  | owns (at_ : s.position t = .writeLoad) (mine : number = lockThreadId s.lockFlag) : Goes number s t (s.goto t .writeReenter)
  | asks (at_ : s.position t = .writeLoad) (other : number ≠ lockThreadId s.lockFlag) : Goes number s t (s.goto t (.writeSpin 0))
  | reenters (at_ : s.position t = .writeReenter) : Goes number s t ({s with writeCount := s.writeCount + 1}.returned t .write)
  | takes (at_ : s.position t = .writeSpin spinCount) (empty : s.lockFlag = emptyFlag) :
      Goes number s t ({s with lockFlag := desired number}.goto t .writeAcquired)
  | fails (at_ : s.position t = .writeSpin spinCount) : Goes number s t (s.goto t (.writeSpin (spinCount + 1)))
  | givesUp (at_ : s.position t = .writeSpin spinCount) : Goes number s t (s.returned t .write)
  | crashes : Goes number s t s.crash
  | counts (at_ : s.position t = .writeAcquired) : Goes number s t ({s with writeCount := s.writeCount + 1}.returned t .write)
  | ownsToo (at_ : s.position t = .readLoad) (mine : number = lockThreadId s.lockFlag) : Goes number s t (s.goto t .readReenter)
  | asksToo (at_ : s.position t = .readLoad) (other : number ≠ lockThreadId s.lockFlag) : Goes number s t (s.goto t (.readSpinLoad 0))
  | adds (at_ : s.position t = .readReenter) : Goes number s t ({s with lockFlag := s.lockFlag + 1}.returned t .read)
  | loads (at_ : s.position t = .readSpinLoad spinCount) : Goes number s t (s.goto t (.readSpinSwap spinCount (readCount s.lockFlag)))
  | again (at_ : s.position t = .readSpinLoad spinCount) : Goes number s t (s.goto t (.readSpinLoad 0))
  | swaps (at_ : s.position t = .readSpinSwap spinCount s.lockFlag) :
      Goes number s t ({s with lockFlag := s.lockFlag + 1}.returned t .read)
  | failsToo (at_ : s.position t = .readSpinSwap spinCount expected) : Goes number s t (s.goto t (.readSpinLoad (spinCount + 1)))

-- A step of a run in which nobody unlocks: a call, or what a call does.
inductive Moves (id : Thread → UInt32) (s : State Thread) : Thread × Choice → State Thread → Prop where
  | writes (outside : s.position t = .outside) : Moves id s (t,.call .writeLock) (s.goto t .writeLoad)
  | reads (outside : s.position t = .outside) : Moves id s (t,.call .readLock) (s.goto t .readLoad)
  | goes (goes : Goes (id t) s t next) : Moves id s (t,.go favourable) next

variable {id : Thread → UInt32} {s next : State Thread} {a b t : Thread} {event : Thread × Choice} {events : List (Thread × Choice)} {n : Nat}

theorem owned_taken (nonzero : id a ≠ 0) : Runs (Enabled (stepAs id)) State.start
    [(a,.call .writeLock),(a,.go true),(a,.go true),(a,.go true)] (owned id a) := by
  have unowned : id a ≠ lockThreadId emptyFlag := nonzero
  have spins : 0 < maxSpinCount := by decide
  refine execute_runs ?_
  simp [execute,stepAs,enter,proceedAs,State.start,State.goto,State.returned,owned,unowned,spins]

theorem proceed_goes {number : UInt32} {favourable : Bool} (taken : proceedAs number s t favourable = some next)
    (attempts : Attempts (s.position t)) : Goes number s t next := by
  unfold proceedAs at taken
  cases at_ : s.position t with
  | outside => simp [at_] at taken
  | writeUnlockLoad | writeUnlockCount | writeUnlockStore | readUnlock => simp [at_,Attempts] at attempts
  | writeLoad =>
    simp only [at_] at taken
    split at taken
    · rename_i mine
      cases taken
      exact .owns at_ mine
    · rename_i other
      cases taken
      exact .asks at_ other
  | writeReenter =>
    simp only [at_,Option.some.injEq] at taken
    exact taken ▸ .reenters at_
  | writeSpin spinCount =>
    simp only [at_] at taken
    split at taken
    · split at taken
      · rename_i empty
        cases taken
        exact .takes at_ empty.1
      · cases taken
        exact .fails at_
    · split at taken
      · cases taken
        exact .givesUp at_
      · cases taken
        exact .crashes
  | writeAcquired =>
    simp only [at_,Option.some.injEq] at taken
    exact taken ▸ .counts at_
  | readLoad =>
    simp only [at_] at taken
    split at taken
    · rename_i mine
      cases taken
      exact .ownsToo at_ mine
    · rename_i other
      cases taken
      exact .asksToo at_ other
  | readReenter =>
    simp only [at_,Option.some.injEq] at taken
    exact taken ▸ .adds at_
  | readSpinLoad spinCount =>
    simp only [at_] at taken
    split at taken
    · cases taken
      exact .loads at_
    · split at taken
      · cases taken
        exact .again at_
      · cases taken
        exact .crashes
  | readSpinSwap spinCount expected =>
    simp only [at_] at taken
    split at taken
    · rename_i same
      cases taken
      cases same
      exact .swaps at_
    · cases taken
      exact .failsToo at_

theorem step_moves (taken : stepAs id s event = some next) (locking : Locking s event) (attempts : Attempts (s.position event.1)) :
    Moves id s event next := by
  obtain ⟨t,choice⟩ := event
  unfold stepAs at taken
  split at taken
  · cases taken
  · cases choice with
    | go favourable => exact .goes (proceed_goes taken attempts)
    | call call =>
      simp only at taken
      split at taken
      · rename_i outside
        cases call with
        | writeUnlock => exact absurd rfl locking.1
        | readUnlock => exact absurd rfl locking.2
        | readLock =>
          cases taken
          exact .reads outside
        | writeLock =>
          simp only [enter] at taken
          split at taken
          · cases taken
          · cases taken
            exact .writes outside
      · cases taken

theorem Goes.held {number : UInt32} (goes : Goes number s t next) (u : Thread) : (s.held u).count .read ≤ (next.held u).count .read := by
  have more (mode : Mode) : (s.held u).count .read ≤ (Function.update s.held t (mode :: s.held t) u).count .read := by
    by_cases me : u = t
    · subst me
      simpa using List.count_le_count_cons
    · simp [me]
  cases goes with
  | reenters | givesUp | counts => exact more .write
  | adds | swaps => exact more .read
  | _ => exact Nat.le_refl _

theorem opens_grows [Fintype Thread] (moves : Moves id s event next) : opens s ≤ opens next := by
  cases moves with
  | writes | reads => exact Nat.le_refl _
  | goes goes => exact Finset.sum_le_sum fun u _ => goes.held u

theorem placed_everywhere {Place : Position → Prop} {position : Position} (before : ∀ u, Place (s.position u)) (place : Place position)
    (u : Thread) : Place (Function.update s.position t position u) := by
  by_cases me : u = t
  · subst me
    simpa using place
  · simpa [me] using before u

theorem moves_attempts (attempts : ∀ u, Attempts (s.position u)) (moves : Moves id s event next) : ∀ u, Attempts (next.position u) := by
  cases moves with
  | writes | reads => exact placed_everywhere attempts trivial
  | goes goes =>
    cases goes with
    | crashes => exact attempts
    | _ => exact placed_everywhere attempts trivial

omit [DecidableEq Thread] in
theorem opens_mine [Fintype Thread] (a : Thread) : (s.held a).count .read ≤ opens s :=
  Finset.single_le_sum (f := fun t => (s.held t).count .read) (fun _ _ => Nat.zero_le _) (Finset.mem_univ a)

theorem opens_read [Fintype Thread] (flag : UInt32) (t : Thread) : opens ({s with lockFlag := flag}.returned t .read) = opens s + 1 := by
  have before := Finset.add_sum_erase Finset.univ (fun u => (s.held u).count .read) (Finset.mem_univ t)
  have after := Finset.add_sum_erase Finset.univ (fun u => (Function.update s.held t (.read :: s.held t) u).count .read) (Finset.mem_univ t)
  have rest : ∑ u ∈ Finset.univ.erase t, (Function.update s.held t (.read :: s.held t) u).count .read =
      ∑ u ∈ Finset.univ.erase t, (s.held u).count .read :=
    Finset.sum_congr rfl fun u member => by simp [Finset.ne_of_mem_erase member]
  simp only [Function.update_self,List.count_cons_self] at after
  simp only [opens,State.returned]
  omega

theorem bounded_run [Fintype Thread] {Inv : State Thread → Prop} {admits : State Thread → Thread × Choice → Prop} {first : State Thread}
    (path : Runs (Guarded (Enabled (stepAs id)) admits) first events s) (locking : ∀ s event, admits s event → Locking s event)
    (keeps : ∀ s event next, Inv s → Moves id s event next → admits s event → opens next < 2^16 → Inv next)
    (idle : ∀ u, Attempts (first.position u)) (start : Inv first) (room : opens s < 2^16) : Inv s := by
  have both : (∀ u, Attempts (s.position u)) ∧ (opens s < 2^16 → Inv s) := by
    refine @Runs.invariant _ _ _ _ _ _ (fun s => (∀ u, Attempts (s.position u)) ∧ (opens s < 2^16 → Inv s))
      (fun s event next before taken => ?_) path ⟨idle,fun _ => start⟩
    have moves := step_moves taken.1 (locking _ _ taken.2) (before.1 _)
    exact ⟨moves_attempts before.1 moves,
      fun room => keeps _ _ _ (before.2 (Nat.lt_of_le_of_lt (opens_grows moves) room)) moves taken.2 room⟩
  exact both.2 room

def Owning : Position → Prop
  | .outside | .writeLoad | .writeReenter | .readLoad | .readReenter => True
  | _ => False

def Waiting : Position → Prop
  | .outside | .writeLoad | .writeSpin _ | .readLoad | .readSpinLoad _ => True
  | .readSpinSwap _ expected => expected.toNat < 2^16
  | _ => False

structure Kept (id : Thread → UInt32) (a : Thread) (s : State Thread) : Prop where
  flag : s.lockFlag.toNat = (id a).toNat * 2^16 + (s.held a).count .read
  owner : Owning (s.position a)
  others : ∀ u, u ≠ a → Waiting (s.position u)

omit [DecidableEq Thread] in
theorem Kept.thread (kept : Kept id a s) (low : (s.held a).count .read < 2^16) : lockThreadId s.lockFlag = id a := by
  apply UInt32.toNat_inj.mp
  rw [lockThreadId_toNat,kept.flag]
  omega

theorem Kept.went (kept : Kept id a s) {position : Position} {crashed : Bool} {count : UInt16} {held : Thread → List Mode}
    (same : (held a).count .read = (s.held a).count .read) (mine : t = a → Owning position) (other : t ≠ a → Waiting position) :
    Kept id a ⟨s.lockFlag,count,Function.update s.position t position,held,crashed⟩ := by
  refine ⟨same ▸ kept.flag,?_,fun u apart => ?_⟩
  · by_cases me : t = a
    · subst me
      simpa using mine rfl
    · simpa [Ne.symm me] using kept.owner
  · by_cases me : u = t
    · subst me
      simpa using other apart
    · simpa [me] using kept.others u apart

theorem write_reads (held : Thread → List Mode) (t a : Thread) :
    (Function.update held t (.write :: held t) a).count .read = (held a).count .read := by
  by_cases me : a = t
  · subst me
    simp
  · simp [me]

theorem goes_kept (distinct : Function.Injective id) (nonzero : id a ≠ 0) (small : (id a).toNat < 2^16) (kept : Kept id a s)
    (goes : Goes (id t) s t next) (room : (next.held a).count .read < 2^16) : Kept id a next := by
  have before := Nat.lt_of_le_of_lt (goes.held a) room
  have thread := kept.thread before
  have positive : 0 < (id a).toNat := Nat.pos_of_ne_zero fun zero => nonzero (UInt32.toNat_inj.mp zero)
  have flag := kept.flag
  -- Who passes the test is the owner, and the owner is at none of the other places.
  have mine (same : id t = lockThreadId s.lockFlag) : t = a := distinct (same.trans thread)
  have other (apart : id t ≠ lockThreadId s.lockFlag) : t ≠ a := fun same => apart (same ▸ thread.symm)
  have owner (me : t = a) : Owning (s.position t) := me ▸ kept.owner
  have waits := kept.others t
  cases goes with
  | owns at_ same => exact kept.went rfl (fun _ => trivial) fun apart => absurd (mine same) apart
  | asks at_ apart => exact kept.went rfl (fun me => absurd me (other apart)) fun _ => trivial
  | reenters at_ => exact kept.went (write_reads _ _ _) (fun _ => trivial) fun _ => trivial
  | takes at_ empty =>
    have zero : s.lockFlag.toNat = 0 := by rw [empty]; rfl
    omega
  | fails at_ => exact kept.went rfl (fun me => by simpa [at_,Owning] using owner me) fun _ => trivial
  | givesUp at_ => exact kept.went (write_reads _ _ _) (fun _ => trivial) fun _ => trivial
  | crashes => exact ⟨kept.flag,kept.owner,kept.others⟩
  | counts at_ => exact kept.went (write_reads _ _ _) (fun _ => trivial) fun _ => trivial
  | ownsToo at_ same => exact kept.went rfl (fun _ => trivial) fun apart => absurd (mine same) apart
  | asksToo at_ apart => exact kept.went rfl (fun me => absurd me (other apart)) fun _ => trivial
  | adds at_ =>
    have me : t = a := by
      by_contra apart
      simpa [at_,Waiting] using waits apart
    subst me
    have one : (1 : UInt32).toNat = 1 := rfl
    have deep : (s.held t).count .read + 1 < 2^16 := by simpa [State.returned] using room
    refine ⟨?_,?_,fun u apart => ?_⟩
    · have sum : (s.lockFlag + 1).toNat = s.lockFlag.toNat + 1 := by
        rw [UInt32.toNat_add,one]
        omega
      simp only [State.returned,Function.update_self,List.count_cons_self,sum,flag]
      omega
    · simp [State.returned,Owning]
    · simpa [State.returned,apart] using kept.others u apart
  | loads at_ =>
    refine kept.went rfl (fun me => by simpa [at_,Owning] using owner me) fun _ => ?_
    show (readCount s.lockFlag).toNat < 2^16
    rw [readCount_toNat]
    exact Nat.mod_lt _ (by decide)
  | again at_ => exact kept.went rfl (fun me => by simpa [at_,Owning] using owner me) fun _ => trivial
  | swaps at_ =>
    have apart : t ≠ a := fun me => by simpa [at_,Owning] using owner me
    have low : s.lockFlag.toNat < 2^16 := by simpa [at_,Waiting] using waits apart
    omega
  | failsToo at_ => exact kept.went rfl (fun me => by simpa [at_,Owning] using owner me) fun _ => trivial

theorem kept_always [Fintype Thread] (distinct : Function.Injective id) (nonzero : id a ≠ 0) (small : (id a).toNat < 2^16)
    (path : Runs (Guarded (Enabled (stepAs id)) Locking) (owned id a) events s) (room : opens s < 2^16) : Kept id a s := by
  have start : Kept id a (owned id a) := ⟨by simp [owned,desired_toNat _ small],trivial,fun _ _ => trivial⟩
  refine bounded_run path (fun _ _ locking => locking) (fun s event next kept moves _ room => ?_) (fun _ => trivial) start room
  · cases moves with
    | writes outside => exact kept.went rfl (fun _ => trivial) fun _ => trivial
    | reads outside => exact kept.went rfl (fun _ => trivial) fun _ => trivial
    | goes goes => exact goes_kept distinct nonzero small kept goes (Nat.lt_of_le_of_lt (opens_mine a) room)

def Unowned : Position → Prop
  | .outside | .readLoad | .readSpinLoad _ | .readSpinSwap _ _ => True
  | _ => False

structure Read [Fintype Thread] (s : State Thread) : Prop where
  flag : s.lockFlag.toNat = opens s
  places : ∀ u, Unowned (s.position u)

omit [DecidableEq Thread] in
theorem Read.nobody [Fintype Thread] (read : Read s) (room : opens s < 2^16) : lockThreadId s.lockFlag = 0 := by
  apply UInt32.toNat_inj.mp
  rw [lockThreadId_toNat,read.flag,Nat.div_eq_of_lt room]
  rfl

theorem Read.went [Fintype Thread] (read : Read s) {position : Position} (place : Unowned position) : Read (s.goto t position) :=
   ⟨read.flag,placed_everywhere read.places place⟩

theorem Read.added [Fintype Thread] (read : Read s) (room : opens s + 1 < 2^16) : Read ({s with lockFlag := s.lockFlag + 1}.returned t .read) := by
  refine ⟨?_,placed_everywhere read.places trivial⟩
  have one : (1 : UInt32).toNat = 1 := rfl
  have flag := read.flag
  rw [opens_read]
  show (s.lockFlag + 1).toNat = _
  rw [UInt32.toNat_add,one]
  omega

theorem goes_read [Fintype Thread] (nonzero : id t ≠ 0) (read : Read s) (goes : Goes (id t) s t next) (room : opens next < 2^16) : Read next := by
  have place := read.places t
  have before : opens s ≤ opens next := Finset.sum_le_sum fun u _ => goes.held u
  cases goes with
  | owns at_ | asks at_ | reenters at_ | takes at_ | fails at_ | givesUp at_ | counts at_ | adds at_ => simp [at_,Unowned] at place
  | ownsToo at_ mine => exact absurd (mine.trans (read.nobody room)) nonzero
  | crashes => exact ⟨read.flag,read.places⟩
  | asksToo | loads | again | failsToo => exact read.went trivial
  | swaps at_ =>
    rw [opens_read] at room
    exact read.added room

theorem read_always [Fintype Thread] (nonzero : ∀ t, id t ≠ 0)
    (path : Runs (Guarded (Enabled (stepAs id)) Reading) State.start events s) (room : opens s < 2^16) : Read s := by
  have start : Read (State.start : State Thread) := ⟨by simp [opens,State.start,emptyFlag],fun _ => trivial⟩
  refine bounded_run path (fun _ _ reading => reading.1) (fun s event next read moves reading room => ?_) (fun _ => trivial) start room
  cases moves with
  | writes => exact absurd rfl reading.2
  | reads => exact read.went trivial
  | goes goes => exact goes_read (nonzero _) read goes room

theorem read_run (outside : s.position t = .outside) (alive : s.crashed = false) (unowned : id t ≠ lockThreadId s.lockFlag)
    (whole : readCount s.lockFlag = s.lockFlag) : Runs (Guarded (Enabled (stepAs id)) Reading) s
      [(t,.call .readLock),(t,.go true),(t,.go true),(t,.go true)] ({s with lockFlag := s.lockFlag + 1}.returned t .read) := by
  have spins : 0 < maxSpinCount := by decide
  refine guard_runs ?_
  simp [execute,TransitionSystem.guard,Reading,Locking,stepAs,enter,proceedAs,State.goto,State.returned,outside,alive,unowned,whole,spins]

def readers (a : Thread) (k : Nat) : State Thread :=
  ⟨UInt32.ofNat k,0,fun _ => .outside,Function.update (fun _ => []) a (List.replicate k .read),false⟩

theorem readers_succ (a : Thread) (k : Nat) :
    {readers a k with lockFlag := (readers a k).lockFlag + 1}.returned a .read = readers a (k + 1) := by
  have sum : UInt32.ofNat k + 1 = UInt32.ofNat (k + 1) := (UInt32.ofNat_add k 1).symm
  have idle : Function.update (fun _ : Thread => Position.outside) a .outside = fun _ => .outside := Function.update_eq_self a _
  simp only [readers,State.returned,sum,idle,Function.update_self,Function.update_idem,List.replicate_succ]

theorem opens_readers [Fintype Thread] (a : Thread) (k : Nat) : opens (readers a k) = k := by
  rw [opens,Finset.sum_eq_single a (fun u _ other => by simp [readers,other]) (by simp)]
  simp [readers]

theorem readers_run (nonzero : id a ≠ 0) {k : Nat} (small : k ≤ 2^16) :
    ∃ events, Runs (Guarded (Enabled (stepAs id)) Reading) State.start events (readers a k) := by
  induction k with
  | zero =>
    have start : readers a 0 = State.start := by simp [readers,State.start,emptyFlag]
    exact ⟨[],start ▸ .nil⟩
  | succ k ih =>
    obtain ⟨events,path⟩ := ih (by omega)
    have value : (UInt32.ofNat k).toNat = k := by
      rw [UInt32.toNat_ofNat']
      omega
    have unowned : id a ≠ lockThreadId (UInt32.ofNat k) := by
      intro same
      refine nonzero (UInt32.toNat_inj.mp ?_)
      rw [same,lockThreadId_toNat,value,Nat.div_eq_of_lt small]
      rfl
    have whole : readCount (UInt32.ofNat k) = UInt32.ofNat k := by
      apply UInt32.toNat_inj.mp
      rw [readCount_toNat,value,Nat.mod_eq_of_lt small]
    have one := @read_run _ _ id (readers a k) a rfl rfl unowned whole
    rw [readers_succ] at one
    exact ⟨_,path.append one⟩

theorem identity_kept [Fintype Thread] (distinct : Function.Injective id) (nonzero : ∀ t, id t ≠ 0) (apart : b ≠ a)
    (small : (id a).toNat < 2^16) (few : n < 2^16) : Identified id a b n := by
  have positive : (id a).toNat ≠ 0 := fun zero => nonzero a (UInt32.toNat_inj.mp zero)
  refine ⟨fun empty => ?_,fun events s path most => ?_,fun events s path most c some_ looks => some_ ?_⟩
  · have zero := congrArg UInt32.toNat empty
    rw [desired_toNat _ small] at zero
    have none : emptyFlag.toNat = 0 := rfl
    omega
  · have kept := kept_always distinct (nonzero a) small path (by omega)
    have thread := kept.thread (Nat.lt_of_le_of_lt (opens_mine a) (by omega))
    exact ⟨thread.symm,fun looks => apart (distinct (looks.trans thread))⟩
  · have read := read_always nonzero path (by omega)
    exact looks.trans (read.nobody (by omega))

-- An id that does not fit is not what the flag says; 2^16 ReadLocks are taken for a WriteLock of
-- the thread with id 1.
theorem identity_exact [Fintype Thread] (distinct : Function.Injective id) (nonzero : ∀ t, id t ≠ 0) (apart : b ≠ a) :
    Identified id a b n ↔ (id a).toNat < 2^16 ∧ n < 2^16 := by
  refine ⟨fun identified => ⟨?_,?_⟩,fun ⟨small,few⟩ => identity_kept distinct nonzero apart small few⟩
  · have none : opens (owned id a) = 0 := by
      refine Finset.sum_eq_zero fun u _ => ?_
      by_cases me : u = a
      · subst me
        simp [owned]
      · simp [owned,me]
    have mine := (identified.kept [] _ .nil (by omega)).1
    have bound := (lockThreadId_toNat (desired (id a))).le
    have flag := (desired (id a)).toNat_lt
    rw [mine]
    show (lockThreadId (desired (id a))).toNat < 2^16
    omega
  · by_contra many
    obtain ⟨events,path⟩ := readers_run (nonzero a) (Nat.le_refl (2^16))
    have owner : (1 : UInt32) = lockThreadId (UInt32.ofNat (2^16)) := by decide
    exact identified.free events _ path (by rw [opens_readers]; omega) 1 (by decide) owner

theorem identity_exact_pair : Identified pair.id false true 10 ↔ (pair.id false).toNat < 2^16 ∧ 10 < 2^16 :=
  identity_exact pair.distinct (by decide) (by decide)

-- The first thread and the one after 65535 others.
def farApart (t : Bool) : UInt32 := if t then 1 else 0x10000

theorem identity_lost : ¬ ∀ (id : Bool → UInt32) (a b : Bool) (n : Nat), Function.Injective id → (∀ t, id t ≠ 0) → b ≠ a → Identified id a b n := by
  intro every
  have identified := every farApart false true 0 (by decide) (by decide) (by decide)
  exact identified.taken (by decide)

end IocpChatServer.ServerCore.Lock
