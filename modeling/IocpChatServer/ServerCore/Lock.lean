import Mathlib.Data.Fintype.Basic
import Mathlib.Algebra.BigOperators.Group.Finset.Basic
import IocpChatServer.Foundations.TransitionSystem

namespace IocpChatServer.ServerCore.Lock
open Foundations TransitionSystem

-- [WWWWWWWW][WWWWWWWW][RRRRRRRR][RRRRRRRR] of `lockFlag`: owner of the write lock, open reads.
def writeThreadMask : UInt32 := 0xFFFF0000
def readCountMask : UInt32 := 0x0000FFFF
def emptyFlag : UInt32 := 0
def maxSpinCount : Nat := 5000

def lockThreadId (flag : UInt32) : UInt32 := (flag &&& writeThreadMask) >>> 16
def readCount (flag : UInt32) : UInt32 := flag &&& readCountMask
def desired (id : UInt32) : UInt32 := (id <<< 16) &&& writeThreadMask

theorem lockThreadId_toNat (flag : UInt32) : (lockThreadId flag).toNat = flag.toNat / 2^16 := by
  have bound := flag.toNat_lt
  have high : flag.toNat >>> 16 < 2^16 := by rw [Nat.shiftRight_eq_div_pow]; omega
  simp only [lockThreadId,writeThreadMask,UInt32.toNat_shiftRight,UInt32.toNat_and]
  change (flag.toNat &&& 0xFFFF0000) >>> 16 = _
  rw [Nat.shiftRight_and_distrib]
  change flag.toNat >>> 16 &&& (2^16 - 1) = _
  rw [Nat.and_two_pow_sub_one_eq_mod,Nat.mod_eq_of_lt high,Nat.shiftRight_eq_div_pow]

theorem readCount_toNat (flag : UInt32) : (readCount flag).toNat = flag.toNat % 2^16 := by
  simp only [readCount,readCountMask,UInt32.toNat_and]
  exact Nat.and_two_pow_sub_one_eq_mod flag.toNat 16

theorem desired_toNat (id : UInt32) (small : id.toNat < 2^16) : (desired id).toNat = id.toNat * 2^16 := by
  simp only [desired,writeThreadMask,UInt32.toNat_shiftLeft,UInt32.toNat_and]
  change (id.toNat <<< 16 % 2^32) &&& 0xFFFF0000 = _
  have whole : id.toNat <<< 16 % 2^32 = id.toNat <<< 16 := by
    rw [Nat.shiftLeft_eq]
    exact Nat.mod_eq_of_lt (by omega)
  rw [whole]
  change id.toNat <<< 16 &&& ((2^16 - 1) <<< 16) = _
  rw [← Nat.shiftLeft_and_distrib,Nat.and_two_pow_sub_one_eq_mod,Nat.mod_eq_of_lt small,Nat.shiftLeft_eq]

-- Where a thread is in the four functions. Each position is one atomic access to the
-- flag, one update of the count, or one test of the elapsed time.
inductive Position where
  | outside
  | writeLoad
  | writeReenter
  | writeSpin (spinCount : Nat)
  | writeAcquired
  | writeUnlockLoad
  | writeUnlockCount
  | writeUnlockStore
  | readLoad
  | readReenter
  | readSpinLoad (spinCount : Nat)
  | readSpinSwap (spinCount : Nat) (expected : UInt32)
  | readUnlock
  deriving DecidableEq, Repr

inductive Mode where
  | write | read
  deriving DecidableEq, Repr

inductive Call where
  | writeLock | writeUnlock | readLock | readUnlock
  deriving DecidableEq, Repr

-- What the code does not decide: which function a thread calls next, whether a weak
-- exchange fails spuriously, whether the elapsed time is still below the timeout.
inductive Choice where
  | call (call : Call)
  | go (favourable : Bool)
  deriving DecidableEq, Repr

-- `held` is the thread's own stack of calls that have returned and whose unlock has not begun.
structure State (Thread : Type _) where
  lockFlag : UInt32
  writeCount : UInt16
  position : Thread → Position
  held : Thread → List Mode
  crashed : Bool

variable {Thread : Type _} [DecidableEq Thread]

-- Thread ids as they fit the 16 bits the flag has for its owner.
structure Ids (Thread : Type _) where
  id : Thread → UInt32
  positive : ∀ t, 0 < (id t).toNat
  small : ∀ t, (id t).toNat < 2^16
  distinct : Function.Injective id

namespace State

def start : State Thread := ⟨emptyFlag,0,fun _ => .outside,fun _ => [],false⟩

def goto (s : State Thread) (t : Thread) (position : Position) : State Thread :=
  {s with position := Function.update s.position t position}

def returned (s : State Thread) (t : Thread) (mode : Mode) : State Thread :=
  {s with position := Function.update s.position t .outside,held := Function.update s.held t (mode :: s.held t)}
def begun (s : State Thread) (t : Thread) (rest : List Mode) (position : Position) : State Thread :=
  {s with position := Function.update s.position t position,held := Function.update s.held t rest}

def crash (s : State Thread) : State Thread := {s with crashed := true}

end State

-- Calls are well nested, and no WriteLock is taken under a read lock of the same thread.
def enter (s : State Thread) (t : Thread) : Call → Option (State Thread)
  | .writeLock => if .read ∈ s.held t then none else some (s.goto t .writeLoad)
  | .readLock => some (s.goto t .readLoad)
  | .writeUnlock =>
    match s.held t with
    | .write :: rest => some (s.begun t rest .writeUnlockLoad)
    | _ => none
  | .readUnlock =>
    match s.held t with
    | .read :: rest => some (s.begun t rest .readUnlock)
    | _ => none

-- The step a thread inside one of the functions takes next. CRASH is the end of the process.
def proceedAs (id : UInt32) (s : State Thread) (t : Thread) (favourable : Bool) : Option (State Thread) :=
  match s.position t with
  | .outside => none
  | .writeLoad =>
    if id = lockThreadId s.lockFlag then some (s.goto t .writeReenter) else some (s.goto t (.writeSpin 0))
  | .writeReenter => some ({s with writeCount := s.writeCount + 1}.returned t .write)
  | .writeSpin spinCount =>
    if spinCount < maxSpinCount then
      if s.lockFlag = emptyFlag ∧ favourable then
        some ({s with lockFlag := desired id}.goto t .writeAcquired)
      else some (s.goto t (.writeSpin (spinCount + 1)))
    else if favourable then some (s.returned t .write)
    else some s.crash
  | .writeAcquired => some ({s with writeCount := s.writeCount + 1}.returned t .write)
  | .writeUnlockLoad =>
    if readCount s.lockFlag ≠ 0 then some s.crash else some (s.goto t .writeUnlockCount)
  | .writeUnlockCount =>
    let lockCount := s.writeCount - 1
    if lockCount = 0 then some ({s with writeCount := lockCount}.goto t .writeUnlockStore)
    else some ({s with writeCount := lockCount}.goto t .outside)
  | .writeUnlockStore => some ({s with lockFlag := emptyFlag}.goto t .outside)
  | .readLoad =>
    if id = lockThreadId s.lockFlag then some (s.goto t .readReenter) else some (s.goto t (.readSpinLoad 0))
  | .readReenter => some ({s with lockFlag := s.lockFlag + 1}.returned t .read)
  | .readSpinLoad spinCount =>
    if spinCount < maxSpinCount then some (s.goto t (.readSpinSwap spinCount (readCount s.lockFlag)))
    else if favourable then some (s.goto t (.readSpinLoad 0))
    else some s.crash
  | .readSpinSwap spinCount expected =>
    if s.lockFlag = expected then some ({s with lockFlag := expected + 1}.returned t .read)
    else some (s.goto t (.readSpinLoad (spinCount + 1)))
  | .readUnlock =>
    let after := {s with lockFlag := s.lockFlag - 1}
    if readCount s.lockFlag = 0 then some after.crash else some (after.goto t .outside)

def stepAs (id : Thread → UInt32) (s : State Thread) (event : Thread × Choice) : Option (State Thread) :=
  if s.crashed then none
  else match event.2 with
  | .call call => if s.position event.1 = .outside then enter s event.1 call else none
  | .go favourable => proceedAs (id event.1) s event.1 favourable

def proceed (ids : Ids Thread) (s : State Thread) (t : Thread) (favourable : Bool) : Option (State Thread) :=
  proceedAs (ids.id t) s t favourable

def step (ids : Ids Thread) : State Thread → Thread × Choice → Option (State Thread) := stepAs ids.id

-- While a thread is between the return of its WriteLock and the matching WriteUnlock, no
-- other thread is between a lock call and its unlock.
def Exclusive (s : State Thread) : Prop := ∀ t u, u ≠ t → .write ∈ s.held t → s.held u = []

end IocpChatServer.ServerCore.Lock
