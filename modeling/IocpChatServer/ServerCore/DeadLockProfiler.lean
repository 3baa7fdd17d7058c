import Mathlib.Data.List.Sort
import Mathlib.Logic.Function.Basic

namespace IocpChatServer.ServerCore.DeadLockProfiler

-- `_lockHistory`: for a lock id with an entry, the ids of its set in ascending order.
abbrev LockHistory := Nat → Option (List Nat)

-- The working arrays of one CheckCycle. -1 stands for not discovered and for no parent.
structure Search where
  discoveredOrder : Nat → Int
  discoveredCount : Nat
  finished : Nat → Bool
  parent : Nat → Int

-- How a search ends the process: CRASH("DEADLOCK_DETECTED"), or the walk along `_parent`
-- reads at -1. `printed` are the arrows the reporting loop has printed. `deep` is an
-- exhausted bound on the recursion, which no search over known ids reaches.
inductive Stop where
  | deadlockDetected (printed : List (Nat × Nat))
  | outOfRange (printed : List (Nat × Nat))
  | deep
  deriving DecidableEq, Repr

def report (parent : Nat → Int) (there : Nat) : Nat → Nat → List (Nat × Nat) → Stop
  | 0,_,_ => .deep
  | fuel + 1,now,printed =>
    match parent now with
    | .negSucc _ => .outOfRange printed
    | .ofNat above =>
      if above = there then .deadlockDetected (printed ++ [(above,now)])
      else report parent there fuel above (printed ++ [(above,now)])

def examine (dfs : Nat → Search → Except Stop Search) (here : Nat) (s : Search) (there : Nat) : Except Stop Search :=
  if s.discoveredOrder there = -1 then dfs there {s with parent := Function.update s.parent there here}
  else if s.discoveredOrder here < s.discoveredOrder there then .ok s
  else if s.finished there = false then .error (report s.parent there s.discoveredCount here [(here,there)])
  else .ok s

def dfs (lockHistory : LockHistory) : Nat → Nat → Search → Except Stop Search
  | 0,_,_ => .error .deep
  | fuel + 1,here,s =>
    if s.discoveredOrder here ≠ -1 then .ok s
    else
      let s := {s with
        discoveredOrder := Function.update s.discoveredOrder here s.discoveredCount
        discoveredCount := s.discoveredCount + 1}
      match lockHistory here with
      | none => .ok {s with finished := Function.update s.finished here true}
      | some nextSet => nextSet.foldlM (examine (dfs lockHistory fuel) here) s

def fresh : Search := ⟨fun _ => -1,0,fun _ => false,fun _ => -1⟩

def checkCycle (lockHistory : LockHistory) (lockCount : Nat) : Except Stop Unit := do
  let _ ← (List.range lockCount).foldlM (fun s lockId => dfs lockHistory lockCount lockId s) fresh
  return ()

-- The profiler between two calls. `_idToname` only names the ids in what is printed; `_lock`
-- makes each call one step.
structure Profiler (Name Thread : Type _) where
  nameToId : Name → Option Nat
  nameCount : Nat
  lockHistory : LockHistory
  lockStack : Thread → List Nat

inductive Crash where
  | found (stop : Stop)
  | multipleUnlock
  | invalidUnlock
  deriving DecidableEq, Repr

variable {Name Thread : Type _} [DecidableEq Name] [DecidableEq Thread]

namespace Profiler

def start : Profiler Name Thread := ⟨fun _ => none,0,fun _ => none,fun _ => []⟩

-- find, and for a new name the next id.
def lockId (p : Profiler Name Thread) (name : Name) : Nat × Profiler Name Thread :=
  match p.nameToId name with
  | some lockId => (lockId,p)
  | none => (p.nameCount,{p with
      nameToId := Function.update p.nameToId name (some p.nameCount),nameCount := p.nameCount + 1})

def restack (p : Profiler Name Thread) (thread : Thread) (stack : List Nat) : Profiler Name Thread :=
  {p with lockStack := Function.update p.lockStack thread stack}

def push (p : Profiler Name Thread) (thread : Thread) (lockId : Nat) : Profiler Name Thread :=
  p.restack thread (lockId :: p.lockStack thread)

def record (p : Profiler Name Thread) (prevId lockId : Nat) : Profiler Name Thread :=
  let history := ((p.lockHistory prevId).getD []).orderedInsert (· ≤ ·) lockId
  {p with lockHistory := Function.update p.lockHistory prevId (some history)}

def pushLock (p : Profiler Name Thread) (thread : Thread) (name : Name) : Except Crash (Profiler Name Thread) :=
  let (lockId,p) := p.lockId name
  match p.lockStack thread with
  | [] => .ok (p.push thread lockId)
  | prevId :: _ =>
    if lockId = prevId then .ok (p.push thread lockId)
    else if lockId ∈ (p.lockHistory prevId).getD [] then .ok (p.push thread lockId)
    else
      let p := p.record prevId lockId
      match checkCycle p.lockHistory p.nameCount with
      | .error stop => .error (.found stop)
      | .ok () => .ok (p.push thread lockId)

-- `_nameToid[name]` gives a name not seen before the id 0.
def indexId (p : Profiler Name Thread) (name : Name) : Nat × Profiler Name Thread :=
  match p.nameToId name with
  | some lockId => (lockId,p)
  | none => (0,{p with nameToId := Function.update p.nameToId name (some 0),nameCount := p.nameCount + 1})

def popLock (p : Profiler Name Thread) (thread : Thread) (name : Name) : Except Crash (Profiler Name Thread) :=
  match p.lockStack thread with
  | [] => .error .multipleUnlock
  | top :: rest =>
    let (lockId,p) := p.indexId name
    if top ≠ lockId then .error .invalidUnlock
    else .ok (p.restack thread rest)

end Profiler

inductive Call where
  | pushLock | popLock
  deriving DecidableEq, Repr

def step (p : Profiler Name Thread) (event : Thread × Call × Name) : Option (Profiler Name Thread) :=
  match event with
  | (thread,.pushLock,name) => (p.pushLock thread name).toOption
  | (thread,.popLock,name) => (p.popLock thread name).toOption

end IocpChatServer.ServerCore.DeadLockProfiler
