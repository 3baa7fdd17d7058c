import Mathlib.Algebra.Order.Ring.Int
import Mathlib.Data.Finset.Card
import Mathlib.Data.Finset.Image
import Mathlib.Logic.Function.Basic

namespace IocpChatServer.ServerCore.RefCounting

-- A TSharedPtr by where it stands: by itself, or as a member of an object.
inductive SharedPtr where
  | loose (name : Nat)
  | member (object index : Nat)
  deriving DecidableEq, Repr

def SharedPtr.owner : SharedPtr → Option Nat
  | .loose _ => none
  | .member object _ => some object

-- Dying: from delete this on, until the last member has been destroyed.
inductive Fate where
  | alive | dying | freed
  deriving DecidableEq, Repr

-- With the number of its TSharedPtr members, and whether the constructor's count has been given up.
structure RefCountable where
  refCount : Int := 1
  members : Nat := 0
  fate : Fate := .alive
  given : Bool := false
  deriving DecidableEq, Repr

def RefCountable.own (object : RefCountable) : Nat := if object.given then 0 else 1

structure Heap where
  made : Nat := 0
  object : Nat → RefCountable := fun _ => {}
  live : Finset SharedPtr := ∅
  ptr : SharedPtr → Option Nat := fun _ => none

-- Dangling: a TSharedPtr or an object that is no more has been used.
inductive Fault where
  | dangling | tooDeep
  deriving DecidableEq, Repr

abbrev Result := Except Fault

def int32 (value : Int) : Int := value.bmod (2 ^ 32)

def Heap.change (s : Heap) (o : Nat) (f : RefCountable → RefCountable) : Heap :=
  { s with object := Function.update s.object o (f (s.object o)) }

def Heap.point (s : Heap) (v : SharedPtr) (target : Option Nat) : Heap := { s with ptr := Function.update s.ptr v target }

def Heap.drop (s : Heap) (v : SharedPtr) : Heap := { s with live := s.live.erase v }

def Heap.read (s : Heap) (v : SharedPtr) : Result (Option Nat) := if v ∈ s.live then .ok (s.ptr v) else .error .dangling

def Heap.write (s : Heap) (v : SharedPtr) (target : Option Nat) : Result Heap :=
  if v ∈ s.live then .ok (s.point v target) else .error .dangling

def Heap.count (s : Heap) (o : Nat) (change : Int) : Result Heap :=
  if (s.object o).fate = .freed then .error .dangling
  else .ok (s.change o fun object => { object with refCount := int32 (object.refCount + change) })

def Heap.addRef (s : Heap) (o : Nat) : Result Heap := s.count o 1

-- TSharedPtr::Release.
def Heap.releaseBy (releaseRef : Heap → Nat → Result Heap) (s : Heap) (v : SharedPtr) : Result Heap := do
  match ← s.read v with
  | none => return s
  | some o => (← releaseRef s o).write v none

def Heap.destructBy (releaseRef : Heap → Nat → Result Heap) (s : Heap) (v : SharedPtr) : Result Heap := do
  return (← s.releaseBy releaseRef v).drop v

-- delete this: the members go in the reverse order of their declaration.
def Heap.deleteBy (releaseRef : Heap → Nat → Result Heap) (s : Heap) (o : Nat) : Result Heap := do
  let s := s.change o fun object => { object with fate := .dying }
  let s ← (List.range (s.object o).members).reverse.foldlM (fun s index => s.destructBy releaseRef (.member o index)) s
  return s.change o fun object => { object with fate := .freed }

-- RefCountable::ReleaseRef, so many calls deep at most.
def Heap.releaseRef : Nat → Heap → Nat → Result Heap
  | 0,_,_ => .error .tooDeep
  | depth + 1,s,o => do
    let s ← s.count o (-1)
    if (s.object o).refCount = 0 then s.deleteBy (Heap.releaseRef depth) o
    else return s

def Heap.release (s : Heap) (v : SharedPtr) : Result Heap := s.releaseBy (Heap.releaseRef (s.made + 1)) v

def Heap.set (s : Heap) (v : SharedPtr) (target : Option Nat) : Result Heap := do
  let s ← s.write v target
  match target with
  | none => return s
  | some o => s.addRef o

-- A TSharedPtr comes into being as nullptr.
def Heap.begin (s : Heap) (v : SharedPtr) : Heap := { s with live := insert v s.live, ptr := Function.update s.ptr v none }

inductive Call where
  | create (members : Nat)
  | construct (v : SharedPtr) (target : Option Nat)
  | copyConstruct (v rhs : SharedPtr)
  | moveConstruct (v rhs : SharedPtr)
  | copyAssign (lhs rhs : SharedPtr)
  | moveAssign (lhs rhs : SharedPtr)
  | destruct (v : SharedPtr)
  | releaseRef (o : Nat)
  deriving DecidableEq, Repr

def membersOf (o members : Nat) : Finset SharedPtr := (Finset.range members).image (SharedPtr.member o)

def Heap.create (s : Heap) (members : Nat) : Heap where
  made := s.made + 1
  object := Function.update s.object s.made { members := members }
  live := s.live ∪ membersOf s.made members
  ptr v := if v.owner = some s.made then none else s.ptr v

def Heap.giveUp (s : Heap) (o : Nat) : Heap := s.change o fun object => { object with given := true }

def Heap.perform (s : Heap) : Call → Result Heap
  | .create members => return s.create members
  | .construct v target => (s.begin v).set v target
  | .copyConstruct v rhs => do
    let s := s.begin v
    s.set v (← s.read rhs)
  | .moveConstruct v rhs => do
    let s := s.begin v
    let s ← s.write v (← s.read rhs)
    s.write rhs none
  | .copyAssign lhs rhs => do
    if (← s.read lhs) ≠ (← s.read rhs) then
      let s ← s.release lhs
      s.set lhs (← s.read rhs)
    else return s
  | .moveAssign lhs rhs => do
    let s ← s.release lhs
    let s ← s.write lhs (← s.read rhs)
    s.write rhs none
  | .destruct v => s.destructBy (Heap.releaseRef (s.made + 1)) v
  | .releaseRef o => Heap.releaseRef (s.made + 1) (s.giveUp o) o

def Heap.run (s : Heap) (calls : List Call) : Result Heap := calls.foldlM Heap.perform s

def Heap.Alive (s : Heap) (o : Nat) : Prop := o < s.made ∧ (s.object o).fate = .alive

instance (s : Heap) (o : Nat) : Decidable (s.Alive o) := inferInstanceAs (Decidable (_ ∧ _))

-- What the callers of the class keep to.
def Heap.Enabled (s : Heap) : Call → Prop
  | .create _ => True
  | .construct v target => (v.owner = none ∧ v ∉ s.live) ∧ ∀ o ∈ target, s.Alive o
  | .copyConstruct v rhs | .moveConstruct v rhs => (v.owner = none ∧ v ∉ s.live) ∧ rhs ∈ s.live
  | .copyAssign lhs rhs | .moveAssign lhs rhs => lhs ∈ s.live ∧ rhs ∈ s.live
  | .destruct v => v.owner = none ∧ v ∈ s.live
  | .releaseRef o => s.Alive o ∧ (s.object o).given = false

instance Heap.decidableEnabled (s : Heap) : (call : Call) → Decidable (s.Enabled call)
  | .create _ => inferInstanceAs (Decidable True)
  | .construct v target => inferInstanceAs (Decidable ((v.owner = none ∧ v ∉ s.live) ∧ ∀ o ∈ target, s.Alive o))
  | .copyConstruct v rhs | .moveConstruct v rhs => inferInstanceAs (Decidable ((v.owner = none ∧ v ∉ s.live) ∧ rhs ∈ s.live))
  | .copyAssign lhs rhs | .moveAssign lhs rhs => inferInstanceAs (Decidable (lhs ∈ s.live ∧ rhs ∈ s.live))
  | .destruct v => inferInstanceAs (Decidable (v.owner = none ∧ v ∈ s.live))
  | .releaseRef o => inferInstanceAs (Decidable (s.Alive o ∧ (s.object o).given = false))

def Heap.Follows (admits : Heap → Call → Prop) : Heap → List Call → Prop
  | _,[] => True
  | s,call :: later => admits s call ∧ ∀ next, s.perform call = .ok next → next.Follows admits later

instance Heap.decidableFollows (admits : Heap → Call → Prop) [∀ s call, Decidable (admits s call)] :
    (s : Heap) → (calls : List Call) → Decidable (s.Follows admits calls)
  | _,[] => inferInstanceAs (Decidable True)
  | s,call :: later =>
    have rest : Decidable (∀ next, s.perform call = .ok next → next.Follows admits later) :=
      match done : s.perform call with
      | .error _ => .isTrue (by simp)
      | .ok next => @decidable_of_iff _ (next.Follows admits later) (by simp) (decidableFollows admits next later)
    inferInstanceAs (Decidable (admits s call ∧ _))

def Heap.holders (s : Heap) (without : List SharedPtr) (o : Nat) : Finset SharedPtr :=
  s.live.filter fun w => w ∉ without ∧ s.ptr w = some o

structure Correct (s : Heap) : Prop where
  counted : ∀ o < s.made, (s.object o).fate ≠ .freed → (s.object o).refCount = (s.object o).own + (s.holders [] o).card
  deleted : ∀ o < s.made, (s.object o).fate = .freed ↔ (s.object o).own + (s.holders [] o).card = 0
  pointing : ∀ v ∈ s.live, ∀ o, s.ptr v = some o → o < s.made ∧ (s.object o).fate ≠ .freed

-- The objects that go when v gives up its reference: nothing else holds them but members of objects that go.
inductive Heap.Falls (s : Heap) (v : SharedPtr) : Nat → Prop where
  | unheld (alive : s.Alive o) (given : (s.object o).given = true) (owned : ∀ w ∈ s.holders [v] o, w.owner ≠ none)
      (falls : ∀ w ∈ s.holders [v] o, ∀ holder, w.owner = some holder → s.Falls v holder) : s.Falls v o

def Heap.Stays (s : Heap) (v w : SharedPtr) : Prop := ∀ holder, w.owner = some holder → ¬s.Falls v holder

def Fits (count : Nat) : Prop := (count : Int) + 1 < 2 ^ 31

open Classical in
-- Where an assignment touches nothing that its own release destroys, and no count overflows.
def Heap.Careful (s : Heap) : Call → Prop
  | .construct _ target => ∀ o ∈ target, Fits ((s.object o).own + (s.holders [] o).card)
  | .copyConstruct _ rhs => ∀ o ∈ s.ptr rhs, Fits ((s.object o).own + (s.holders [] o).card)
  | .copyAssign lhs rhs => s.ptr lhs ≠ s.ptr rhs → (s.Stays lhs lhs ∧ s.Stays lhs rhs) ∧
    ∀ o ∈ s.ptr rhs, Fits ((s.object o).own + ((s.holders [lhs] o).filter fun w => s.Stays lhs w).card)
  | .moveAssign lhs rhs => s.Stays lhs lhs ∧ s.Stays lhs rhs
  | _ => True

end IocpChatServer.ServerCore.RefCounting
