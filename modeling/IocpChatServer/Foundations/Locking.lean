import Mathlib.Data.Fintype.Card
import Mathlib.Logic.Relation
import IocpChatServer.Foundations.TransitionSystem

namespace IocpChatServer.Foundations.Locking
open TransitionSystem

inductive Mode where
  | write | read
  deriving DecidableEq, Repr

structure Guard (Object : Type) where
  object : Object
  mode : Mode
  deriving DecidableEq, Repr

-- What code does with locks. A guard keeps its lock while the body runs. `any` is a branch
-- or a value that is left open, `each` a loop, every round with a value of its own.
inductive Program (Object : Type) : Type 1 where
  | skip
  | seq (first second : Program Object)
  | any {ι : Type} [Nonempty ι] (branch : ι → Program Object)
  | each {ι : Type} (round : ι → Program Object)
  | lock (g : Guard Object) (body : Program Object)

inductive Item (Object : Type) where
  | run (program : Program Object)
  | unlock

structure Local (Object : Type) where
  todo : List (Item Object)
  held : List (Guard Object)

namespace Program
variable {Object : Type}

def inOrder : List (Program Object) → Program Object
  | [] => skip
  | first :: rest => seq first (inOrder rest)

def either (one other : Program Object) : Program Object := any fun first : Bool => if first then one else other
def maybe (body : Program Object) : Program Object := either body skip
def many (body : Program Object) : Program Object := each fun _ : Unit => body
def write (object : Object) (body : Program Object) : Program Object := lock ⟨object,.write⟩ body
def read (object : Object) (body : Program Object) : Program Object := lock ⟨object,.read⟩ body

end Program

inductive Move (operations : Program Object → Prop) (free : Guard Object → Prop) : Local Object → Local Object → Prop where
  | start : operations p → Move operations free ⟨[],held⟩ ⟨[.run p],held⟩
  | skip : Move operations free ⟨.run .skip :: rest,held⟩ ⟨rest,held⟩
  | seq : Move operations free ⟨.run (.seq p q) :: rest,held⟩ ⟨.run p :: .run q :: rest,held⟩
  | any {ι : Type} [Nonempty ι] {branch : ι → Program Object} (i : ι) :
      Move operations free ⟨.run (.any branch) :: rest,held⟩ ⟨.run (branch i) :: rest,held⟩
  | done {ι : Type} {round : ι → Program Object} : Move operations free ⟨.run (.each round) :: rest,held⟩ ⟨rest,held⟩
  | again {ι : Type} {round : ι → Program Object} (i : ι) :
      Move operations free ⟨.run (.each round) :: rest,held⟩ ⟨.run (round i) :: .run (.each round) :: rest,held⟩
  | lock : free g → Move operations free ⟨.run (.lock g p) :: rest,held⟩ ⟨.run p :: .unlock :: rest,g :: held⟩
  | unlock : Move operations free ⟨.unlock :: rest,g :: held⟩ ⟨rest,held⟩

variable {Object Thread : Type} {R : Type _} [Preorder R] {rank : Object → R} {operations : Program Object → Prop}
  {free : Guard Object → Prop} {before after : Local Object} {held : List (Guard Object)}

-- The lock is not given to `t` while `u` has it, one of them to write. Under its own write
-- lock a thread is not stopped.
def Blocks (s : Thread → Local Object) (t : Thread) (g : Guard Object) (u : Thread) : Prop :=
  ⟨g.object,.write⟩ ∉ (s t).held ∧
    ∃ taken ∈ (s u).held, taken.object = g.object ∧ (g.mode = .write ∨ taken.mode = .write)

def Waits (s : Thread → Local Object) (t : Thread) (object : Object) (u : Thread) : Prop :=
  ∃ mode body rest, (s t).todo = .run (.lock ⟨object,mode⟩ body) :: rest ∧ Blocks s t ⟨object,mode⟩ u

def start : Thread → Local Object := fun _ => ⟨[],[]⟩

def Step (operations : Program Object → Prop) (s : Thread → Local Object) (t : Thread) (next : Thread → Local Object) : Prop :=
  Move operations (fun g => ∀ u, ¬ Blocks s t g u) (s t) (next t) ∧ ∀ u, u ≠ t → next u = s u

-- A lock may be taken again by its holder, to write only under a write lock, or above all
-- that is held.
structure Admits (rank : Object → R) (held : List (Guard Object)) (g : Guard Object) : Prop where
  above : ∀ taken ∈ held, taken.object = g.object ∨ rank taken.object < rank g.object
  upgrade : g.mode = .write → ⟨g.object,.read⟩ ∈ held → ⟨g.object,.write⟩ ∈ held

def Program.Ordered (rank : Object → R) : List (Guard Object) → Program Object → Prop
  | _,.skip => True
  | held,.seq first second => first.Ordered rank held ∧ second.Ordered rank held
  | held,@any _ _ _ branch => ∀ i, (branch i).Ordered rank held
  | held,.each round => ∀ i, (round i).Ordered rank held
  | held,.lock g body => Admits rank held g ∧ body.Ordered rank (g :: held)

theorem Admits.idle (g : Guard Object) : Admits rank [] g := ⟨by simp,by simp⟩

theorem Admits.higher {lower upper : Object} {mode other : Mode} (admits : Admits rank held ⟨lower,mode⟩)
    (less : rank lower < rank upper) : Admits rank held ⟨upper,other⟩ where
  above := by
    intro taken member
    rcases admits.above taken member with same | below
    · rw [same]
      exact .inr less
    · exact .inr (below.trans less)
  upgrade := by
    intro _ member
    rcases admits.above _ member with same | below
    · cases same
      exact absurd less (lt_irrefl _)
    · exact absurd (below.trans less) (lt_irrefl _)

theorem Admits.inside {lower upper : Object} {mode other : Mode} (admits : Admits rank held ⟨lower,mode⟩)
    (less : rank lower < rank upper) : Admits rank (⟨lower,mode⟩ :: held) ⟨upper,other⟩ := by
  have higher : Admits rank held ⟨upper,other⟩ := admits.higher less
  constructor
  · intro taken member
    rcases List.mem_cons.mp member with rfl | member
    · exact .inr less
    · exact higher.above taken member
  · intro write member
    rcases List.mem_cons.mp member with same | member
    · cases same
      exact absurd less (lt_irrefl _)
    · apply List.mem_cons_of_mem
      exact higher.upgrade write member

theorem Admits.again {object : Object} {mode other : Mode} (admits : Admits rank held ⟨object,mode⟩)
    (weaker : other = .write → mode = .write) : Admits rank (⟨object,mode⟩ :: held) ⟨object,other⟩ where
  above := by
    intro taken member
    rcases List.mem_cons.mp member with rfl | member
    · exact .inl rfl
    · exact admits.above taken member
  upgrade := by
    intro write _
    cases weaker write
    exact List.mem_cons_self

namespace Program

@[simp] theorem skip_ordered : (skip : Program Object).Ordered rank held := trivial

@[simp] theorem seq_ordered {first second : Program Object} :
    (seq first second).Ordered rank held ↔ first.Ordered rank held ∧ second.Ordered rank held := .rfl

@[simp] theorem any_ordered {ι : Type} [Nonempty ι] {branch : ι → Program Object} :
    (any branch).Ordered rank held ↔ ∀ i, (branch i).Ordered rank held := .rfl

@[simp] theorem each_ordered {ι : Type} {round : ι → Program Object} :
    (each round).Ordered rank held ↔ ∀ i, (round i).Ordered rank held := .rfl

@[simp] theorem write_ordered {object : Object} {body : Program Object} : (write object body).Ordered rank held ↔
    Admits rank held ⟨object,.write⟩ ∧ body.Ordered rank (⟨object,.write⟩ :: held) := .rfl

@[simp] theorem read_ordered {object : Object} {body : Program Object} : (read object body).Ordered rank held ↔
    Admits rank held ⟨object,.read⟩ ∧ body.Ordered rank (⟨object,.read⟩ :: held) := .rfl

@[simp] theorem inOrder_none : (inOrder ([] : List (Program Object))).Ordered rank held := trivial

@[simp] theorem inOrder_ordered {first : Program Object} {rest : List (Program Object)} :
    (inOrder (first :: rest)).Ordered rank held ↔ first.Ordered rank held ∧ (inOrder rest).Ordered rank held := .rfl

@[simp] theorem either_ordered {one other : Program Object} :
    (either one other).Ordered rank held ↔ one.Ordered rank held ∧ other.Ordered rank held := by
  constructor
  · intro both
    exact ⟨both true,both false⟩
  · rintro ⟨first,second⟩ i
    cases i with
    | false => exact second
    | true => exact first

@[simp] theorem maybe_ordered {body : Program Object} : (maybe body).Ordered rank held ↔ body.Ordered rank held := by
  simp [maybe]

@[simp] theorem many_ordered {body : Program Object} : (many body).Ordered rank held ↔ body.Ordered rank held := by
  simp [many]

end Program

-- The guards that are left to close are those held, and the code between them keeps the order.
def Follows (rank : Object → R) : List (Guard Object) → List (Item Object) → Prop
  | held,[] => held = []
  | held,.run program :: rest => program.Ordered rank held ∧ Follows rank held rest
  | [],.unlock :: _ => False
  | _ :: held,.unlock :: rest => Follows rank held rest

def Layered (rank : Object → R) (held : List (Guard Object)) : Prop :=
  held.Pairwise fun later earlier => later.object = earlier.object ∨ rank earlier.object < rank later.object

structure Disciplined (rank : Object → R) (thread : Local Object) : Prop where
  layered : Layered rank thread.held
  follows : Follows rank thread.held thread.todo

theorem Move.disciplined (ordered : ∀ p, operations p → p.Ordered rank []) (move : Move operations free before after)
    (valid : Disciplined rank before) : Disciplined rank after := by
  obtain ⟨layered,follows⟩ := valid
  cases move with
  | start operation =>
    cases follows
    exact ⟨layered,ordered _ operation,rfl⟩
  | skip => exact ⟨layered,follows.2⟩
  | seq => exact ⟨layered,follows.1.1,follows.1.2,follows.2⟩
  | any i => exact ⟨layered,follows.1 i,follows.2⟩
  | done => exact ⟨layered,follows.2⟩
  | again i => exact ⟨layered,follows.1 i,follows⟩
  | lock =>
    obtain ⟨⟨admits,body⟩,rest⟩ := follows
    refine ⟨List.pairwise_cons.mpr ⟨fun taken member => ?_,layered⟩,body,rest⟩
    exact (admits.above taken member).imp_left Eq.symm
  | unlock => exact ⟨(List.pairwise_cons.mp layered).2,follows⟩

theorem Move.guards (move : Move operations free before after) : after.held = before.held ∨
    (∃ g, free g ∧ after.held = g :: before.held) ∨ ∃ g, before.held = g :: after.held := by
  cases move with
  | lock granted => exact .inr (.inl ⟨_,granted,rfl⟩)
  | unlock => exact .inr (.inr ⟨_,rfl⟩)
  | _ => exact .inl rfl

def Excluded (one other : List (Guard Object)) : Prop :=
  ∀ a ∈ one, ∀ b ∈ other, a.object = b.object → a.mode = .read ∧ b.mode = .read

structure Inv (rank : Object → R) (s : Thread → Local Object) : Prop where
  disciplined : ∀ t, Disciplined rank (s t)
  excluded : ∀ t u, t ≠ u → Excluded (s t).held (s u).held

theorem Excluded.symm {one other : List (Guard Object)} (excluded : Excluded one other) : Excluded other one :=
  fun b second a first same => (excluded a first b second same.symm).symm

theorem Excluded.fewer {one less other : List (Guard Object)} (excluded : Excluded one other) (inside : less ⊆ one) :
    Excluded less other := fun a first => excluded a (inside first)

variable {s next : Thread → Local Object} {t u : Thread}

theorem Excluded.taken {g : Guard Object} (excluded : Excluded (s t).held (s u).held) (granted : ¬ Blocks s t g u) :
    Excluded (g :: (s t).held) (s u).held := by
  intro a first b second same
  rcases List.mem_cons.mp first with rfl | first
  · by_cases own : ⟨a.object,.write⟩ ∈ (s t).held
    · cases (excluded _ own b second same).1
    · have reads : ¬ (a.mode = .write ∨ b.mode = .write) := fun conflict => granted ⟨own,b,second,same.symm,conflict⟩
      cases one : a.mode <;> cases other : b.mode <;> simp [one,other] at reads ⊢
  · exact excluded a first b second same

theorem Step.excluded (valid : Inv rank s) (step : Step operations s t next) (other : u ≠ t) :
    Excluded (next t).held (next u).held := by
  obtain ⟨move,frame⟩ := step
  rw [frame u other]
  have before := valid.excluded t u other.symm
  rcases move.guards with same | ⟨g,granted,grown⟩ | ⟨g,shrunk⟩
  · rw [same]
    exact before
  · rw [grown]
    exact before.taken (granted u)
  · apply before.fewer
    rw [shrunk]
    exact List.subset_cons_self g _

theorem step_inv (ordered : ∀ p, operations p → p.Ordered rank []) (valid : Inv rank s) (step : Step operations s t next) :
    Inv rank next where
  disciplined u := by
    by_cases same : u = t
    · subst same
      exact step.1.disciplined ordered (valid.disciplined u)
    · rw [step.2 u same]
      exact valid.disciplined u
  excluded one other different := by
    by_cases first : one = t
    · subst first
      exact step.excluded valid different.symm
    · by_cases second : other = t
      · subst second
        exact (step.excluded valid different).symm
      · rw [step.2 one first,step.2 other second]
        exact valid.excluded one other different

theorem start_inv : Inv rank (start : Thread → Local Object) where
  disciplined _ := ⟨.nil,rfl⟩
  excluded _ _ _ a first := by cases first

theorem runs_inv {events : List Thread} (ordered : ∀ p, operations p → p.Ordered rank [])
    (path : Runs (Step operations) start events s) : Inv rank s :=
  path.invariant (fun _ _ _ valid step => step_inv ordered valid step) start_inv

theorem Inv.request {g : Guard Object} {body : Program Object} {rest : List (Item Object)} (valid : Inv rank s)
    (request : (s t).todo = .run (.lock g body) :: rest) : Admits rank (s t).held g := by
  have follows := (valid.disciplined t).follows
  rw [request] at follows
  exact follows.1.1

theorem Waits.unheld {object : Object} (valid : Inv rank s) (waits : Waits s t object u) :
    ∀ taken ∈ (s t).held, taken.object ≠ object := by
  obtain ⟨mode,body,rest,request,own,met,holds,same,conflict⟩ := waits
  rintro ⟨_,taken⟩ member rfl
  cases taken with
  | write => exact own member
  | read =>
    have reading : met.mode = .read := by
      by_cases self : t = u
      · subst self
        cases found : met.mode with
        | read => rfl
        | write =>
          rw [← same,← found] at own
          exact absurd holds own
      · exact (valid.excluded t u self _ member met holds same.symm).2
    apply own
    exact (valid.request request).upgrade (by simpa [reading] using conflict) member

theorem Waits.climbs {v : Thread} {object other : Object} (valid : Inv rank s) (one : Waits s t object u)
    (two : Waits s u other v) : rank object < rank other := by
  obtain ⟨_,_,_,_,_,met,holds,rfl,_⟩ := one
  have foreign := two.unheld valid met holds
  obtain ⟨_,_,_,request,_⟩ := two
  exact ((valid.request request).above met holds).resolve_left foreign

def Waiting (s : Thread → Local Object) (t u : Thread) : Prop := ∃ object, Waits s t object u

theorem chain_climbs (valid : Inv rank s) (chain : Relation.TransGen (Waiting s) t u) :
    ∃ object v, Waits s t object v ∧ ∀ other w, Waits s u other w → rank object < rank other := by
  induction chain with
  | single waiting =>
    obtain ⟨object,waits⟩ := waiting
    exact ⟨object,_,waits,fun _ _ further => waits.climbs valid further⟩
  | tail _ waiting ih =>
    obtain ⟨object,v,first,climbs⟩ := ih
    obtain ⟨middle,waits⟩ := waiting
    exact ⟨object,v,first,fun other w further => (climbs middle _ waits).trans (waits.climbs valid further)⟩

theorem Waits.unique {v : Thread} {object other : Object} (one : Waits s t object u) (two : Waits s t other v) :
    object = other := by
  obtain ⟨_,_,_,first,_⟩ := one
  obtain ⟨_,_,_,second,_⟩ := two
  rw [first] at second
  cases second
  rfl

theorem Inv.acyclic (valid : Inv rank s) (t : Thread) : ¬ Relation.TransGen (Waiting s) t t := by
  intro cycle
  obtain ⟨object,v,waits,climbs⟩ := chain_climbs valid cycle
  exact lt_irrefl _ (climbs object v waits)

theorem Inv.goes (valid : Inv rank s) (busy : (s t).todo ≠ []) :
    (∃ after, Move operations (fun g => ∀ u, ¬ Blocks s t g u) (s t) after) ∨ ∃ u, Waiting s t u := by
  have follows := (valid.disciplined t).follows
  cases here : s t with
  | mk todo held =>
    rw [here] at follows busy
    cases todo with
    | nil => exact absurd rfl busy
    | cons item rest =>
      cases item with
      | unlock =>
        cases held with
        | nil => exact absurd follows id
        | cons g held => exact .inl ⟨_,.unlock⟩
      | run program =>
        cases program with
        | skip => exact .inl ⟨_,.skip⟩
        | seq first second => exact .inl ⟨_,.seq⟩
        | @any ι some_ branch => exact .inl ⟨_,.any (Classical.choice some_)⟩
        | each round => exact .inl ⟨_,.done⟩
        | lock g body =>
          by_cases granted : ∀ u, ¬ Blocks s t g u
          · exact .inl ⟨_,.lock granted⟩
          · push Not at granted
            obtain ⟨u,blocks⟩ := granted
            exact .inr ⟨u,g.object,g.mode,body,rest,by rw [here],blocks⟩

theorem Waiting.busy (valid : Inv rank s) (waiting : Waiting s t u) : (s u).todo ≠ [] := by
  obtain ⟨_,_,_,_,_,_,taken,holds,_⟩ := waiting
  intro idle
  have follows := (valid.disciplined u).follows
  rw [idle] at follows
  rw [follows] at holds
  cases holds

theorem Step.update [DecidableEq Thread] {after : Local Object}
    (move : Move operations (fun g => ∀ u, ¬ Blocks s t g u) (s t) after) :
    Step operations s t (Function.update s t after) :=
  ⟨by simpa using move,fun _ other => Function.update_of_ne other _ _⟩

theorem Inv.unstuck [Finite Thread] (valid : Inv rank s) (busy : (s t).todo ≠ []) :
    ∃ u next, (s u).todo ≠ [] ∧ Step operations s u next := by
  classical
  have ordered : IsStrictOrder Thread (flip (Relation.TransGen (Waiting s))) := {
    irrefl := valid.acyclic
    trans := fun _ _ _ one two => two.trans one}
  induction t using (Finite.wellFounded_of_trans_of_irrefl (flip (Relation.TransGen (Waiting s)))).induction with
  | _ t ih =>
    have going : (∃ after, Move operations (fun g => ∀ u, ¬ Blocks s t g u) (s t) after) ∨ ∃ u, Waiting s t u := valid.goes busy
    rcases going with ⟨after,move⟩ | ⟨u,waiting⟩
    · exact ⟨t,Function.update s t after,busy,.update move⟩
    · exact ih u (.single waiting) (waiting.busy valid)

end IocpChatServer.Foundations.Locking
