import Mathlib.Data.Fin.Basic
import Mathlib.Data.List.Basic
import Mathlib.Data.List.Nodup
import Mathlib.Data.List.Perm.Subperm
import Mathlib.Data.List.Chain
import Mathlib.Logic.Relation
import Mathlib.Order.Basic

namespace IocpChatServer.Foundations.DepthFirst
variable {α : Type _} {next : α → List α}

def Edge (next : α → List α) (tail head : α) : Prop := head ∈ next tail

def Acyclic (next : α → List α) : Prop := ∀ a, ¬ Relation.TransGen (Edge next) a a

theorem acyclic_within {below : α → α → Prop} [IsTrans α below] (irreflexive : ∀ a, ¬below a a)
    (edges : ∀ a b, Edge next a b → below a b) : Acyclic next := by
  intro a cycle
  exact irreflexive a (Relation.transGen_minimal edges a a cycle)

-- An edge met while its head was already discovered: the tree path from the edge's tail up
-- to its root, and all nodes discovered so far, the newest first in both.
structure Meeting (α : Type _) where
  path : List α
  seen : List α
  head : α

-- Depth-first search of the nodes `todo` below `path`. A node not yet seen is entered, and its
-- successors are searched before the nodes after it; a node already seen is only met.
inductive Explores (next : α → List α) :
    List α → List α → List α → List (Meeting α) → List α → Prop where
  | done : Explores next path [] seen [] seen
  | meet : head ∈ seen → Explores next path rest seen met after →
      Explores next path (head :: rest) seen (⟨path,seen,head⟩ :: met) after
  | enter : head ∉ seen → Explores next (head :: path) (next head) (head :: seen) nested middle →
      Explores next path rest middle met after →
      Explores next path (head :: rest) seen (nested ++ met) after

variable {path todo seen after nodes : List α} {met : List (Meeting α)}

theorem Explores.grows (search : Explores next path todo seen met after) : ∃ new, after = new ++ seen := by
  induction search with
  | done => exact ⟨[],rfl⟩
  | meet _ _ ih => exact ih
  | @enter seen head _ _ _ _ _ _ _ _ _ inner rest =>
    obtain ⟨one,rfl⟩ := inner
    obtain ⟨two,rfl⟩ := rest
    exact ⟨two ++ one ++ [head],by simp⟩

theorem Explores.keeps (search : Explores next path todo seen met after) (member : a ∈ seen) : a ∈ after := by
  obtain ⟨new,rfl⟩ := search.grows
  exact List.mem_append_right new member

theorem Explores.nodup (search : Explores next path todo seen met after) (start : seen.Nodup) : after.Nodup := by
  induction search with
  | done => exact start
  | meet _ _ ih => exact ih start
  | enter fresh _ _ inner rest => exact rest (inner (List.nodup_cons.mpr ⟨fresh,start⟩))

theorem room (fresh : head ∉ seen) (known : head ∈ nodes) (nodup : seen.Nodup) (inside : seen ⊆ nodes) :
    seen.length < nodes.length := by
  have more : (head :: seen).Nodup := List.nodup_cons.mpr ⟨fresh,nodup⟩
  exact (List.subperm_of_subset more (List.cons_subset.mpr ⟨known,inside⟩)).length_le

theorem Explores.inside (search : Explores next path todo seen met after) (closed : ∀ a, next a ⊆ nodes)
    (known : todo ⊆ nodes) (start : seen ⊆ nodes) : after ⊆ nodes := by
  induction search with
  | done => exact start
  | meet _ _ ih => exact ih (List.cons_subset.mp known).2 start
  | enter _ _ _ inner rest =>
    obtain ⟨head,others⟩ := List.cons_subset.mp known
    exact rest others (inner (closed _) (List.cons_subset.mpr ⟨head,start⟩))

-- Over finitely many nodes the search ends: each entry uses one of them up.
theorem explores_within (closed : ∀ a, next a ⊆ nodes) : ∀ (room : Nat) (path todo seen : List α),
    nodes.length ≤ room + seen.length → todo ⊆ nodes → seen.Nodup → seen ⊆ nodes →
    ∃ met after, Explores next path todo seen met after := by
  intro room
  induction room with
  | zero =>
    intro path todo seen full known nodup inside
    induction todo with
    | nil => exact ⟨[],seen,.done⟩
    | cons head rest ih =>
      obtain ⟨here,others⟩ := List.cons_subset.mp known
      obtain ⟨met,after,search⟩ := ih others
      by_cases fresh : head ∈ seen
      · exact ⟨_,after,.meet fresh search⟩
      · have less := DepthFirst.room fresh here nodup inside
        omega
  | succ room entered =>
    intro path todo
    induction todo with
    | nil => exact fun seen _ _ _ _ => ⟨[],seen,.done⟩
    | cons head rest ih =>
      intro seen full known nodup inside
      obtain ⟨here,others⟩ := List.cons_subset.mp known
      by_cases fresh : head ∈ seen
      · obtain ⟨met,after,search⟩ := ih seen full others nodup inside
        exact ⟨_,after,.meet fresh search⟩
      · obtain ⟨inner,middle,below⟩ := entered (head :: path) (next head) (head :: seen)
          (by simp only [List.length_cons]; omega) (closed head) (List.nodup_cons.mpr ⟨fresh,nodup⟩)
          (List.cons_subset.mpr ⟨here,inside⟩)
        obtain ⟨new,grown⟩ := below.grows
        have longer : seen.length ≤ middle.length := by
          rw [grown]
          simp only [List.length_append,List.length_cons]
          omega
        obtain ⟨met,after,search⟩ := ih middle (by omega) others
          (below.nodup (List.nodup_cons.mpr ⟨fresh,nodup⟩))
          (below.inside closed (closed head) (List.cons_subset.mpr ⟨here,inside⟩))
        exact ⟨_,after,.enter fresh below search⟩

theorem explores_exists (closed : ∀ a, next a ⊆ nodes) (known : todo ⊆ nodes) :
    ∃ met after, Explores next [] todo [] met after :=
  explores_within closed nodes.length [] todo [] (Nat.le_add_right _ _) known List.nodup_nil (List.nil_subset _)

def Branch (next : α → List α) : List α → Prop := List.IsChain fun child parent => child ∈ next parent

-- What holds of the search at the point where `todo` is left below `path`.
structure Placed (next : α → List α) (path todo seen : List α) : Prop where
  branch : Branch next path
  edges : ∀ tail ∈ path.head?, todo ⊆ next tail
  order : path.Sublist seen
  nodup : seen.Nodup

theorem Placed.roots (distinct : seen.Nodup) : Placed next [] todo seen :=
  ⟨List.isChain_nil,(fun _ top => by cases top),List.nil_sublist _,distinct⟩

theorem Placed.meeting (placed : Placed next path (head :: todo) seen) : Placed next path [head] seen where
  branch := placed.branch
  edges := fun tail top => List.cons_subset.mpr ⟨(List.cons_subset.mp (placed.edges tail top)).1,List.nil_subset _⟩
  order := placed.order
  nodup := placed.nodup

theorem Placed.rest (placed : Placed next path (head :: todo) seen) : Placed next path todo seen where
  branch := placed.branch
  edges := fun tail top => (List.cons_subset.mp (placed.edges tail top)).2
  order := placed.order
  nodup := placed.nodup

theorem Placed.entered (placed : Placed next path (head :: todo) seen) (fresh : head ∉ seen) :
    Placed next (head :: path) (next head) (head :: seen) where
  branch := List.isChain_cons.mpr ⟨fun tail top => (List.cons_subset.mp (placed.edges tail top)).1,placed.branch⟩
  edges := by
    intro tail top
    cases top
    exact List.Subset.refl _
  order := placed.order.cons_cons head
  nodup := List.nodup_cons.mpr ⟨fresh,placed.nodup⟩

theorem Placed.left (placed : Placed next path (head :: todo) seen)
    (search : Explores next (head :: path) (next head) (head :: seen) met middle) (fresh : head ∉ seen) :
    Placed next path todo middle where
  branch := placed.branch
  edges := placed.rest.edges
  order := by
    obtain ⟨new,rfl⟩ := search.grows
    exact placed.order.trans ((List.sublist_cons_self head seen).trans (List.sublist_append_right new _))
  nodup := search.nodup (placed.entered fresh).nodup

theorem Explores.traced (search : Explores next path todo seen met after) (placed : Placed next path todo seen)
    (m : Meeting α) (member : m ∈ met) : Placed next m.path [m.head] m.seen ∧ m.head ∈ m.seen := by
  induction search with
  | done => cases member
  | meet known _ ih =>
    rcases List.mem_cons.mp member with same | later
    · subst same
      exact ⟨placed.meeting,known⟩
    · exact ih placed.rest later
  | enter fresh below _ inner rest =>
    rcases List.mem_append.mp member with earlier | later
    · exact inner (placed.entered fresh) earlier
    · exact rest (placed.left below fresh) later

theorem Branch.reaches (branch : Branch next (tail :: ancestors)) (member : a ∈ tail :: ancestors) :
    Relation.ReflTransGen (Edge next) a tail := by
  induction ancestors generalizing tail with
  | nil =>
    rw [List.mem_singleton.mp member]
  | cons parent ancestors ih =>
    obtain ⟨edge,above⟩ := List.isChain_cons_cons.mp branch
    rcases List.mem_cons.mp member with same | higher
    · rw [same]
    · exact (ih above higher).tail edge

theorem Placed.child (placed : Placed next path [head] seen) (member : a ∈ path) : ∃ child, Edge next a child := by
  have branch := placed.branch
  have edges := placed.edges
  clear placed
  induction path generalizing head with
  | nil => cases member
  | cons tail ancestors ih =>
    rcases List.mem_cons.mp member with same | higher
    · exact ⟨head,same ▸ (List.cons_subset.mp (edges tail rfl)).1⟩
    · obtain ⟨edge,above⟩ := List.isChain_cons.mp branch
      exact ih higher above fun parent top => List.cons_subset.mpr ⟨edge parent top,List.nil_subset _⟩

theorem Placed.cycle (placed : Placed next path [head] seen) (back : head ∈ path) :
    Relation.TransGen (Edge next) head head := by
  cases path with
  | nil => cases back
  | cons tail ancestors =>
    have edge : Edge next tail head := (List.cons_subset.mp (placed.edges tail rfl)).1
    exact Relation.TransGen.tail' (placed.branch.reaches back) edge

inductive Ordered (next : α → List α) : List α → Prop where
  | nil : Ordered next []
  | cons : a ∉ rest → next a ⊆ rest → Ordered next rest → Ordered next (a :: rest)

theorem Ordered.closed (ordered : Ordered next nodes) (member : a ∈ nodes) (edge : Edge next a b) : b ∈ nodes := by
  induction ordered with
  | nil => cases member
  | cons _ below _ ih =>
    rcases List.mem_cons.mp member with same | later
    · subst same
      exact List.mem_cons_of_mem _ (below edge)
    · exact List.mem_cons_of_mem _ (ih later)

theorem Ordered.reach (ordered : Ordered next nodes) (member : a ∈ nodes)
    (reach : Relation.TransGen (Edge next) a b) : b ∈ nodes := by
  induction reach with
  | single edge => exact ordered.closed member edge
  | tail _ edge ih => exact ordered.closed ih edge

theorem Ordered.acyclic (ordered : Ordered next nodes) (member : a ∈ nodes) :
    ¬ Relation.TransGen (Edge next) a a := by
  induction ordered with
  | nil => cases member
  | cons fresh below rest ih =>
    intro cycle
    rcases List.mem_cons.mp member with same | later
    · subst same
      obtain ⟨b,edge,back⟩ := Relation.TransGen.head'_iff.mp cycle
      rcases Relation.reflTransGen_iff_eq_or_transGen.mp back with same | path
      · exact fresh (below (same ▸ edge))
      · exact fresh (rest.reach (below edge) path)
    · exact ih later cycle

-- Without an edge back to its own path the search finishes every node after all of the
-- node's successors: `finished` are the nodes seen and no longer on the path.
theorem Explores.ordered (search : Explores next path todo seen met after) (inside : path ⊆ seen)
    (forward : ∀ m ∈ met, m.head ∉ m.path) (before : Ordered next finished)
    (exactly : ∀ a, a ∈ finished ↔ a ∈ seen ∧ a ∉ path) :
    ∃ later, Ordered next later ∧ finished ⊆ later ∧ todo ⊆ later ∧ ∀ a, a ∈ later ↔ a ∈ after ∧ a ∉ path := by
  induction search generalizing finished with
  | done => exact ⟨finished,before,List.Subset.refl _,List.nil_subset _,exactly⟩
  | @meet seen head path _ _ _ known _ ih =>
    obtain ⟨later,ordered,kept,reached,members⟩ := ih inside
      (fun m member => forward m (List.mem_cons_of_mem _ member)) before exactly
    have off : head ∉ path := forward _ List.mem_cons_self
    exact ⟨later,ordered,kept,List.cons_subset.mpr ⟨kept ((exactly head).mpr ⟨known,off⟩),reached⟩,members⟩
  | @enter seen head path _ _ _ _ _ fresh below _ inner rest =>
    obtain ⟨one,orderedOne,keptOne,successors,membersOne⟩ := inner
      (List.cons_subset.mpr ⟨List.mem_cons_self,fun a member => List.mem_cons_of_mem _ (inside member)⟩)
      (fun m member => forward m (List.mem_append_left _ member)) before
      (by
        intro a
        rw [exactly a]
        by_cases same : a = head
        · subst same
          simp [fresh]
        · simp [same])
    have open_ : head ∉ one := fun member => ((membersOne head).mp member).2 List.mem_cons_self
    have off : head ∉ path := fun member => fresh (inside member)
    have entered := below.keeps (List.mem_cons_self (a := head))
    obtain ⟨two,orderedTwo,keptTwo,reached,membersTwo⟩ := rest
      (fun a member => below.keeps (List.mem_cons_of_mem _ (inside member)))
      (fun m member => forward m (List.mem_append_right _ member)) (.cons open_ successors orderedOne)
      (by
        intro a
        rw [List.mem_cons,membersOne a]
        by_cases same : a = head
        · subst same
          simp [off,entered]
        · simp [same])
    obtain ⟨here,keptMore⟩ := List.cons_subset.mp keptTwo
    exact ⟨two,orderedTwo,fun a member => keptMore (keptOne member),List.cons_subset.mpr ⟨here,reached⟩,membersTwo⟩

theorem Explores.acyclic (search : Explores next [] nodes [] met after) (closed : ∀ a, next a ⊆ nodes)
    (forward : ∀ m ∈ met, m.head ∉ m.path) : Acyclic next := by
  obtain ⟨later,ordered,_,all,_⟩ := search.ordered (List.nil_subset _) forward .nil (by simp)
  intro a cycle
  obtain ⟨b,_,edge⟩ := Relation.TransGen.tail'_iff.mp cycle
  exact ordered.acyclic (all (closed b edge)) cycle

theorem Placed.older [DecidableEq α] (placed : Placed next (tail :: ancestors) todo seen)
    (member : a ∈ tail :: ancestors) : seen.idxOf tail ≤ seen.idxOf a := by
  have order := placed.order
  have nodup := placed.nodup
  clear placed
  induction seen with
  | nil => cases order
  | cons first seen ih =>
    by_cases top : first = tail
    · rw [top,List.idxOf_cons_self]
      exact Nat.zero_le _
    · have below : (tail :: ancestors).Sublist seen := by
        cases order with
        | cons _ below => exact below
        | cons_cons => exact absurd rfl top
      obtain ⟨fresh,rest⟩ := List.nodup_cons.mp nodup
      have apart : first ≠ a := fun same => fresh (same ▸ below.subset member)
      rw [List.idxOf_cons_ne _ top,List.idxOf_cons_ne _ apart]
      exact Nat.succ_le_succ (ih below rest)

theorem ring_back (i j : Fin (n + 1)) : i + Fin.ofNat (n + 1) (j - i).val = j := by
  have below := i.isLt
  rw [Fin.ofNat_val_eq_self]
  ext
  simp only [Fin.val_add,Fin.sub_def]
  rw [Nat.add_mod_mod,show i.val + (n + 1 - i.val + j.val) = j.val + (n + 1) by omega,Nat.add_mod_right,
    Nat.mod_eq_of_lt j.isLt]

theorem Acyclic.ring (acyclic : Acyclic next) {node : Fin (n + 1) → α}
    (reach : ∀ i, Relation.ReflTransGen (Edge next) (node i) (node (i + 1))) (i j : Fin (n + 1)) :
    node i = node j := by
  have onward : ∀ (i : Fin (n + 1)) (k : Nat),
      Relation.ReflTransGen (Edge next) (node i) (node (i + Fin.ofNat (n + 1) k)) := by
    intro i k
    induction k with
    | zero => simpa using Relation.ReflTransGen.refl
    | succ k ih =>
      have more : i + Fin.ofNat (n + 1) (k + 1) = i + Fin.ofNat (n + 1) k + 1 := by
        ext
        simp [Fin.val_add,Nat.add_assoc]
      rw [more]
      exact ih.trans (reach _)
  have all : ∀ i j, Relation.ReflTransGen (Edge next) (node i) (node j) := by
    intro i j
    rw [← ring_back i j]
    exact onward i _
  rcases Relation.reflTransGen_iff_eq_or_transGen.mp (all i j) with same | path
  · exact same.symm
  · exact absurd (path.trans_left (all j i)) (acyclic (node i))

end IocpChatServer.Foundations.DepthFirst
