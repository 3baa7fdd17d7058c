import Mathlib.Data.List.Induction
import Mathlib.Logic.Relation
import Mathlib.Logic.Function.Basic

namespace IocpChatServer.ServerCore.TypeCast

-- Classes with one base at most. A base is complete before a class can name it.
structure Hierarchy (Class : Type _) where
  base : Class → Option Class
  depth : Class → Nat
  deeper : ∀ c b, base c = some b → depth b < depth c

variable {Class : Type _} [DecidableEq Class]

def Hierarchy.Derives (h : Hierarchy Class) : Class → Class → Prop := Relation.ReflTransGen fun c b => h.base c = some b

def Hierarchy.climbs (h : Hierarchy Class) (target : Class) : Nat → Class → Bool
  | 0,c => c = target
  | n + 1,c => c = target || match h.base c with
    | none => false
    | some b => h.climbs target n b

-- Conversion<const From*, const To*>::exists.
def Hierarchy.converts (h : Hierarchy Class) (source target : Class) : Bool := h.climbs target (h.depth source) source

-- Length, TypeAt and IndexOf. TypeAt of an index past the end does not compile.
def length : List Class → Nat
  | [] => 0
  | _ :: u => 1 + length u

def typeAt : List Class → Nat → Option Class
  | [],_ => none
  | head :: _,0 => some head
  | _ :: tail,index + 1 => typeAt tail index

def indexOf (t : Class) : List Class → Int
  | [] => -1
  | head :: tail => if head = t then 0 else
    let temp := indexOf t tail
    if temp = -1 then -1 else temp + 1

def cell (h : Hierarchy Class) (tl : List Class) (i j : Nat) : Bool :=
  match typeAt tl i,typeAt tl j with
  | some fromType,some toType => h.converts fromType toType
  | _,_ => false

abbrev Write := (Nat × Nat) × Bool

-- The writes of MakeTable from Int2Type<i>, Int2Type<j> on, in order.
def makeTable (h : Hierarchy Class) (tl : List Class) (i j : Nat) : List Write :=
  if i < length tl then
    if j < length tl then ((i,j),cell h tl i j) :: makeTable h tl i (j + 1)
    else makeTable h tl (i + 1) 0
  else []
termination_by (length tl - i,length tl - j)

-- The statics of one type list: whether the one in CanConvert has been constructed, and all that was ever written to s_convert.
structure TypeConversion where
  conversion : Bool := false
  writes : List Write := []
  deriving DecidableEq, Repr

-- s_convert starts all false.
def TypeConversion.s_convert (statics : TypeConversion) : Nat × Nat → Bool :=
  statics.writes.foldl (fun table write => Function.update table write.1 write.2) fun _ => false

def TypeConversion.construct (h : Hierarchy Class) (tl : List Class) (statics : TypeConversion) : TypeConversion :=
  if statics.conversion then statics else ⟨true,statics.writes ++ makeTable h tl 0 0⟩

def Within (tl : List Class) (index : Int) : Prop := 0 ≤ index ∧ index < length tl

instance (tl : List Class) (index : Int) : Decidable (Within tl index) := inferInstanceAs (Decidable (_ ∧ _))

-- The lookup is not checked: nothing is known of what lies outside the array.
def canConvert (h : Hierarchy Class) (tl : List Class) (statics : TypeConversion) (source target : Int) : TypeConversion × Option Bool :=
  let statics := statics.construct h tl
  (statics,if Within tl source ∧ Within tl target then some (statics.s_convert (source.toNat,target.toNat)) else none)

structure Object where
  typeId : Int
  deriving DecidableEq, Repr

def initTL (tl : List Class) (type : Class) : Object := ⟨indexOf type tl⟩

-- The same for a raw pointer and for a shared_ptr; a null pointer is none.
def typeCast (h : Hierarchy Class) (tl : List Class) (statics : TypeConversion) (target : Class) (ptr : Option Object) :
    TypeConversion × Option (Option Object) :=
  match ptr with
  | none => (statics,some none)
  | some object =>
    let (statics,converts) := canConvert h tl statics object.typeId (indexOf target tl)
    (statics,converts.map fun converts => if converts then some object else none)

def canCast (h : Hierarchy Class) (tl : List Class) (statics : TypeConversion) (target : Class) (ptr : Option Object) :
    TypeConversion × Option Bool :=
  match ptr with
  | none => (statics,some false)
  | some object => canConvert h tl statics object.typeId (indexOf target tl)

-- What the casts of a program so far have left, each with the class it asked for and the pointer it was given.
def after (h : Hierarchy Class) (tl : List Class) (casts : List (Class × Option Object)) : TypeConversion :=
  casts.foldl (fun statics cast => (canCast h tl statics cast.1 cast.2).1) {}

variable {h : Hierarchy Class} {tl : List Class} {c d t : Class} {i j : Nat}

theorem climbs_derives {n : Nat} (climbs : h.climbs t n c = true) : h.Derives c t := by
  induction n generalizing c with
  | zero =>
    have same : c = t := by simpa [Hierarchy.climbs] using climbs
    exact same ▸ .refl
  | succ n ih =>
    simp only [Hierarchy.climbs,Bool.or_eq_true,decide_eq_true_eq] at climbs
    rcases climbs with rfl | climbs
    · exact .refl
    · cases base : h.base c with
      | none => simp [base] at climbs
      | some b =>
        simp only [base] at climbs
        exact .head base (ih climbs)

theorem derives_climbs (derives : h.Derives c t) {n : Nat} (high : h.depth c ≤ n) : h.climbs t n c = true := by
  induction derives using Relation.ReflTransGen.head_induction_on generalizing n with
  | refl => cases n <;> simp [Hierarchy.climbs]
  | head base _ ih =>
    have deeper := h.deeper _ _ base
    cases n with
    | zero => omega
    | succ n =>
      have more := @ih n (by omega)
      simp [Hierarchy.climbs,base,more]

theorem converts_exact : h.converts c t = true ↔ h.Derives c t := ⟨climbs_derives,fun derives => derives_climbs derives (Nat.le_refl _)⟩

theorem indexOf_least : -1 ≤ indexOf t tl := by
  induction tl with
  | nil => exact Int.le_refl _
  | cons head tail ih =>
    simp only [indexOf]
    split_ifs <;> omega

theorem indexOf_missing : indexOf t tl = -1 ↔ t ∉ tl := by
  induction tl with
  | nil => simp [indexOf]
  | cons head tail ih =>
    have least : -1 ≤ indexOf t tail := indexOf_least
    simp only [indexOf,List.mem_cons,not_or,eq_comm (a := t) (b := head)]
    by_cases first : head = t
    · simp [first]
    · simp only [first,not_false_eq_true,true_and,if_false,← ih]
      split_ifs <;> omega

theorem indexOf_within : Within tl (indexOf t tl) ↔ t ∈ tl := by
  constructor
  · intro within
    by_contra absent
    have missing := indexOf_missing.2 absent
    have low := within.1
    omega
  · intro listed
    induction tl with
    | nil => cases listed
    | cons head tail ih =>
      simp only [Within,indexOf,length] at ih ⊢
      by_cases first : head = t
      · simp only [first,if_true]; omega
      · have rest : t ∈ tail := by simpa [Ne.symm first] using listed
        have bounds := ih rest
        simp only [first,if_false]
        split_ifs <;> omega

theorem typeAt_indexOf (listed : t ∈ tl) : typeAt tl (indexOf t tl).toNat = some t := by
  induction tl with
  | nil => cases listed
  | cons head tail ih =>
    by_cases first : head = t
    · simp [indexOf,first,typeAt]
    · have rest : t ∈ tail := by simpa [Ne.symm first] using listed
      have low := (indexOf_within.2 rest).1
      have next : (indexOf t (head :: tail)).toNat = (indexOf t tail).toNat + 1 := by
        simp only [indexOf,first,if_false]
        split_ifs <;> omega
      rw [next]
      exact ih rest

theorem cell_indexOf (dynamic : d ∈ tl) (listed : t ∈ tl) :
    cell h tl (indexOf d tl).toNat (indexOf t tl).toNat = h.converts d t := by
  simp only [cell,typeAt_indexOf dynamic,typeAt_indexOf listed]

def written (writes : List Write) (r c : Nat) : Nat := writes.countP fun write => write.1 = (r,c)

theorem makeTable_written {r c : Nat} (row : r < length tl) (column : c < length tl) :
    written (makeTable h tl i j) r c = if i < r ∨ i = r ∧ j ≤ c then 1 else 0 := by
  fun_induction makeTable h tl i j with
  | case1 i j rows columns ih =>
    simp only [written,List.countP_cons,decide_eq_true_eq,Prod.mk.injEq] at ih ⊢
    rw [ih]
    split_ifs <;> omega
  | case2 i j rows columns ih =>
    rw [ih]
    split_ifs <;> omega
  | case3 i j rows =>
    simp only [written,List.countP_nil]
    split_ifs <;> omega

theorem makeTable_value {write : Write} (mem : write ∈ makeTable h tl i j) :
    write.2 = cell h tl write.1.1 write.1.2 ∧ write.1.1 < length tl ∧ write.1.2 < length tl := by
  fun_induction makeTable h tl i j with
  | case1 i j rows columns ih =>
    rcases List.mem_cons.1 mem with rfl | later
    · exact ⟨rfl,rows,columns⟩
    · exact ih later
  | case2 i j rows columns ih => exact ih mem
  | case3 i j rows => cases mem

theorem update_reads {writes : List Write} {key : Nat × Nat} {value : Bool} {table : Nat × Nat → Bool}
    (values : ∀ write ∈ writes, write.1 = key → write.2 = value) (seen : table key = value ∨ ∃ write ∈ writes, write.1 = key) :
    writes.foldl (fun table write => Function.update table write.1 write.2) table key = value := by
  induction writes generalizing table with
  | nil => simpa using seen
  | cons write rest ih =>
    have one := values write (by simp)
    refine ih (fun other mem => values other (by simp [mem])) ?_
    by_cases same : write.1 = key
    · left
      subst same
      calc Function.update table write.1 write.2 write.1 = write.2 := Function.update_self ..
        _ = value := one rfl
    · rcases seen with before | ⟨other,mem,this⟩
      · left
        calc Function.update table write.1 write.2 key = table key := Function.update_of_ne (Ne.symm same) ..
          _ = value := before
      · right
        rcases List.mem_cons.1 mem with rfl | later
        · exact absurd this same
        · exact ⟨other,later,this⟩

def filled (h : Hierarchy Class) (tl : List Class) : TypeConversion := ⟨true,makeTable h tl 0 0⟩

theorem filled_written {r c : Nat} (row : r < length tl) (column : c < length tl) : written (filled h tl).writes r c = 1 := by
  simp only [filled,makeTable_written row column]
  split_ifs <;> omega

theorem filled_reads {r c : Nat} (row : r < length tl) (column : c < length tl) : (filled h tl).s_convert (r,c) = cell h tl r c := by
  refine update_reads (fun write mem at_ => ?_) (.inr ?_)
  · rw [(makeTable_value mem).1,at_]
  · have once := filled_written (h := h) row column
    have some_ : 0 < written (filled h tl).writes r c := by omega
    obtain ⟨write,mem,at_⟩ := List.countP_pos_iff.1 some_
    exact ⟨write,mem,of_decide_eq_true at_⟩

theorem construct_filled {statics : TypeConversion} (before : statics = {} ∨ statics = filled h tl) : statics.construct h tl = filled h tl := by
  rcases before with rfl | rfl <;> simp [TypeConversion.construct,filled]

theorem after_filled (casts : List (Class × Option Object)) : after h tl casts = {} ∨ after h tl casts = filled h tl := by
  induction casts using List.reverseRecOn with
  | nil => left; rfl
  | append_singleton casts cast ih =>
    simp only [after,List.foldl_append,List.foldl_cons,List.foldl_nil] at ih ⊢
    cases cast.2 with
    | none => exact ih
    | some object => right; exact construct_filled ih

theorem canConvert_listed (casts : List (Class × Option Object)) (dynamic : d ∈ tl) (listed : t ∈ tl) :
    canConvert h tl (after h tl casts) (indexOf d tl) (indexOf t tl) = (filled h tl,some (h.converts d t)) := by
  have source := indexOf_within.2 dynamic
  have target := indexOf_within.2 listed
  have reads := filled_reads (h := h) (show (indexOf d tl).toNat < length tl by have := source.1; have := source.2; omega)
    (show (indexOf t tl).toNat < length tl by have := target.1; have := target.2; omega)
  rw [cell_indexOf dynamic listed] at reads
  simp only [canConvert,construct_filled (after_filled casts),source,target,and_self,if_true,reads]

structure Agrees (h : Hierarchy Class) (tl : List Class) (casts : List (Class × Option Object)) (d t : Class) : Prop where
  once : ∀ r c, r < length tl → c < length tl →
    written (canConvert h tl (after h tl casts) (initTL tl d).typeId (indexOf t tl)).1.writes r c = 1
  inside : Within tl (initTL tl d).typeId ∧ Within tl (indexOf t tl)
  cast : (typeCast h tl (after h tl casts) t (some (initTL tl d))).2 = some (some (initTL tl d)) ↔ t ∈ tl ∧ h.Derives d t
  can : (canCast h tl (after h tl casts) t (some (initTL tl d))).2 = some true ↔ t ∈ tl ∧ h.Derives d t

theorem cast_exact (h : Hierarchy Class) (tl : List Class) (casts : List (Class × Option Object)) (d t : Class) (dynamic : d ∈ tl) :
    Agrees h tl casts d t ↔ t ∈ tl := by
  constructor
  · intro agrees
    exact indexOf_within.1 agrees.inside.2
  · intro listed
    have lookup := canConvert_listed (h := h) casts dynamic listed
    refine ⟨fun r c row column => ?_,⟨indexOf_within.2 dynamic,indexOf_within.2 listed⟩,?_,?_⟩
    · simp only [initTL,lookup]
      exact filled_written row column
    · simp only [typeCast,initTL,lookup,Option.map_some,Option.some.injEq,listed,true_and,← converts_exact (h := h)]
      cases h.converts d t <;> simp
    · simp only [canCast,initTL,lookup,Option.some.injEq,listed,true_and,← converts_exact (h := h)]

inductive Kind where
  | player | knight | archer
  deriving DecidableEq, Repr

def kinds : Hierarchy Kind where
  base
    | .knight | .archer => some .player
    | _ => none
  depth
    | .knight | .archer => 1
    | _ => 0
  deeper c b base := by cases c <;> cases base <;> decide

theorem cast_exact_knight :
    Kind.knight ∈ [Kind.player,.knight,.archer] ∧ Agrees kinds [.player,.knight,.archer] [(.archer,none)] .knight .player :=
  ⟨by decide,(cast_exact kinds _ _ _ _ (by decide)).mpr (by decide)⟩

theorem cast_outside_list :
    ¬∀ (tl : List Kind), tl.Nodup → ∀ d ∈ tl, ∀ t, Agrees kinds tl [] d t := by
  intro all
  have outside := (all [.knight] (by decide) .knight (by decide) .player).inside.2
  exact absurd outside (by decide)

end IocpChatServer.ServerCore.TypeCast
