import Mathlib.Data.List.Basic

namespace IocpChatServer.Foundations.Reader

variable {Symbol α β σ : Type _}

-- A reader takes a value off the front of its input; `Written` says which fronts stand for which
-- values. It reads the format if it finds a value exactly where one is written.
def Reads (read : List Symbol → Option (α × List Symbol)) (Written : α → List Symbol → Prop) : Prop :=
  ∀ input value rest, read input = some (value,rest) ↔ ∃ front, input = front ++ rest ∧ Written value front

variable {read : List Symbol → Option (α × List Symbol)} {Written : α → List Symbol → Prop}

theorem Reads.front (reads : Reads read Written) {value : α} {front : List Symbol} (written : Written value front)
    (rest : List Symbol) : read (front ++ rest) = some (value,rest) :=
  (reads _ _ _).mpr ⟨front,rfl,written⟩

theorem Reads.map (reads : Reads read Written) (f : α → β) :
    Reads (fun input => (read input).map fun r => (f r.1,r.2)) fun value front => ∃ a, Written a front ∧ value = f a := by
  intro input value rest
  constructor
  · intro made
    obtain ⟨⟨a,left⟩,found,equal⟩ := Option.map_eq_some_iff.mp made
    cases equal
    obtain ⟨front,split,written⟩ := (reads input a _).mp found
    exact ⟨front,split,a,written,rfl⟩
  · rintro ⟨front,rfl,a,written,rfl⟩
    simp only [reads.front written,Option.map_some]

theorem Reads.filter (reads : Reads read Written) (p : α → Prop) [DecidablePred p] :
    Reads (fun input => (read input).filter fun r => p r.1) fun value front => Written value front ∧ p value := by
  intro input value rest
  rw [Option.filter_eq_some_iff,reads]
  constructor
  · rintro ⟨⟨front,split,written⟩,kept⟩
    exact ⟨front,split,written,of_decide_eq_true kept⟩
  · rintro ⟨front,split,written,kept⟩
    exact ⟨⟨front,split,written⟩,decide_eq_true kept⟩

theorem Reads.bind (reads : Reads read Written) {next : α → List Symbol → Option (β × List Symbol)}
    {Next : α → β → List Symbol → Prop} (follows : ∀ a, Reads (next a) (Next a)) :
    Reads (fun input => (read input).bind fun r => next r.1 r.2)
      fun value front => ∃ a before after, front = before ++ after ∧ Written a before ∧ Next a value after := by
  intro input value rest
  constructor
  · intro found
    obtain ⟨⟨a,left⟩,found,more⟩ := Option.bind_eq_some_iff.mp found
    obtain ⟨before,rfl,written⟩ := (reads _ _ _).mp found
    obtain ⟨after,rfl,behind⟩ := (follows a _ _ _).mp more
    exact ⟨before ++ after,(List.append_assoc ..).symm,a,before,after,rfl,written,behind⟩
  · rintro ⟨front,rfl,a,before,after,rfl,written,behind⟩
    simp only [List.append_assoc,reads.front written,Option.bind_some]
    exact (follows a).front behind rest

theorem Reads.congr {Other : α → List Symbol → Prop} (reads : Reads read Written)
    (same : ∀ value front, Written value front ↔ Other value front) : Reads read Other := by
  intro input value rest
  simp only [reads input value rest,same]

def readCount (n : Nat) (input : List Symbol) : Option (List Symbol × List Symbol) :=
  if n ≤ input.length then some (input.take n,input.drop n) else none

theorem readCount_reads (n : Nat) : Reads (@readCount Symbol n) fun value front => value = front ∧ front.length = n := by
  intro input value rest
  unfold readCount
  constructor
  · intro found
    split at found
    · rename_i enough
      cases found
      exact ⟨_,(List.take_append_drop n input).symm,rfl,List.length_take_of_le enough⟩
    · cases found
  · rintro ⟨front,rfl,rfl,rfl⟩
    rw [if_pos (by simp),List.take_left,List.drop_left]

-- Reading on to the end of the input, a state in hand. A record takes at least one symbol, so
-- that the length of the input bounds the rounds.
def readAll (read : σ → List Symbol → Option (σ × List Symbol)) : Nat → List Symbol → σ → Option σ
  | _,[],s => some s
  | 0,_ :: _,_ => none
  | more + 1,symbol :: input,s => (read s (symbol :: input)).bind fun r => readAll read more r.2 r.1

inductive Records (Written : σ → σ → List Symbol → Prop) : σ → σ → List Symbol → Prop where
  | done {s : σ} : Records Written s s []
  | record {s t u : σ} {front rest : List Symbol} : Written s t front → Records Written t u rest → Records Written s u (front ++ rest)

section All
variable {read : σ → List Symbol → Option (σ × List Symbol)} {Written : σ → σ → List Symbol → Prop}

theorem Records.append {s t u : σ} {front rest : List Symbol} (first : Records Written s t front)
    (more : Records Written t u rest) : Records Written s u (front ++ rest) := by
  induction first with
  | done => exact more
  | record written _ ih =>
    rw [List.append_assoc]
    exact .record written (ih more)

theorem readAll_step (reads : ∀ s, Reads (read s) (Written s)) (progress : ∀ s t front, Written s t front → front ≠ [])
    {s t : σ} {front rest : List Symbol} (written : Written s t front) {fuel : Nat} (enough : (front ++ rest).length ≤ fuel) :
    readAll read fuel (front ++ rest) s = readAll read (fuel - 1) rest t := by
  have some_symbol := progress s t front written
  have found := (reads s).front written rest
  cases whole : front ++ rest with
  | nil => exact absurd (List.append_eq_nil_iff.mp whole).1 some_symbol
  | cons symbol input =>
    rw [whole] at found enough
    cases fuel with
    | zero => cases enough
    | succ more => simp only [readAll,found,Option.bind_some,Nat.add_sub_cancel]

theorem records_read (reads : ∀ s, Reads (read s) (Written s)) (progress : ∀ s t front, Written s t front → front ≠ [])
    {s t : σ} {input : List Symbol} (records : Records Written s t input) {fuel : Nat} (enough : input.length ≤ fuel) :
    readAll read fuel input s = some t := by
  induction records generalizing fuel with
  | done => cases fuel <;> rfl
  | @record s t u front rest written _ ih =>
    have longer : 0 < front.length := List.length_pos_iff.mpr (progress s t front written)
    have lengths : (front ++ rest).length = front.length + rest.length := List.length_append
    rw [readAll_step reads progress written enough]
    exact ih (by omega)

theorem read_records (reads : ∀ s, Reads (read s) (Written s)) {fuel : Nat} {s t : σ} {input : List Symbol}
    (found : readAll read fuel input s = some t) : Records Written s t input := by
  induction fuel generalizing input s with
  | zero =>
    cases input with
    | nil =>
      cases found
      exact .done
    | cons => cases found
  | succ more ih =>
    cases input with
    | nil =>
      cases found
      exact .done
    | cons symbol input =>
      obtain ⟨⟨next,rest⟩,first,found⟩ := Option.bind_eq_some_iff.mp found
      obtain ⟨front,split,written⟩ := (reads s _ _ _).mp first
      rw [split]
      exact .record written (ih found)

theorem readAll_exact (reads : ∀ s, Reads (read s) (Written s)) (progress : ∀ s t front, Written s t front → front ≠ [])
    {s t : σ} {input : List Symbol} : readAll read input.length input s = some t ↔ Records Written s t input :=
  ⟨read_records reads,fun records => records_read reads progress records (Nat.le_refl _)⟩

theorem records_front (reads : ∀ s, Reads (read s) (Written s)) (progress : ∀ s t front, Written s t front → front ≠ [])
    {s t u : σ} {front rest : List Symbol} (records : Records Written s t front) :
    Records Written s u (front ++ rest) ↔ Records Written t u rest := by
  refine ⟨?_,records.append⟩
  induction records with
  | done => exact id
  | @record s next t front behind written _ ih =>
    intro whole
    have found := records_read reads progress whole (Nat.le_refl _)
    rw [List.append_assoc,readAll_step reads progress written (Nat.le_refl _)] at found
    exact ih (read_records reads found)

end All

end IocpChatServer.Foundations.Reader
