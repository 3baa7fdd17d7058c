import Mathlib.Algebra.Order.Ring.Nat
import Mathlib.Data.List.Basic

namespace IocpChatServer.Foundations.Framing
variable {α : Type _} {frames earlier later rest : List (List α)} {f : List α} {n k size : Nat}

-- A stream is the concatenation of its frames; `n` is how much of it has been seen.
def arrived : List (List α) → Nat → List (List α)
  | [],_ => []
  | f :: rest,n => if f.length ≤ n then f :: arrived rest (n - f.length) else []

def waiting (frames : List (List α)) (n : Nat) : Nat := n - (arrived frames n).flatten.length

def missing (frames : List (List α)) (n : Nat) : List (List α) :=
  frames.drop (arrived frames n).length

theorem arrived_fits : (arrived frames n).flatten.length ≤ n := by
  induction frames generalizing n with
  | nil => simp [arrived]
  | cons f rest ih =>
    unfold arrived
    split
    · have := @ih (n - f.length)
      simp only [List.flatten_cons,List.length_append]
      omega
    · simp

theorem arrived_missing (frames : List (List α)) (n : Nat) :
    arrived frames n ++ missing frames n = frames := by
  induction frames generalizing n with
  | nil => simp [arrived,missing]
  | cons f rest ih =>
    unfold missing arrived
    split
    · simpa [missing] using ih (n - f.length)
    · simp

theorem arrived_append (whole : earlier.flatten.length ≤ n) :
    arrived (earlier ++ later) n = earlier ++ arrived later (n - earlier.flatten.length) := by
  induction earlier generalizing n with
  | nil => simp
  | cons f rest ih =>
    simp only [List.flatten_cons,List.length_append] at whole
    rw [List.cons_append,arrived,if_pos (by omega),ih (by omega)]
    simp [Nat.sub_add_eq]

theorem arrived_seen (frames : List (List α)) (n : Nat) :
    (arrived frames n).flatten.length + waiting frames n = n :=
  Nat.add_sub_cancel' arrived_fits

theorem waiting_whole (frames : List (List α)) : waiting frames frames.flatten.length = 0 := by
  have whole : arrived frames frames.flatten.length = frames := by simpa [arrived] using @arrived_append _ frames [] _ (Nat.le_refl _)
  have seen := arrived_seen frames frames.flatten.length
  rw [whole] at seen
  omega

theorem arrived_more (frames : List (List α)) (n k : Nat) :
    arrived frames (n+k) = arrived frames n ++ arrived (missing frames n) (waiting frames n + k) := by
  have seen := arrived_seen frames n
  conv_lhs => rw [← arrived_missing frames n]
  rw [arrived_append (by omega)]
  congr 2
  omega

theorem arrived_idle (frames : List (List α)) (n : Nat) :
    arrived (missing frames n) (waiting frames n) = [] := by
  have more := arrived_more frames n 0
  simpa using more.symm

theorem arrived_same (order : n ≤ k) :
    arrived frames n = arrived frames k ↔ (arrived frames k).flatten.length ≤ n := by
  constructor
  · intro same
    exact same ▸ arrived_fits
  · intro covered
    induction frames generalizing n k with
    | nil => rfl
    | cons f rest ih =>
      by_cases fits : f.length ≤ k
      · simp only [arrived,if_pos fits,List.flatten_cons,List.length_append] at covered ⊢
        have early : f.length ≤ n := by omega
        have later := @ih (n - f.length) (k - f.length) (by omega) (by omega)
        rw [if_pos early,later]
      · rw [arrived,if_neg (by omega),arrived,if_neg fits]

theorem stream_parts (frames : List (List α)) (n : Nat) :
    frames.flatten = (arrived frames n).flatten ++ (missing frames n).flatten := by
  rw [← List.flatten_append,arrived_missing]

theorem missing_more (frames : List (List α)) (n k : Nat)
    (same : arrived (missing frames n) k = arrived (missing frames n) (waiting frames n + k)) :
    missing frames (n+k) = missing (missing frames n) k ∧ waiting frames (n+k) = waiting frames n + waiting (missing frames n) k := by
  have more := arrived_more frames n k
  rw [← same] at more
  have before := arrived_seen frames n
  have after := arrived_seen frames (n+k)
  have apart := arrived_seen (missing frames n) k
  constructor
  · rw [missing,more,List.length_append,← List.drop_drop]
    rfl
  · rw [more,List.flatten_append,List.length_append] at after
    omega

theorem waiting_less (missed : missing frames n = f :: rest) : waiting frames n < f.length := by
  have idle := arrived_idle frames n
  rw [missed,arrived] at idle
  split at idle
  · cases idle
  · omega

theorem waiting_bounded (short : ∀ f ∈ frames, f.length ≤ size) (positive : 0 < size)
    (within : n ≤ frames.flatten.length) : waiting frames n < size := by
  cases missed : missing frames n with
  | nil =>
    have whole := arrived_missing frames n
    rw [missed,List.append_nil] at whole
    have seen := arrived_seen frames n
    rw [whole] at seen
    omega
  | cons f rest =>
    have member : f ∈ frames := by
      rw [← arrived_missing frames n,missed]
      simp
    exact Nat.lt_of_lt_of_le (waiting_less missed) (short f member)

-- Frames dealt out in order to rooms of the given sizes: a room takes the next frames that fit
-- into it as a whole. What is left of the frames, and what is left free of the rooms.
def undealt : List (List α) → List Nat → List (List α)
  | frames,[] => frames
  | frames,room :: rooms => undealt (missing frames room) rooms

def spare : List (List α) → List Nat → Nat
  | _,[] => 0
  | frames,room :: rooms => waiting frames room + spare (missing frames room) rooms

theorem undealt_append (frames : List (List α)) (rooms more : List Nat) :
    undealt frames (rooms ++ more) = undealt (undealt frames rooms) more := by
  induction rooms generalizing frames with
  | nil => rfl
  | cons room rooms ih => exact ih (missing frames room)

theorem spare_append (frames : List (List α)) (rooms more : List Nat) :
    spare frames (rooms ++ more) = spare frames rooms + spare (undealt frames rooms) more := by
  induction rooms generalizing frames with
  | nil => simp [spare,undealt]
  | cons room rooms ih =>
    simp only [List.cons_append,spare,undealt,ih]
    omega

theorem undealt_mem {rooms : List Nat} (member : f ∈ undealt frames rooms) : f ∈ frames := by
  induction rooms generalizing frames with
  | nil => exact member
  | cons room rooms ih => exact List.mem_of_mem_drop (ih member)

theorem spare_dealt (frames : List (List α)) (rooms : List Nat) :
    frames.flatten.length + spare frames rooms = rooms.sum + (undealt frames rooms).flatten.length := by
  induction rooms generalizing frames with
  | nil => simp [spare,undealt]
  | cons room rooms ih =>
    have parts := congrArg List.length (stream_parts frames room)
    have seen := arrived_seen frames room
    have rest := ih (missing frames room)
    rw [List.length_append] at parts
    simp only [spare,undealt,List.sum_cons]
    omega

theorem undealt_stream (frames : List (List α)) (rooms : List Nat) :
    frames.flatten.drop rooms.sum = (undealt frames rooms).flatten.drop (spare frames rooms) := by
  induction rooms generalizing frames with
  | nil => rfl
  | cons room rooms ih =>
    have seen := arrived_seen frames room
    have past : room + rooms.sum = (arrived frames room).flatten.length + (rooms.sum + waiting frames room) := by omega
    simp only [undealt,spare,List.sum_cons,past]
    conv_lhs => rw [stream_parts frames room,← List.drop_drop,List.drop_left,← List.drop_drop,ih (missing frames room),List.drop_drop]
    rw [Nat.add_comm]

-- The places at which units begin when `n` cells are cut by the sizes the units declare in
-- their headers.
inductive Boundary (header : Nat) (sizeAt : Nat → Nat) (n : Nat) : Nat → Prop where
  | first : Boundary header sizeAt n 0
  | next : Boundary header sizeAt n pos → pos + header ≤ n → pos + sizeAt pos ≤ n → Boundary header sizeAt n (pos + sizeAt pos)

theorem Boundary.within {sizeAt : Nat → Nat} (boundary : Boundary header sizeAt n pos) : pos ≤ n := by
  cases boundary with
  | first => exact Nat.zero_le n
  | next _ _ whole => exact whole

end IocpChatServer.Foundations.Framing
