import IocpChatServer.ServerCore.ChunkOwnership

namespace IocpChatServer.ServerCore.SendBufferManager
open Foundations TransitionSystem Counted Memory

def After.size : After → Option Nat
  | .outside => none
  | .reset _ size => some size

def Position.size : Position → Option Nat
  | .pop _ size | .assign _ size _ | .reset _ size | .check size | .openChunk size => some size
  | .release _ after | .push _ after => after.size
  | .outside => none

def Position.resets : Position → Prop
  | .reset _ _ => True
  | .release _ after | .push _ after => after ≠ .outside
  | .outside | .pop _ _ | .assign _ _ _ | .check _ | .openChunk _ => False

@[simp] theorem After.position_size (after : After) : after.position.size = after.size := by cases after <;> rfl
@[simp] theorem After.position_resets (after : After) : after.position.resets ↔ after ≠ .outside := by
  cases after <;> simp [After.position,Position.resets]

@[simp] theorem Position.release_size : (Position.release chunk after).size = after.size := rfl
@[simp] theorem Position.push_size : (Position.push chunk after).size = after.size := rfl
@[simp] theorem Position.release_resets : (Position.release chunk after).resets ↔ after ≠ .outside := Iff.rfl
@[simp] theorem Position.push_resets : (Position.push chunk after).resets ↔ after ≠ .outside := Iff.rfl

namespace Manager
variable {Thread : Type _} (s : Manager Thread)

-- The SendBuffers of a chunk lie one after another below its used size; the open one begins there.
structure Laid : Prop where
  within : ∀ chunk, (s.chunk chunk).usedSize ≤ SendBufferChunk.chunkSize
  opener : ∀ chunk, (s.chunk chunk).isOpen = true → ∃ t number, s.opened t = some number ∧ (s.buffer number).owner = chunk
  written : ∀ number, s.Live number → (s.buffer number).closed = true →
    (s.buffer number).region.buffer + (s.buffer number).region.writeSize ≤ (s.chunk (s.buffer number).owner).usedSize
  last : ∀ number, s.Live number → (s.buffer number).closed = false →
    (s.buffer number).region.buffer = (s.chunk (s.buffer number).owner).usedSize ∧
    (s.buffer number).region.buffer + (s.buffer number).region.allocSize ≤ SendBufferChunk.chunkSize ∧
    (s.chunk (s.buffer number).owner).isOpen = true
  ordered : ∀ number later, number < later → s.Live number → s.Live later → (s.buffer number).owner = (s.buffer later).owner →
    (s.buffer number).closed = true ∧
    (s.buffer number).region.buffer + (s.buffer number).region.writeSize ≤ (s.buffer later).region.buffer
  opened : ∀ t number, s.opened t = some number → (s.position t).size = none ∧ s.Live number ∧
    (s.buffer number).closed = false ∧ s.current t = some (s.buffer number).owner

-- A thread in Open has a chunk from `Reset` on, with nothing in it before `Reset` and room
-- for the size at the end.
structure Opening (t : Thread) : Prop where
  bare : ∀ chunk number, (s.position t).resets → s.current t = some chunk → s.Live number → (s.buffer number).owner ≠ chunk
  placed : (s.position t).resets ∨ (∃ size, s.position t = .check size ∨ s.position t = .openChunk size) → s.current t ≠ none
  sized : ∀ size, (s.position t).size = some size → size ≤ SendBufferChunk.chunkSize
  roomy : ∀ size chunk, s.position t = .openChunk size → s.current t = some chunk →
    (s.chunk chunk).usedSize + size ≤ SendBufferChunk.chunkSize

structure Valid : Prop where
  owned : s.Owned
  laid : s.Laid
  opening : ∀ t, s.Opening t
  running : s.failure = none

-- What the steps of threads leave alone: the SendBuffers but for their references, chunks
-- with SendBuffers in them, and the threads that do not move.
structure Walks (next : Manager Thread) (moves : Thread → Prop) : Prop where
  rows : ∀ number, next.Live number → s.Live number ∧ (next.buffer number).region = (s.buffer number).region ∧
    (next.buffer number).owner = (s.buffer number).owner ∧ (next.buffer number).closed = (s.buffer number).closed
  chunks : ∀ chunk, ((next.chunk chunk).usedSize = (s.chunk chunk).usedSize ∧ (next.chunk chunk).isOpen = (s.chunk chunk).isOpen) ∨
    (next.chunk chunk).Idle ∧ (∀ number, s.Live number → (s.buffer number).owner ≠ chunk) ∧
    ∀ u, ¬ moves u → s.current u ≠ some chunk
  opened : next.opened = s.opened
  kept : ∀ u number, s.opened u = some number → next.Live number
  positions : ∀ u, ¬ moves u → next.position u = s.position u
  currents : ∀ u, ¬ moves u → next.current u = s.current u
  failure : next.failure = s.failure

section Steps
variable [DecidableEq Thread]

def joined (t : Thread) (chunk size : Nat) : Manager Thread := {s with
  chunk := Function.update s.chunk chunk {s.chunk chunk with isOpen := true}
  holders := hold s.holders chunk (.buffer s.bufferCount)
  buffer := Function.update s.buffer s.bufferCount ⟨⟨(s.chunk chunk).usedSize,size,0⟩,chunk,1,false⟩
  bufferCount := s.bufferCount + 1
  opened := Function.update s.opened t (some s.bufferCount)}.goto t .outside

def shutBy (t : Thread) (number writeSize : Nat) : Manager Thread :=
  let owner := (s.buffer number).owner
  {s with
    chunk := Function.update s.chunk owner
      {s.chunk owner with isOpen := false,usedSize := (s.chunk owner).usedSize + writeSize}
    buffer := Function.update s.buffer number
      {s.buffer number with region := {(s.buffer number).region with writeSize := writeSize},closed := true}
    opened := Function.update s.opened t none}

end Steps
end Manager

-- The steps of a valid manager: none of them runs into an assertion or a null pointer.
inductive Does {Thread : Type _} [DecidableEq Thread] (s : Manager Thread) : Event Thread → Manager Thread → Prop where
  | opens : s.position t = .outside → s.opened t = none → size ≤ SendBufferChunk.chunkSize →
      Does s (.openBuffer t size) (s.goto t (if s.current t = none then .pop true size else .check size))
  | pops : s.position t = .pop first size → Does s (.go t) (s.pop t first size)
  | assigns : s.position t = .assign first size chunk → Does s (.go t) (s.assign t first size chunk)
  | ends : s.position t = .release chunk after → Does s (.go t) (s.endTemporary t chunk after)
  | pushes : s.position t = .push chunk after →
      Does s (.go t) ({s with pool := s.pool ++ [chunk],holders := hold s.holders chunk .pool}.goto t (.release chunk after))
  | resets : s.position t = .reset first size → s.current t = some chunk →
      Does s (.go t) ({s with chunk := Function.update s.chunk chunk (s.chunk chunk).reset}.goto t
        (if first then .check size else .openChunk size))
  | checks : s.position t = .check size → s.current t = some chunk →
      Does s (.go t) (s.goto t (if (s.chunk chunk).freeSize < size then .pop false size else .openChunk size))
  | joins : s.position t = .openChunk size → s.current t = some chunk → Does s (.go t) (s.joined t chunk size)
  | shuts : s.opened t = some number → s.position t = .outside → writeSize ≤ (s.buffer number).region.allocSize →
      Does s (.close t writeSize) (s.shutBy t number writeSize)
  | copies : s.Live number → Does s (.copy number)
      {s with buffer := Function.update s.buffer number {s.buffer number with references := (s.buffer number).references + 1}}
  | drops : s.position t = .outside → s.Live number → ((s.buffer number).closed = true ∨ 2 ≤ (s.buffer number).references) →
      Does s (.drop t number) (s.drop t number)
  | writes : s.Live number → offset + bytes.length ≤ (s.buffer number).region.allocSize → Does s (.write number offset bytes)
      {s with chunk := Function.update s.chunk (s.buffer number).owner {s.chunk (s.buffer number).owner with
        buffer := store (s.chunk (s.buffer number).owner).buffer ((s.buffer number).region.buffer + offset) bytes}}

namespace Manager
variable {Thread : Type _} {s next : Manager Thread} {moves : Thread → Prop} {t : Thread}

theorem Laid.walked (laid : s.Laid) (walks : s.Walks next moves)
    (mine : ∀ u number, moves u → s.opened u = some number → (next.position u).size = none ∧ next.current u = s.current u) :
    next.Laid where
  within chunk := by
    rcases walks.chunks chunk with ⟨same,_⟩ | ⟨idle,_⟩
    · exact same ▸ laid.within chunk
    · exact idle.within
  opener chunk isOpen := by
    rcases walks.chunks chunk with ⟨_,same⟩ | ⟨idle,_⟩
    · obtain ⟨t,number,opened,owner⟩ := laid.opener chunk (same ▸ isOpen)
      refine ⟨t,number,walks.opened ▸ opened,?_⟩
      rw [(walks.rows number (walks.kept t number opened)).2.2.1,owner]
    · exact absurd (idle.closed.symm.trans isOpen) (by simp)
  written number live closed := by
    obtain ⟨was,region,owner,same⟩ := walks.rows number live
    have bound := laid.written number was (same ▸ closed)
    rw [region,owner]
    rcases walks.chunks (s.buffer number).owner with ⟨used,_⟩ | ⟨_,bare,_⟩
    · exact used ▸ bound
    · exact absurd rfl (bare number was)
  last number live closed := by
    obtain ⟨was,region,owner,same⟩ := walks.rows number live
    have bound := laid.last number was (same ▸ closed)
    rw [region,owner]
    rcases walks.chunks (s.buffer number).owner with ⟨used,isOpen⟩ | ⟨_,bare,_⟩
    · rwa [used,isOpen]
    · exact absurd rfl (bare number was)
  ordered number later less live liveToo same := by
    obtain ⟨was,region,owner,closed⟩ := walks.rows number live
    obtain ⟨wasToo,regionToo,ownerToo,_⟩ := walks.rows later liveToo
    rw [closed,region,regionToo]
    exact laid.ordered number later less was wasToo (by rw [← owner,← ownerToo,same])
  opened u number held := by
    rw [walks.opened] at held
    obtain ⟨outside,_,closed,current⟩ := laid.opened u number held
    have live := walks.kept u number held
    obtain ⟨_,_,owner,same⟩ := walks.rows number live
    rw [owner,same]
    by_cases moved : moves u
    · obtain ⟨away,stays⟩ := mine u number moved held
      exact ⟨away,live,closed,stays.trans current⟩
    · rw [walks.positions u moved,walks.currents u moved]
      exact ⟨outside,live,closed,current⟩

theorem Opening.walked (opening : s.Opening t) (walks : s.Walks next moves) (still : ¬ moves t) : next.Opening t where
  bare chunk number resets current live := by
    rw [walks.positions t still] at resets
    rw [walks.currents t still] at current
    obtain ⟨was,_,owner,_⟩ := walks.rows number live
    rw [owner]
    exact opening.bare chunk number resets current was
  placed ahead := by
    rw [walks.positions t still] at ahead
    rw [walks.currents t still]
    exact opening.placed ahead
  sized size inside := by
    rw [walks.positions t still] at inside
    exact opening.sized size inside
  roomy size chunk at_ current := by
    rw [walks.positions t still] at at_
    rw [walks.currents t still] at current
    rcases walks.chunks chunk with ⟨used,_⟩ | ⟨_,_,away⟩
    · exact used ▸ opening.roomy size chunk at_ current
    · exact absurd current (away t still)

variable {size chunk number : Nat}

theorem Valid.walked (valid : s.Valid) (walks : s.Walks next moves) (owned : next.Owned)
    (opening : ∀ u, moves u → next.Opening u)
    (mine : ∀ u number, moves u → s.opened u = some number → (next.position u).size = none ∧ next.current u = s.current u) :
    next.Valid where
  owned := owned
  laid := valid.laid.walked walks mine
  opening u := by
    by_cases moved : moves u
    · exact opening u moved
    · exact (valid.opening u).walked walks moved
  running := walks.failure.trans valid.running

theorem Laid.still (laid : s.Laid) (t : Thread) (chunk : next.chunk = s.chunk) (buffer : next.buffer = s.buffer) (count : next.bufferCount = s.bufferCount)
    (opened : next.opened = s.opened) (failure : next.failure = s.failure) (positions : ∀ u, u ≠ t → next.position u = s.position u)
    (currents : ∀ u, u ≠ t → next.current u = s.current u) : s.Walks next (· = t) where
  rows number live := by
    rw [Live,buffer,count] at live
    rw [buffer]
    exact ⟨live,rfl,rfl,rfl⟩
  chunks held := .inl (by rw [chunk]; exact ⟨rfl,rfl⟩)
  opened := opened
  kept u number held := by
    rw [Live,buffer,count]
    exact (laid.opened u number held).2.1
  positions := positions
  currents := currents
  failure := failure

theorem Laid.inside (laid : s.Laid) (inside : (s.position t).size = some size) (held : s.opened t = some number) : False := by
  have outside := (laid.opened t number held).1
  rw [inside] at outside
  cases outside

theorem Opening.waits (opening : s.Opening t) (current : next.current t = s.current t)
    (rows : ∀ number, next.Live number → s.Live number ∧ (next.buffer number).owner = (s.buffer number).owner)
    (resets : (next.position t).resets → (s.position t).resets) (size : (next.position t).size = (s.position t).size)
    (early : ∀ size, next.position t ≠ .check size ∧ next.position t ≠ .openChunk size) : next.Opening t where
  bare chunk number ahead held live := by
    obtain ⟨was,owner⟩ := rows number live
    rw [owner]
    exact opening.bare chunk number (resets ahead) (current ▸ held) was
  placed ahead := by
    rw [current]
    rcases ahead with ahead | ⟨n,at_ | at_⟩
    · exact opening.placed (.inl (resets ahead))
    · exact absurd at_ (early n).1
    · exact absurd at_ (early n).2
  sized n inside := opening.sized n (size ▸ inside)
  roomy n _ at_ := absurd at_ (early n).2

theorem Opening.outside (outside : s.position t = .outside) : s.Opening t := by
  refine ⟨?_,?_,?_,?_⟩ <;> simp [outside,Position.resets,Position.size]

theorem Owned.apart (owned : s.Owned) (home : s.Home (.temporary t) chunk) (u : Thread) : s.current u ≠ some chunk := by
  intro current
  cases owned.sole (.current u) _ _ ⟨current,trivial⟩ home

theorem Owned.current (owned : s.Owned) {u : Thread} (mine : s.current t = some chunk) (theirs : s.current u = some chunk) : u = t := by
  cases owned.sole (.current u) (.current t) chunk ⟨theirs,trivial⟩ ⟨mine,trivial⟩
  rfl

theorem Valid.walkedByNone (valid : s.Valid) (walks : s.Walks next fun _ => False) (owned : next.Owned) : next.Valid :=
  valid.walked walks owned (fun _ none => none.elim) fun _ _ none => none.elim

theorem Valid.walkedBy (valid : s.Valid) (walks : s.Walks next (· = t)) (owned : next.Owned) (opening : next.Opening t)
    (mine : ∀ number, s.opened t = some number → (next.position t).size = none ∧ next.current t = s.current t) : next.Valid := by
  refine valid.walked walks owned ?_ ?_
  · rintro u rfl
    exact opening
  · rintro u number rfl held
    exact mine number held

theorem Valid.shut (valid : s.Valid) (inside : (s.position t).size = some size) (current : s.current t = some chunk) :
    (s.chunk chunk).isOpen = false := by
  by_contra isOpen
  obtain ⟨u,number,held,owner⟩ := valid.laid.opener chunk (by simpa using isOpen)
  obtain ⟨outside,_,_,theirs⟩ := valid.laid.opened u number held
  cases valid.owned.current current (owner ▸ theirs)
  rw [inside] at outside
  cases outside

theorem Live.below (live : s.Live number) : number ≠ s.bufferCount := Nat.ne_of_lt live.1

theorem close_shut {writeSize : Nat} (valid : s.Valid) (held : s.opened t = some number) (fits : writeSize ≤ (s.buffer number).region.allocSize) :
    (s.buffer number).region.close (s.chunk (s.buffer number).owner) writeSize =
      .ok ({(s.buffer number).region with writeSize := writeSize},
        {s.chunk (s.buffer number).owner with isOpen := false,usedSize := (s.chunk (s.buffer number).owner).usedSize + writeSize}) := by
  obtain ⟨_,live,open_,_⟩ := valid.laid.opened t number held
  obtain ⟨_,_,isOpen⟩ := valid.laid.last number live open_
  simp [SendBuffer.close,SendBufferChunk.close,Nat.not_lt.mpr fits,isOpen]

theorem start_holds (holder : Holder Thread) (chunk : Nat) : ¬ (start : Manager Thread).Holds holder chunk := by
  cases holder <;> simp [Holds,start,Live,Position.temporary]

theorem start_live (number : Nat) : ¬ (start : Manager Thread).Live number := by simp [Live,start]

theorem start_valid : (start : Manager Thread).Valid where
  owned := {
    exact_ := ⟨fun chunk holder => iff_of_false List.not_mem_nil (start_holds holder chunk),fun _ => List.nodup_nil⟩
    made := fun holder chunk holds => absurd holds (start_holds holder chunk)
    nodup := List.nodup_nil
    sole := fun one _ chunk home => absurd home.1 (start_holds one chunk)
    alone := fun home chunk _ there => absurd there.1 (start_holds home chunk) }
  laid := {
    within := fun _ => Nat.zero_le _
    opener := fun _ isOpen => by cases isOpen
    written := fun number live => absurd live (start_live number)
    last := fun number live => absurd live (start_live number)
    ordered := fun number _ _ live => absurd live (start_live number)
    opened := fun _ _ held => by cases held }
  opening t := .outside rfl
  running := rfl

variable [DecidableEq Thread] {position : Position} {after : After} {first : Bool} {writeSize offset : Nat} {bytes : List BYTE}

theorem goto_valid (valid : s.Valid) (free : (s.position t).temporary = none) (freeToo : position.temporary = none)
    (opening : (s.goto t position).Opening t) (mine : s.opened t = none ∨ position.size = none) : (s.goto t position).Valid := by
  refine valid.walkedBy (valid.laid.still t rfl rfl rfl rfl rfl (fun u apart => ?_) fun u _ => rfl) (goto_owned valid.owned free freeToo)
    opening fun number held => ?_
  · simp [goto,apart]
  · rcases mine with none | outside
    · rw [none] at held
      cases held
    · exact ⟨by simpa [goto] using outside,rfl⟩

theorem openBuffer_valid (valid : s.Valid) (outside : s.position t = .outside) (none : s.opened t = none) (small : size ≤ SendBufferChunk.chunkSize) :
    (s.goto t (if s.current t = .none then .pop true size else .check size)).Valid := by
  have free : (s.position t).temporary = .none := by rw [outside,Position.temporary]
  split
  · refine goto_valid valid free rfl ⟨?_,?_,?_,?_⟩ (.inl none)
    all_goals simp [goto,Position.resets,Position.size,small]
  · rename_i some_
    refine goto_valid valid free rfl ⟨?_,?_,?_,?_⟩ (.inl none)
    all_goals simp [goto,Position.resets,Position.size,small,some_]

theorem pop_valid (valid : s.Valid) (at_ : s.position t = .pop first size) : (s.pop t first size).Valid := by
  have inside : (s.position t).size = some size := by rw [at_,Position.size]
  have small := (valid.opening t).sized size inside
  have owned := pop_owned valid.owned at_
  unfold pop at owned ⊢
  split
  · rename_i chunk last
    simp only [last] at owned
    refine valid.walkedBy (valid.laid.still t rfl rfl rfl rfl rfl (fun u apart => ?_) fun u _ => rfl) owned ⟨?_,?_,?_,?_⟩
      fun number held => (valid.laid.inside inside held).elim
    · simp [goto,apart]
    all_goals simp [goto,Position.resets,Position.size,small]
  · rename_i last
    simp only [last] at owned
    have unmade (holder : Holder Thread) (holds : s.Holds holder s.made) : False := Nat.lt_irrefl _ (valid.owned.made holder _ holds)
    have walks : s.Walks (({s with
        made := s.made + 1
        chunk := Function.update s.chunk s.made .fresh
        holders := hold s.holders s.made (.temporary t)} : Manager Thread).goto t (.assign first size s.made)) (· = t) := by
      refine ⟨fun number live => ⟨live,rfl,rfl,rfl⟩,fun chunk => ?_,rfl,fun u number held => (valid.laid.opened u number held).2.1,
        fun u apart => ?_,fun u _ => rfl,rfl⟩
      · by_cases same : chunk = s.made
        · subst same
          refine .inr ⟨by simpa [goto] using (⟨rfl,Nat.zero_le _⟩ : SendBufferChunk.fresh.Idle),fun number live owner => ?_,fun u _ current => ?_⟩
          · exact unmade (.buffer number) ⟨live,owner⟩
          · exact unmade (.current u) current
        · exact .inl (by simp [goto,same])
      · simp [goto,apart]
    refine valid.walkedBy walks owned ⟨?_,?_,?_,?_⟩ fun number held => (valid.laid.inside inside held).elim
    all_goals simp [goto,Position.resets,Position.size,small]

theorem assign_valid (valid : s.Valid) (at_ : s.position t = .assign first size chunk) : (s.assign t first size chunk).Valid := by
  have inside : (s.position t).size = some size := by rw [at_,Position.size]
  have small := (valid.opening t).sized size inside
  have carried : s.Home (.temporary t) chunk := by simp [Home,Holds,Settled,at_,Position.temporary,Position.carries]
  have bare (number : Nat) (live : s.Live number) : (s.buffer number).owner ≠ chunk := by
    intro owner
    obtain ⟨u,same⟩ := valid.owned.alone _ chunk number carried live owner
    cases same
  have owned := assign_owned valid.owned at_
  unfold assign at owned ⊢
  split
  all_goals
    rename_i held
    simp only [held] at owned
    refine valid.walkedBy (valid.laid.still t rfl rfl rfl rfl rfl (fun u apart => ?_) fun u apart => ?_) owned ⟨?_,?_,?_,?_⟩
      fun number held => (valid.laid.inside inside held).elim
    · simp [goto,apart]
    · simp [goto,apart]
    · rintro other number _ current live
      have same : chunk = other := by simpa [goto] using current
      exact same ▸ bare number live
  all_goals simp [goto,Position.resets,Position.size,After.size,small]

theorem pooled_valid (valid : s.Valid) {position : Position} {pool : List Nat} {holders : Nat → List (Holder Thread)}
    (owned : (({s with pool := pool,holders := holders} : Manager Thread).goto t position).Owned)
    (resets : position.resets → (s.position t).resets) (size : position.size = (s.position t).size)
    (early : ∀ size, position ≠ .check size ∧ position ≠ .openChunk size) :
    (({s with pool := pool,holders := holders} : Manager Thread).goto t position).Valid := by
  refine valid.walkedBy (valid.laid.still t rfl rfl rfl rfl rfl (fun u apart => ?_) fun u _ => rfl) owned
    ((valid.opening t).waits rfl (fun number live => ⟨live,rfl⟩) ?_ ?_ ?_) fun number held => ⟨?_,rfl⟩
  · simp [goto,apart]
  · simpa [goto] using resets
  · simpa [goto] using size
  · simpa [goto] using early
  · have outside := (valid.laid.opened t number held).1
    simpa [goto,size] using outside

theorem endTemporary_valid (valid : s.Valid) (at_ : s.position t = .release chunk after) : (s.endTemporary t chunk after).Valid := by
  have owned := endTemporary_owned valid.owned at_
  simp only [endTemporary] at owned ⊢
  split
  · rename_i last
    rw [if_pos last] at owned
    exact pooled_valid valid owned (by simp [at_]) (by simp [at_]) (by simp)
  · rename_i more
    rw [if_neg more] at owned
    exact pooled_valid valid owned (by simp [at_]) (by simp [at_]) (by cases after <;> simp [After.position])

theorem push_valid (valid : s.Valid) (at_ : s.position t = .push chunk after) :
    (({s with
      pool := s.pool ++ [chunk]
      holders := hold s.holders chunk .pool} : Manager Thread).goto t (.release chunk after)).Valid :=
  pooled_valid valid (push_owned valid.owned at_) (by simp [at_]) (by simp [at_]) (by simp)

theorem reset_valid (valid : s.Valid) (at_ : s.position t = .reset first size) (current : s.current t = some chunk) :
    (({s with chunk := Function.update s.chunk chunk (s.chunk chunk).reset} : Manager Thread).goto t
      (if first then .check size else .openChunk size)).Valid := by
  have inside : (s.position t).size = some size := by rw [at_,Position.size]
  have small := (valid.opening t).sized size inside
  have bare (number : Nat) (live : s.Live number) : (s.buffer number).owner ≠ chunk :=
    (valid.opening t).bare chunk number (by rw [at_]; trivial) current live
  have walks : s.Walks (({s with chunk := Function.update s.chunk chunk (s.chunk chunk).reset} : Manager Thread).goto t
      (if first then .check size else .openChunk size)) (· = t) := by
    refine ⟨fun number live => ⟨live,rfl,rfl,rfl⟩,fun other => ?_,rfl,fun u number held => (valid.laid.opened u number held).2.1,
      fun u apart => ?_,fun u _ => rfl,rfl⟩
    · by_cases same : other = chunk
      · subst same
        exact .inr ⟨by simpa [goto] using SendBufferChunk.reset_idle _,bare,fun u apart held => apart (valid.owned.current current held)⟩
      · exact .inl (by simp [goto,same])
    · simp [goto,apart]
  have owned : (({s with chunk := Function.update s.chunk chunk (s.chunk chunk).reset} : Manager Thread).goto t
      (if first then .check size else .openChunk size)).Owned := by
    refine goto_owned (valid.owned.same ?_ ?_ rfl rfl rfl fun number live => ⟨live,rfl⟩) (by simp only [at_,Position.temporary]) ?_
    · intro holder held
      cases holder <;> exact Iff.rfl
    · intro holder settled
      cases holder <;> exact settled
    · split <;> rfl
  refine valid.walkedBy walks owned ⟨fun held number ahead => ?_,fun _ => ?_,fun n there => ?_,fun n held there mine => ?_⟩
    fun number held => (valid.laid.inside inside held).elim
  · cases first <;> simp [goto,Position.resets] at ahead
  · simp [goto,current]
  · have same : size = n := by cases first <;> simpa [goto,Position.size] using there
    exact same ▸ small
  · have same : chunk = held := by simpa [goto,current] using mine
    subst same
    have same : size = n := by cases first <;> simp_all [goto]
    simpa [goto,SendBufferChunk.reset,same] using same ▸ small

theorem check_valid (valid : s.Valid) (at_ : s.position t = .check size) (current : s.current t = some chunk) :
    (s.goto t (if (s.chunk chunk).freeSize < size then .pop false size else .openChunk size)).Valid := by
  have inside : (s.position t).size = some size := by rw [at_,Position.size]
  have small := (valid.opening t).sized size inside
  have within := valid.laid.within chunk
  have none : s.opened t = none := Option.eq_none_iff_forall_ne_some.mpr fun number held => valid.laid.inside inside held
  have free : (s.position t).temporary = .none := by rw [at_,Position.temporary]
  split
  · refine goto_valid valid free rfl ⟨?_,?_,?_,?_⟩ (.inl none)
    all_goals simp [goto,Position.resets,Position.size,small]
  · rename_i room
    have enough : (s.chunk chunk).usedSize + size ≤ SendBufferChunk.chunkSize := by
      unfold SendBufferChunk.freeSize at room
      omega
    refine goto_valid valid free rfl ⟨?_,?_,?_,?_⟩ (.inl none)
    all_goals simp [goto,Position.resets,Position.size,small,current,enough]

theorem openChunk_joined (valid : s.Valid) (at_ : s.position t = .openChunk size) (current : s.current t = some chunk) :
    s.openChunk t chunk size = s.joined t chunk size := by
  have inside : (s.position t).size = some size := by rw [at_,Position.size]
  have small := (valid.opening t).sized size inside
  have room := (valid.opening t).roomy size chunk at_ current
  have enough : ¬ (s.chunk chunk).freeSize < size := by
    unfold SendBufferChunk.freeSize
    omega
  simp [openChunk,SendBufferChunk.openBuffer,Nat.not_lt.mpr small,valid.shut inside current,enough,joined]

theorem joined_live : (s.joined t chunk size).Live number ↔ s.Live number ∨ number = s.bufferCount := by
  by_cases same : number = s.bufferCount
  · subst same
    simp [joined,goto,Live]
  · have below : number < s.bufferCount + 1 ↔ number < s.bufferCount := by omega
    simp [joined,goto,Live,same,below]

theorem joined_old (live : s.Live number) : (s.joined t chunk size).buffer number = s.buffer number := by
  simp [joined,goto,live.below]

theorem joined_used (held : Nat) : ((s.joined t chunk size).chunk held).usedSize = (s.chunk held).usedSize := by
  by_cases same : held = chunk
  · subst same
    simp [joined,goto]
  · simp [joined,goto,same]

theorem joined_owned (valid : s.Valid) (at_ : s.position t = .openChunk size) (current : s.current t = some chunk) :
    (s.joined t chunk size).Owned := by
  refine opened_owned valid.owned current (by simp [joined,goto]) (fun holder held => ?_) rfl rfl rfl fun u apart => by simp [joined,goto,apart]
  cases holder with
  | pool | current _ => simp [Holds,joined,goto]
  | temporary u =>
    by_cases same : u = t
    · subst same
      simp [Holds,joined,goto,at_,Position.temporary]
    · simp [Holds,joined,goto,same]
  | buffer number =>
    simp only [Holds,joined_live,Holder.buffer.injEq]
    by_cases same : number = s.bufferCount
    · subst same
      simp [joined,goto,Live,eq_comm]
    · simp [joined,goto,same]

theorem joined_laid (valid : s.Valid) (at_ : s.position t = .openChunk size) (current : s.current t = some chunk) :
    (s.joined t chunk size).Laid := by
  have laid := valid.laid
  have inside : (s.position t).size = some size := by rw [at_,Position.size]
  have shut := valid.shut inside current
  have room := (valid.opening t).roomy size chunk at_ current
  -- The chunk is not open, so what is in it is closed.
  have closed (number : Nat) (live : s.Live number) (owner : (s.buffer number).owner = chunk) : (s.buffer number).closed = true := by
    by_contra open_
    have isOpen := (laid.last number live (by simpa using open_)).2.2
    rw [owner,shut] at isOpen
    cases isOpen
  refine ⟨fun held => ?_,fun held isOpen => ?_,fun number live shutToo => ?_,fun number live open_ => ?_,
    fun number later less live liveToo same => ?_,fun u number held => ?_⟩
  · rw [joined_used]
    exact laid.within held
  · by_cases same : held = chunk
    · exact ⟨t,s.bufferCount,by simp [joined,goto],by simp [joined,goto,same]⟩
    · obtain ⟨u,number,opened,owner⟩ := laid.opener held (by simpa [joined,goto,same] using isOpen)
      have apart : u ≠ t := fun same => laid.inside (same ▸ inside) opened
      refine ⟨u,number,by simpa [joined,goto,apart] using opened,?_⟩
      rw [joined_old (laid.opened u number opened).2.1,owner]
  · rcases joined_live.mp live with live | rfl
    · rw [joined_old live] at shutToo ⊢
      rw [joined_used]
      exact laid.written number live shutToo
    · simp [joined,goto] at shutToo
  · rcases joined_live.mp live with live | rfl
    · rw [joined_old live] at open_ ⊢
      have other : (s.buffer number).owner ≠ chunk := fun owner => by simp [closed number live owner] at open_
      rw [joined_used]
      refine ⟨(laid.last number live open_).1,(laid.last number live open_).2.1,?_⟩
      simpa [joined,goto,other] using (laid.last number live open_).2.2
    · simpa [joined,goto] using room
  · rcases joined_live.mp live with live | rfl
    · rw [joined_old live] at same ⊢
      rcases joined_live.mp liveToo with liveToo | rfl
      · rw [joined_old liveToo] at same ⊢
        exact laid.ordered number later less live liveToo same
      · have owner : (s.buffer number).owner = chunk := by simpa [joined,goto] using same
        refine ⟨closed number live owner,?_⟩
        have below := laid.written number live (closed number live owner)
        rw [owner] at below
        simpa [joined,goto] using below
    · rcases joined_live.mp liveToo with liveToo | rfl
      · exact absurd liveToo.1 (Nat.not_lt.mpr (Nat.le_of_lt less))
      · exact absurd less (Nat.lt_irrefl _)
  · by_cases same : u = t
    · subst same
      have same : s.bufferCount = number := by simpa [joined,goto] using held
      subst same
      exact ⟨by simp [joined,goto,Position.size],joined_live.mpr (.inr rfl),by simp [joined,goto],by simpa [joined,goto] using current⟩
    · have held : s.opened u = some number := by simpa [joined,goto,same] using held
      obtain ⟨outside,live,open_,theirs⟩ := laid.opened u number held
      rw [joined_old live]
      exact ⟨by simpa [joined,goto,same] using outside,joined_live.mpr (.inl live),open_,theirs⟩

theorem joined_valid (valid : s.Valid) (at_ : s.position t = .openChunk size) (current : s.current t = some chunk) :
    (s.joined t chunk size).Valid := by
  refine ⟨joined_owned valid at_ current,joined_laid valid at_ current,fun u => ?_,valid.running⟩
  by_cases same : u = t
  · subst same
    exact .outside (by simp [joined,goto])
  · have opening := valid.opening u
    have position : (s.joined t chunk size).position u = s.position u := by simp [joined,goto,same]
    refine ⟨fun held number resets theirs live => ?_,fun ahead => ?_,fun n there => ?_,fun n held there theirs => ?_⟩
    · rw [position] at resets
      rcases joined_live.mp live with live | rfl
      · rw [joined_old live]
        exact opening.bare held number resets theirs live
      · intro owner
        have owner : chunk = held := by simpa [joined,goto] using owner
        exact same (valid.owned.current current (owner ▸ theirs))
    · rw [position] at ahead
      exact opening.placed ahead
    · rw [position] at there
      exact opening.sized n there
    · rw [position] at there
      rw [joined_used]
      exact opening.roomy n held there theirs

theorem shutBy_live {other : Nat} : (s.shutBy t number writeSize).Live other ↔ s.Live other := by
  by_cases same : other = number
  · subst same
    simp [shutBy,Live]
  · simp [shutBy,Live,same]

theorem shutBy_owner {other : Nat} : ((s.shutBy t number writeSize).buffer other).owner = (s.buffer other).owner := by
  by_cases same : other = number
  · subst same
    simp [shutBy]
  · simp [shutBy,same]

theorem shutBy_owned (owned : s.Owned) : (s.shutBy t number writeSize).Owned := by
  refine owned.same (fun holder held => ?_) (fun holder settled => ?_) rfl rfl rfl fun other live => ⟨shutBy_live.mp live,shutBy_owner⟩
  · cases holder with
    | pool | current _ | temporary _ => exact Iff.rfl
    | buffer other => simp only [Holds,shutBy_live,shutBy_owner]
  · cases holder <;> exact settled

theorem shutBy_laid (valid : s.Valid) (held : s.opened t = some number) (fits : writeSize ≤ (s.buffer number).region.allocSize) :
    (s.shutBy t number writeSize).Laid := by
  have laid := valid.laid
  obtain ⟨outside,live,open_,current⟩ := laid.opened t number held
  obtain ⟨start,room,_⟩ := laid.last number live open_
  -- The SendBuffers of the chunk but this one are closed.
  have last (other : Nat) (liveToo : s.Live other) (openToo : (s.buffer other).closed = false)
      (same : (s.buffer other).owner = (s.buffer number).owner) : other = number := by
    rcases Nat.lt_trichotomy other number with less | same_ | more
    · simp [(laid.ordered other number less liveToo live same).1] at openToo
    · exact same_
    · simp [(laid.ordered number other more live liveToo same.symm).1] at open_
  have apart {u : Thread} {other : Nat} (heldToo : s.opened u = some other) (away : u ≠ t) :
      (s.buffer other).owner ≠ (s.buffer number).owner := fun same =>
    away (valid.owned.current current (same ▸ (laid.opened u other heldToo).2.2.2))
  have grows (chunk : Nat) : (s.chunk chunk).usedSize ≤ ((s.shutBy t number writeSize).chunk chunk).usedSize := by
    by_cases same : chunk = (s.buffer number).owner
    · simp [shutBy,same]
    · simp [shutBy,same]
  have row {other : Nat} (other_ : other ≠ number) : (s.shutBy t number writeSize).buffer other = s.buffer other := by
    simp [shutBy,other_]
  refine ⟨fun chunk => ?_,fun chunk isOpen => ?_,fun other liveToo closed => ?_,fun other liveToo openToo => ?_,
    fun one later less liveOne liveLater same => ?_,fun u other heldToo => ?_⟩
  · by_cases same : chunk = (s.buffer number).owner
    · subst same
      simp only [shutBy,Function.update_self]
      omega
    · simpa [shutBy,same] using laid.within chunk
  · by_cases same : chunk = (s.buffer number).owner
    · simp [shutBy,same] at isOpen
    · obtain ⟨u,other,heldToo,owner⟩ := laid.opener chunk (by simpa [shutBy,same] using isOpen)
      have away : u ≠ t := by
        intro same
        subst same
        rw [held] at heldToo
        cases heldToo
        exact same owner.symm
      exact ⟨u,other,by simpa [shutBy,away] using heldToo,shutBy_owner.trans owner⟩
  · by_cases same : other = number
    · subst same
      simp [shutBy,start]
    · rw [row same] at closed ⊢
      exact Nat.le_trans (laid.written other (shutBy_live.mp liveToo) closed) (grows _)
  · by_cases same : other = number
    · subst same
      simp [shutBy] at openToo
    · rw [row same] at openToo ⊢
      have liveToo := shutBy_live.mp liveToo
      have elsewhere : (s.buffer other).owner ≠ (s.buffer number).owner := fun owner => same (last other liveToo openToo owner)
      simpa [shutBy,elsewhere] using laid.last other liveToo openToo
  · have liveOne := shutBy_live.mp liveOne
    have liveLater := shutBy_live.mp liveLater
    rw [shutBy_owner,shutBy_owner] at same
    obtain ⟨closed,below⟩ := laid.ordered one later less liveOne liveLater same
    have first : one ≠ number := by
      intro same
      subst same
      simp [closed] at open_
    rw [row first]
    refine ⟨closed,Nat.le_trans below (Nat.le_of_eq ?_)⟩
    by_cases second : later = number
    · subst second
      simp [shutBy]
    · rw [row second]
  · have away : u ≠ t := by
      intro same
      subst same
      simp [shutBy] at heldToo
    have heldToo : s.opened u = some other := by simpa [shutBy,away] using heldToo
    have other_ : other ≠ number := fun same => apart heldToo away (same ▸ rfl)
    rw [row other_,shutBy_live]
    exact laid.opened u other heldToo

theorem shutBy_valid (valid : s.Valid) (held : s.opened t = some number) (outside : s.position t = .outside)
    (fits : writeSize ≤ (s.buffer number).region.allocSize) : (s.shutBy t number writeSize).Valid := by
  refine ⟨shutBy_owned valid.owned,shutBy_laid valid held fits,fun u => ?_,valid.running⟩
  obtain ⟨_,_,_,current⟩ := valid.laid.opened t number held
  by_cases same : u = t
  · subst same
    exact .outside outside
  · have opening := valid.opening u
    refine ⟨fun chunk other resets theirs live => ?_,opening.placed,opening.sized,fun n chunk at_ theirs => ?_⟩
    · rw [shutBy_owner]
      exact opening.bare chunk other resets theirs (shutBy_live.mp live)
    · have apart : chunk ≠ (s.buffer number).owner := by
        intro same
        subst same
        exact same (valid.owned.current current theirs)
      simpa [shutBy,apart] using opening.roomy n chunk at_ theirs

omit [DecidableEq Thread] in
theorem referenced_valid {references : Nat} (valid : s.Valid) (live : s.Live number) (some_ : 0 < references) :
    ({s with buffer := Function.update s.buffer number {s.buffer number with references := references}} : Manager Thread).Valid := by
  have same_live (other : Nat) : ({s with buffer := Function.update s.buffer number {s.buffer number with references := references}} : Manager Thread).Live other ↔
      s.Live other := by
    by_cases same : other = number
    · subst same
      simp [Live,live.1,live.2,some_]
    · simp [Live,same]
  have row (other : Nat) : (Function.update s.buffer number {s.buffer number with references := references} other).region = (s.buffer other).region ∧
      (Function.update s.buffer number {s.buffer number with references := references} other).owner = (s.buffer other).owner ∧
      (Function.update s.buffer number {s.buffer number with references := references} other).closed = (s.buffer other).closed := by
    by_cases same : other = number
    · subst same
      simp
    · simp [same]
  refine valid.walkedByNone ⟨fun other there => ⟨(same_live other).mp there,row other⟩,fun _ => .inl ⟨rfl,rfl⟩,rfl,
    fun u other held => (same_live other).mpr (valid.laid.opened u other held).2.1,fun _ _ => rfl,fun _ _ => rfl,rfl⟩
    (valid.owned.same (fun holder held => ?_) (fun holder settled => ?_) rfl rfl rfl fun other there => ⟨(same_live other).mp there,(row other).2.1⟩)
  · cases holder with
    | pool | current _ | temporary _ => exact Iff.rfl
    | buffer other => simp only [Holds,same_live,(row other).2.1]
  · cases holder <;> exact settled

theorem drop_valid (valid : s.Valid) (outside : s.position t = .outside) (live : s.Live number)
    (may : (s.buffer number).closed = true ∨ 2 ≤ (s.buffer number).references) : (s.drop t number).Valid := by
  by_cases last : (s.buffer number).references = 1
  · have owned := dropped_owned valid.owned outside live last
    have closed : (s.buffer number).closed = true := may.resolve_right (by omega)
    simp only [drop,last,if_true] at owned ⊢
    refine valid.walkedBy (t := t) ⟨fun other there => ?_,fun _ => .inl ⟨rfl,rfl⟩,rfl,fun u other held => ?_,fun u apart => ?_,fun _ _ => rfl,rfl⟩ owned
      ⟨?_,?_,?_,?_⟩ fun other held => ⟨by simp [goto,After.size],rfl⟩
    · by_cases same : other = number
      · subst same
        simp [Live,goto] at there
      · simpa [Live,goto,same] using there
    · obtain ⟨_,liveToo,open_,_⟩ := valid.laid.opened u other held
      have same : other ≠ number := by
        intro same
        subst same
        simp [closed] at open_
      simpa [Live,goto,same] using liveToo
    · simp [goto,apart]
    all_goals simp [goto,After.size]
  · have more : 2 ≤ (s.buffer number).references := by
      have some_ := live.2
      omega
    simp only [drop,last,if_false]
    exact referenced_valid valid live (by omega)

omit [DecidableEq Thread] in
theorem write_valid {contents : Nat → BYTE} (valid : s.Valid) :
    ({s with chunk := Function.update s.chunk chunk {s.chunk chunk with buffer := contents}} : Manager Thread).Valid := by
  refine valid.walkedByNone ⟨fun _ live => ⟨live,rfl,rfl,rfl⟩,fun held => .inl ?_,rfl,
    fun u other held => (valid.laid.opened u other held).2.1,fun _ _ => rfl,fun _ _ => rfl,rfl⟩
    (valid.owned.same (fun holder held => ?_) (fun holder settled => ?_) rfl rfl rfl fun other live => ⟨live,rfl⟩)
  · by_cases same : held = chunk
    · subst same
      simp
    · simp [same]
  · cases holder <;> exact Iff.rfl
  · cases holder <;> exact settled

theorem proceed_does (valid : s.Valid) (taken : s.proceed t = some next) : Does s (.go t) next := by
  have current (ahead : (s.position t).resets ∨ ∃ size, s.position t = .check size ∨ s.position t = .openChunk size) := (valid.opening t).placed ahead
  unfold proceed at taken
  split at taken
  · cases taken
  · rename_i at_
    cases taken
    exact .pops at_
  · rename_i at_
    cases taken
    exact .assigns at_
  · rename_i at_
    cases taken
    exact .ends at_
  · rename_i at_
    cases taken
    exact .pushes at_
  · rename_i at_ none
    exact absurd none (current (.inl (by rw [at_]; trivial)))
  · rename_i at_ none
    exact absurd none (current (.inr ⟨_,.inl at_⟩))
  · rename_i at_ none
    exact absurd none (current (.inr ⟨_,.inr at_⟩))
  · rename_i at_ some_
    cases taken
    exact .resets at_ some_
  · rename_i at_ some_
    simp only [valid.shut (by rw [at_,Position.size]) some_,Bool.false_eq_true,if_false] at taken
    cases taken
    exact .checks at_ some_
  · rename_i at_ some_
    cases taken
    rw [openChunk_joined valid at_ some_]
    exact .joins at_ some_

theorem step_does {event : Event Thread} (valid : s.Valid) (taken : step s event = some next) : Does s event next := by
  cases event with
  | openBuffer t size =>
    simp only [step] at taken
    split at taken
    · rename_i free
      obtain ⟨outside,none,_,small⟩ := free
      cases taken
      exact .opens outside none small
    · cases taken
  | go t => exact proceed_does valid taken
  | close t writeSize =>
    simp only [step] at taken
    split at taken
    · rename_i number held
      split at taken
      · rename_i fits
        rw [close_shut valid held fits.2] at taken
        cases taken
        exact .shuts held fits.1 fits.2
      · cases taken
    · cases taken
  | copy number =>
    simp only [step] at taken
    split at taken
    · rename_i live
      cases taken
      exact .copies live
    · cases taken
  | drop t number =>
    simp only [step] at taken
    split at taken
    · rename_i may
      cases taken
      exact .drops may.1 may.2.1 may.2.2
    · cases taken
  | write number offset bytes =>
    simp only [step] at taken
    split at taken
    · rename_i fits
      simp only [SendBuffer.write,Nat.not_lt.mpr fits.2,if_false] at taken
      cases taken
      exact .writes fits.1 fits.2
    · cases taken

theorem step_valid (s : Manager Thread) (event : Event Thread) (next : Manager Thread) (valid : s.Valid) (taken : Enabled step s event next) :
    next.Valid := by
  cases step_does valid taken with
  | opens outside none small => exact openBuffer_valid valid outside none small
  | pops at_ => exact pop_valid valid at_
  | assigns at_ => exact assign_valid valid at_
  | ends at_ => exact endTemporary_valid valid at_
  | pushes at_ => exact push_valid valid at_
  | resets at_ current => exact reset_valid valid at_ current
  | checks at_ current => exact check_valid valid at_ current
  | joins at_ current => exact joined_valid valid at_ current
  | shuts held outside fits => exact shutBy_valid valid held outside fits
  | copies live => exact referenced_valid valid live (Nat.succ_pos _)
  | drops outside live may => exact drop_valid valid outside live may
  | writes => exact write_valid valid

theorem reached_valid {events : List (Event Thread)} (path : Runs (Enabled step) start events s) : s.Valid :=
  path.invariant step_valid start_valid

end Manager
end IocpChatServer.ServerCore.SendBufferManager
