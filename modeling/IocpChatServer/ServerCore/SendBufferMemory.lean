import Mathlib.Order.Interval.Set.Defs
import IocpChatServer.ServerCore.ChunkLayout

namespace IocpChatServer.ServerCore.SendBufferManager.Manager
open Foundations TransitionSystem Memory
variable {Thread : Type _} [DecidableEq Thread] (s : Manager Thread)

def region (number : Nat) : Set Nat :=
  let shared := s.buffer number
  Set.Ico shared.region.buffer (shared.region.buffer + if shared.closed then shared.region.writeSize else shared.region.allocSize)

def bytes (number : Nat) : List BYTE := (s.buffer number).region.bytes (s.chunk (s.buffer number).owner)

-- The writers that a SendBuffer does not depend on: those of later SendBuffers and of other
-- chunks, whatever they write of their AllocSize. Those of earlier ones are held to what they
-- have closed with, since all they had asked for beyond it has been given out again.
def Spares (number : Nat) (s : Manager Thread) : Event Thread → Prop
  | .write other offset written => number < other ∨ (s.buffer other).owner ≠ (s.buffer number).owner ∨
    other < number ∧ offset + written.length ≤ (s.buffer other).region.writeSize
  | _ => True

instance (number : Nat) (s : Manager Thread) : (event : Event Thread) → Decidable (Spares number s event)
  | .write other offset written => inferInstanceAs (Decidable (number < other ∨ (s.buffer other).owner ≠ (s.buffer number).owner ∨
    other < number ∧ offset + written.length ≤ (s.buffer other).region.writeSize))
  | .openBuffer _ _ | .go _ | .close _ _ | .copy _ | .drop _ _ => .isTrue trivial

variable {s} {next : Manager Thread} {event : Event Thread} {t : Thread} {first : Bool} {number size chunk : Nat} {after : After}

theorem pop_buffer : (s.pop t first size).buffer = s.buffer ∧ (s.pop t first size).bufferCount = s.bufferCount := by
  unfold pop
  split <;> exact ⟨rfl,rfl⟩

theorem assign_buffer :
    (s.assign t first size chunk).buffer = s.buffer ∧ (s.assign t first size chunk).bufferCount = s.bufferCount := by
  unfold assign
  split <;> exact ⟨rfl,rfl⟩

theorem endTemporary_buffer :
    (s.endTemporary t chunk after).buffer = s.buffer ∧ (s.endTemporary t chunk after).bufferCount = s.bufferCount := by
  simp only [endTemporary]
  split <;> exact ⟨rfl,rfl⟩

theorem drop_buffer : (s.drop t number).buffer =
      Function.update s.buffer number {s.buffer number with references := (s.buffer number).references - 1} ∧
    (s.drop t number).bufferCount = s.bufferCount := by
  simp only [drop]
  split <;> exact ⟨rfl,rfl⟩

-- What a step keeps of a SendBuffer. One that is gone does not come back, and the region of a
-- closed one is as Close has left it.
structure Keeps (s next : Manager Thread) (number : Nat) : Prop where
  below : number < next.bufferCount
  live : next.Live number → s.Live number
  owner : (next.buffer number).owner = (s.buffer number).owner
  closed : (s.buffer number).closed = true → (next.buffer number).closed = true ∧ (next.buffer number).region = (s.buffer number).region

omit [DecidableEq Thread] in
theorem Keeps.same (below : number < s.bufferCount) (same : next.buffer = s.buffer ∧ next.bufferCount = s.bufferCount) : Keeps s next number := by
  obtain ⟨buffer,count⟩ := same
  refine ⟨count ▸ below,fun live => ?_,by rw [buffer],fun closed => ?_⟩
  · rwa [Live,buffer,count] at live
  · rw [buffer]
    exact ⟨closed,rfl⟩

omit [DecidableEq Thread] in
theorem Keeps.referenced {other references : Nat} (below : number < s.bufferCount) (live : s.Live other)
    (same : next.buffer = Function.update s.buffer other {s.buffer other with references := references} ∧ next.bufferCount = s.bufferCount) :
    Keeps s next number := by
  obtain ⟨buffer,count⟩ := same
  by_cases here : number = other
  · subst here
    exact ⟨count ▸ below,fun _ => live,by simp [buffer],fun closed => by simp [buffer,closed]⟩
  · refine ⟨count ▸ below,fun there => ?_,by simp [buffer,here],fun closed => by simp [buffer,here,closed]⟩
    simpa [Live,buffer,count,here] using there

theorem does_keeps (does : Does s event next) (valid : s.Valid) (below : number < s.bufferCount) : Keeps s next number := by
  cases does with
  | opens | pushes | resets | checks | writes => exact .same below ⟨rfl,rfl⟩
  | pops => exact .same below pop_buffer
  | assigns => exact .same below assign_buffer
  | ends => exact .same below endTemporary_buffer
  | joins =>
    have old : number ≠ s.bufferCount := Nat.ne_of_lt below
    refine ⟨Nat.lt_succ_of_lt below,fun live => (joined_live.mp live).resolve_right old,?_,fun closed => ?_⟩
    · simp [joined,goto,old]
    · simp [joined,goto,old,closed]
  | @shuts t other _ held =>
    refine ⟨below,shutBy_live.mp,shutBy_owner,fun closed => ?_⟩
    have open_ := (valid.laid.opened t other held).2.2.1
    have here : number ≠ other := by
      intro same
      subst same
      simp [closed] at open_
    simp [shutBy,here,closed]
  | copies live => exact .referenced below live ⟨rfl,rfl⟩
  | drops _ live => exact .referenced below live drop_buffer

theorem drop_chunk : (s.drop t number).chunk = s.chunk := by
  simp only [drop]
  split <;> rfl

theorem does_contents (does : Does s event next) (made : chunk < s.made) :
    (next.chunk chunk).buffer = (s.chunk chunk).buffer ∨
      ∃ other offset written, event = .write other offset written ∧ s.Live other ∧ (s.buffer other).owner = chunk ∧
        (next.chunk chunk).buffer = store (s.chunk chunk).buffer ((s.buffer other).region.buffer + offset) written := by
  have old : chunk ≠ s.made := Nat.ne_of_lt made
  cases does with
  | opens | pushes | checks | copies => exact .inl rfl
  | pops =>
    unfold pop
    split
    · exact .inl rfl
    · exact .inl (by simp [goto,old])
  | assigns =>
    unfold assign
    split <;> exact .inl rfl
  | ends =>
    simp only [endTemporary]
    split <;> exact .inl rfl
  | @resets _ _ _ own =>
    by_cases same : chunk = own
    · subst same
      exact .inl (by simp [goto,SendBufferChunk.reset])
    · exact .inl (by simp [goto,same])
  | @joins _ _ own =>
    by_cases same : chunk = own
    · subst same
      exact .inl (by simp [joined,goto])
    · exact .inl (by simp [joined,goto,same])
  | @shuts _ number =>
    by_cases same : chunk = (s.buffer number).owner
    · subst same
      exact .inl (by simp [shutBy])
    · exact .inl (by simp [shutBy,same])
  | drops => exact .inl (by rw [drop_chunk])
  | @writes other offset written live fits =>
    by_cases same : chunk = (s.buffer other).owner
    · exact .inr ⟨other,offset,written,rfl,live,same.symm,by simp [same]⟩
    · exact .inl (by simp [same])

theorem does_bytes (does : Does s event next) (valid : s.Valid) (spares : Spares number s event) (live : s.Live number)
    (closed : (s.buffer number).closed = true) : next.bytes number = s.bytes number := by
  have keeps := does_keeps does valid live.1
  have made := valid.owned.made (.buffer number) _ ⟨live,rfl⟩
  simp only [bytes,SendBuffer.bytes,keeps.owner,(keeps.closed closed).2]
  rcases does_contents does made with same | ⟨other,offset,written,rfl,liveToo,owner,stored⟩
  · rw [same]
  · rw [stored]
    rcases spares with later | elsewhere | ⟨earlier,within⟩
    · have below := (valid.laid.ordered number other later live liveToo owner.symm).2
      exact slice_store_before (by omega)
    · exact absurd owner elsewhere
    · have above := (valid.laid.ordered other number earlier liveToo live owner).2
      exact slice_store_after (by omega)

structure Unwritten (s : Manager Thread) (number : Nat) (later : Manager Thread) : Prop where
  valid : later.Valid
  below : number < later.bufferCount
  same : later.Live number → (later.buffer number).closed = true ∧ later.bytes number = s.bytes number

theorem step_unwritten (middle : Manager Thread) (event : Event Thread) (next : Manager Thread) (unwritten : Unwritten s number middle)
    (taken : Guarded (Enabled step) (Spares number) middle event next) : Unwritten s number next := by
  have does := step_does unwritten.valid taken.1
  have keeps := does_keeps does unwritten.valid unwritten.below
  refine ⟨step_valid _ _ _ unwritten.valid taken.1,keeps.below,fun live => ?_⟩
  have was := keeps.live live
  obtain ⟨closed,same⟩ := unwritten.same was
  exact ⟨(keeps.closed closed).1,(does_bytes does unwritten.valid taken.2 was closed).trans same⟩

theorem bytes_kept {events : List (Event Thread)} (valid : s.Valid) (live : s.Live number) (closed : (s.buffer number).closed = true)
    (path : Runs (Guarded (Enabled step) (Spares number)) s events next) (still : next.Live number) : next.bytes number = s.bytes number :=
  ((path.invariant step_unwritten ⟨valid,live.1,fun _ => ⟨closed,rfl⟩⟩).same still).2

omit [DecidableEq Thread] in
theorem Valid.regions (valid : s.Valid) (live : s.Live number) : s.region number ⊆ Set.Iio SendBufferChunk.chunkSize := by
  intro cell inside
  obtain ⟨_,below⟩ := inside
  cases closed : (s.buffer number).closed with
  | false =>
    have room := (valid.laid.last number live closed).2.1
    simp only [closed,Bool.false_eq_true,if_false] at below
    exact Nat.lt_of_lt_of_le below room
  | true =>
    have used := valid.laid.written number live closed
    have within := valid.laid.within (s.buffer number).owner
    simp only [closed,if_true] at below
    exact Nat.lt_of_lt_of_le below (Nat.le_trans used within)

omit [DecidableEq Thread] in
theorem Valid.apart {other cell : Nat} (valid : s.Valid) (live : s.Live number) (liveToo : s.Live other) (apart : number ≠ other)
    (owner : (s.buffer number).owner = (s.buffer other).owner) (inside : cell ∈ s.region number) : cell ∉ s.region other := by
  intro insideToo
  wlog first : number < other generalizing number other
  · have second : other < number := Nat.lt_of_le_of_ne (Nat.not_lt.mp first) apart.symm
    exact this liveToo live apart.symm owner.symm insideToo inside second
  obtain ⟨closed,below⟩ := valid.laid.ordered number other first live liveToo owner
  have before := inside.2
  simp only [closed,if_true] at before
  exact Nat.lt_irrefl _ (Nat.lt_of_lt_of_le before (Nat.le_trans below insideToo.1))

theorem memory_owned {events : List (Event Thread)} (path : Runs (Enabled step) start events s) :
    s.failure = none ∧
    (∀ chunk ∈ s.pool, (∀ t, s.current t ≠ some chunk) ∧ ∀ number, s.Live number → (s.buffer number).owner ≠ chunk) ∧
    (∀ t u chunk, s.current t = some chunk → s.current u = some chunk → t = u) ∧
    (∀ number, s.Live number → s.region number ⊆ Set.Iio SendBufferChunk.chunkSize) ∧
    (∀ number other, s.Live number → s.Live other → number ≠ other → (s.buffer number).owner = (s.buffer other).owner →
      ∀ cell ∈ s.region number, cell ∉ s.region other) ∧
    ∀ number later next, s.Live number → (s.buffer number).closed = true →
      Runs (Guarded (Enabled step) (Spares number)) s later next → next.Live number → next.bytes number = s.bytes number := by
  have valid := reached_valid path
  refine ⟨valid.running,fun chunk pooled => ?_,fun t u chunk mine theirs => (valid.owned.current mine theirs).symm,fun _ => valid.regions,
    fun _ _ live liveToo apart owner _ => valid.apart live liveToo apart owner,fun _ _ _ live closed path => bytes_kept valid live closed path⟩
  have home : s.Home .pool chunk := ⟨pooled,trivial⟩
  refine ⟨fun t current => ?_,fun number live owner => ?_⟩
  · cases valid.owned.sole (.current t) _ _ ⟨current,trivial⟩ home
  · obtain ⟨t,same⟩ := valid.owned.alone _ chunk number home live owner
    cases same

-- A thread changes its chunk while a SendBuffer of the old one is queued elsewhere. Its last
-- reference gone, the old chunk goes to another thread, which writes next.
def changed : List (Event Bool) :=
  [.openBuffer true 4000,.go true,.go true,.go true,.go true,.go true,.write 0 0 [7],.close true 4000,
    .openBuffer true 3000,.go true,.go true,.go true,.go true,.go true,.go true,.write 1 0 [8,9],.close true 2]

def reused : List (Event Bool) :=
  [.copy 1,.drop false 0,.go false,.go false,.go false,.openBuffer false 10,.go false,.go false,.go false,.go false,.go false,
    .write 2 0 [5],.openBuffer true 3000,.go true,.go true,.write 3 1 [6],.drop false 1]

def queued : Manager Bool := (execute step start changed).getD start

def written : Manager Bool := (execute (TransitionSystem.guard step (Spares 1)) queued reused).getD queued

theorem memory_owned_reused : Runs (Enabled step) start changed queued ∧ Runs (Guarded (Enabled step) (Spares 1)) queued reused written ∧
    written.failure = none ∧ written.current false = some 0 ∧ (written.buffer 3).owner = (written.buffer 1).owner ∧
    queued.bytes 1 = [8,9] ∧ written.bytes 1 = queued.bytes 1 := by
  have path : Runs (Enabled step) start changed queued := execute_runs rfl
  have later : Runs (Guarded (Enabled step) (Spares 1)) queued reused written := guard_runs rfl
  have whole : Runs (Enabled step) start (changed ++ reused) written := path.append (later.mono fun _ _ _ taken => taken.1)
  exact ⟨path,later,(memory_owned whole).1,rfl,rfl,rfl,(memory_owned path).2.2.2.2.2 1 reused written (by decide) rfl later (by decide)⟩

end IocpChatServer.ServerCore.SendBufferManager.Manager
