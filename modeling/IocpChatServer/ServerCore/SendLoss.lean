import IocpChatServer.ServerCore.SendOrder

namespace IocpChatServer.ServerCore.SessionSend
open Foundations TransitionSystem
variable {Thread Buffer : Type _} [DecidableEq Thread]

def Handed (s : State Thread Buffer) (wsaBufs : List Buffer) : Prop :=
  (∃ t, Hands (s.position t) ∧ wsaBufs = s.sendBuffers) ∨ (∀ t, ¬ Hands (s.position t)) ∧ wsaBufs = []

-- Of a connected session: what WSASend accepted, what it is being given and what waits are all
-- that was pushed, and what waits has a thread or an outstanding send to drain it.
def NothingLost (s : State Thread Buffer) : Prop :=
  s.connected = true →
    (∀ wsaBufs, Handed s wsaBufs → s.accepted.flatten ++ wsaBufs ++ s.sendQueue = s.pushed) ∧
    (s.sendQueue ≠ [] → s.sendRegistered = true ∧ ((∃ t, Drains (s.position t)) ∨ s.outstanding ≠ []))

def Nonzero (_ : State Thread Buffer) (event : Thread × Choice Buffer) : Prop :=
  ∀ index numOfBytes, event.2 = .complete index numOfBytes → numOfBytes ≠ 0

-- No WSASend fails at once while the session is connected.
def Admitted (s : State Thread Buffer) (event : Thread × Choice Buffer) : Prop :=
  ∀ errorCode, event.2 = .wsaSend (some errorCode) → errorCode ≠ wsaIoPending → s.connected = false

structure Live (s : State Thread Buffer) (holder : Option Thread) : Prop where
  accepted : s.accepted = s.given
  turn : s.sendRegistered = true → holder ≠ none ∨ s.outstanding ≠ []
  rest : s.sendRegistered = false → s.sendQueue = []
  drains : ∀ t, holder = some t → Drains (s.position t)

variable {s next : State Thread Buffer} {t : Thread} {holder turn : Option Thread} {event : Thread × Choice Buffer}

theorem drains_moved {position : Thread → Position Buffer} {place : Position Buffer}
    (before : ∀ u, holder = some u → Drains (position u)) (here : holder = some t → Drains place) (u : Thread)
    (mine : holder = some u) : Drains (Function.update position t place u) := by
  by_cases same : u = t
  · subst same
    simpa using here mine
  · simpa [same] using before u mine

theorem Moves.live (moves : Moves s holder event next turn) (valid : Inv s holder)
    (live : s.connected = true → Live s holder) (nonzero : Nonzero s event) (admitted : Admitted s event)
    (connected : next.connected = true) : Live next turn := by
  cases moves with
  | walked connectedNow owner crashed holds hands place drains =>
    obtain ⟨before,kept⟩ := drains connected
    have live := live before
    exact ⟨live.accepted,live.turn,live.rest,drains_moved live.drains fun mine => kept (live.drains _ mine)⟩
  | dropped sendRegistered sendBuffers cleared leaves hands place drains =>
    have live := live connected
    obtain ⟨idle,empty⟩ := drains connected (live.drains _ rfl)
    exact ⟨live.accepted,fun busy => absurd busy (by simp [State.goto,idle]),fun _ => empty,fun u mine => absurd mine (by simp)⟩
  | took free idle sendBuffer =>
    have live := live connected
    refine ⟨live.accepted,fun _ => .inl (by simp),fun idle => absurd idle (by simp [State.goto]),fun u mine => ?_⟩
    cases mine
    simp [State.goto,Drains]
  | queued free off taken sendBuffer =>
    have live := live connected
    exact ⟨live.accepted,fun _ => live.turn taken,fun idle => absurd idle (by simp [State.goto]),
      drains_moved live.drains fun mine => absurd ((valid.holds _).mpr mine) off⟩
  | drained caller cleared full locked hands =>
    have live := live connected
    exact ⟨live.accepted,live.turn,fun _ => rfl,drains_moved live.drains fun _ => trivial⟩
  | handedOver hands full leaves place =>
    have live := live connected
    refine ⟨?_,fun _ => .inr (by simp [State.goto]),fun idle => ?_,fun u mine => absurd mine (by simp)⟩
    · simp [State.goto,live.accepted]
    · exact absurd (valid.idle idle).1 (by simp)
  | refused errorCode hands full stays unhanded place pending =>
    have off := admitted errorCode rfl pending
    rw [show s.connected = true from connected] at off
    cases off
  | completed index numOfBytes known =>
    have live := live connected
    refine ⟨live.accepted,fun _ => .inl (by simp),live.rest,fun u mine => ?_⟩
    cases mine
    simpa [State.goto,Drains] using nonzero index numOfBytes rfl
  | clearing hands stays unhanded place drains =>
    have live := live connected
    exact ⟨live.accepted,live.turn,live.rest,drains_moved live.drains fun mine => drains (live.drains _ mine)⟩
  | relocked lock free holds hands place drains =>
    have live := live connected
    exact ⟨live.accepted,live.turn,live.rest,drains_moved live.drains fun mine => drains (live.drains _ mine)⟩

def Safe (s : State Thread Buffer) : Prop := ∃ holder, Inv s holder ∧ (s.connected = true → Live s holder)

theorem step_safe (s : State Thread Buffer) (event : Thread × Choice Buffer) (next : State Thread Buffer) (safe : Safe s)
    (taken : Guarded (Guarded (Enabled step) Nonzero) Admitted s event next) : Safe next := by
  obtain ⟨holder,valid,live⟩ := safe
  obtain ⟨⟨taken,nonzero⟩,admitted⟩ := taken
  obtain ⟨turn,moves⟩ := step_moves valid taken
  exact ⟨turn,moves.inv valid,moves.live valid live nonzero admitted⟩

omit [DecidableEq Thread] in
theorem start_safe : Safe (State.start : State Thread Buffer) :=
  ⟨none,start_inv,fun _ => ⟨rfl,(nomatch ·),fun _ => rfl,fun _ => (nomatch ·)⟩⟩

omit [DecidableEq Thread] in
theorem Inv.handed (valid : Inv s holder) {wsaBufs : List Buffer} (handed : Handed s wsaBufs) :
    s.given.flatten ++ wsaBufs ++ s.sendQueue = s.pushed := by
  have order := valid.order
  rcases handed with ⟨t,hands,same⟩ | ⟨nobody,none⟩
  · rw [(valid.holds t).mp hands.holds] at order
    simpa [SessionSend.handed,hands,same] using order
  · cases holder with
    | none => simpa [SessionSend.handed,none] using order
    | some t => simpa [SessionSend.handed,nobody t,none] using order

omit [DecidableEq Thread] in
theorem safe_nothing_lost (s : State Thread Buffer) (safe : Safe s) : NothingLost s := by
  obtain ⟨holder,valid,live⟩ := safe
  intro connected
  have live := live connected
  refine ⟨fun wsaBufs handed => ?_,fun waiting => ?_⟩
  · rw [live.accepted]
    exact valid.handed handed
  · have busy : s.sendRegistered = true := by
      by_contra idle
      exact waiting (live.rest (by simpa using idle))
    refine ⟨busy,?_⟩
    rcases live.turn busy with some_ | outstanding
    · obtain ⟨t,mine⟩ := Option.ne_none_iff_exists'.mp some_
      exact .inl ⟨t,live.drains t mine⟩
    · exact .inr outstanding

theorem refused_lost (s : State Thread Buffer) (event : Thread × Choice Buffer) (next : State Thread Buffer) (safe : Safe s)
    (taken : Guarded (Enabled step) Nonzero s event next) (refused : ¬ Admitted s event) : ¬ NothingLost next := by
  obtain ⟨holder,valid,live⟩ := safe
  obtain ⟨t,choice⟩ := event
  simp only [Admitted,not_forall,Bool.not_eq_false] at refused
  obtain ⟨errorCode,rfl,pending,connected⟩ := refused
  have enabled := taken.1
  unfold Enabled step at enabled
  split at enabled
  · cases enabled
  · split at enabled
    · cases enabled
    · rename_i caller wsaBufs _ at_ same
      cases same
      have mine : holder = some t := (valid.holds t).mp (by rw [at_]; trivial)
      have place := valid.places t
      rw [at_] at place
      have order := valid.handed (.inl ⟨t,by rw [at_]; trivial,place.1⟩)
      have failed : ∃ onto, ¬ Hands onto ∧ next = {s with given := s.given ++ [wsaBufs]}.goto t onto := by
        simp only [wsaSend,pending,if_true,ne_eq,not_false_eq_true] at enabled
        split at enabled
        · cases enabled
          exact ⟨.disconnect (.handleError caller),id,rfl⟩
        · cases enabled
          exact ⟨.failOwner caller,id,rfl⟩
      obtain ⟨onto,away,rfl⟩ := failed
      intro kept
      obtain ⟨whole,_⟩ := kept connected
      have none : Handed ({s with given := s.given ++ [wsaBufs]}.goto t onto) [] := by
        refine .inr ⟨fun u hands => ?_,rfl⟩
        by_cases same : u = t
        · subst same
          simp only [State.goto,Function.update_self] at hands
          exact away hands
        · simp only [State.goto,Function.update_of_ne same] at hands
          have other := (valid.holds u).mp hands.holds
          exact same (Option.some.inj (other.symm.trans mine))
      have short : s.given.flatten ++ [] ++ s.sendQueue = s.pushed := (live connected).accepted ▸ whole [] none
      have empty : wsaBufs = [] := by
        simpa using order.trans short.symm
      exact place.2.1 (place.1.symm.trans empty)
    · rename_i other _
      cases other
    · cases enabled

-- In a run nothing is lost in any state exactly if no WSASend fails at once while the session
-- is connected.
theorem nothing_lost_exact
    (path : Runs (Guarded (Enabled step) Nonzero) (State.start : State Thread Buffer) events s) :
    (∀ earlier middle, earlier <+: events →
      Runs (Guarded (Enabled step) Nonzero) (State.start : State Thread Buffer) earlier middle → NothingLost middle) ↔
    Runs (Guarded (Guarded (Enabled step) Nonzero) Admitted) (State.start : State Thread Buffer) events s :=
  path.exact (fun _ _ _ _ one two => Option.some.inj (one.1.symm.trans two.1)) step_safe safe_nothing_lost refused_lost
    start_safe

omit [DecidableEq Thread] in
theorem nonzero_complete (index numOfBytes : Nat) : numOfBytes ≠ 0 ↔ Nonzero s (t,.complete index numOfBytes) := by
  simp [Nonzero]

omit [DecidableEq Thread] in
theorem admitted_wsaSend (errorCode : Option Int) :
    (∀ code ∈ errorCode, code ≠ wsaIoPending → s.connected = false) ↔ Admitted s (t,.wsaSend errorCode) := by
  simp [Admitted]

instance (s : State Thread Buffer) : (event : Thread × Choice Buffer) → Decidable (Nonzero s event)
  | (_,.complete index numOfBytes) => decidable_of_iff _ (nonzero_complete index numOfBytes)
  | (_,.send _) | (_,.disconnect) | (_,.wsaSend _) | (_,.go) => .isTrue (by simp [Nonzero])

instance (s : State Thread Buffer) : (event : Thread × Choice Buffer) → Decidable (Admitted s event)
  | (_,.wsaSend errorCode) => decidable_of_iff _ (admitted_wsaSend errorCode)
  | (_,.send _) | (_,.disconnect) | (_,.complete _ _) | (_,.go) => .isTrue (by simp [Admitted])

-- A send is accepted while a second buffer is pushed behind it.
theorem nothing_lost_exact_pair : ∃ events s,
    Runs (Guarded (Enabled step) Nonzero) (State.start : State Bool Nat) events s ∧
    s.accepted = [[7]] ∧ s.sendQueue = [8] ∧ NothingLost s := by
  have admitted : Runs (Guarded (Enabled step) fun s event => Nonzero s event ∧ Admitted s event)
      (State.start : State Bool Nat) _ _ := @guard_runs _ _ _ [(false,.send (some 7)),(false,.go),(false,.go),(false,.go),
    (false,.go),(false,.go),(false,.go),(true,.send (some 8)),(true,.go),(false,.wsaSend none),(true,.go)] _ _ _ _ rfl
  have path := admitted.mono fun _ _ _ taken => (show Guarded (Enabled step) Nonzero _ _ _ from ⟨taken.1,taken.2.1⟩)
  have guarded := admitted.mono fun _ _ _ taken =>
    (show Guarded (Guarded (Enabled step) Nonzero) Admitted _ _ _ from ⟨⟨taken.1,taken.2.1⟩,taken.2.2⟩)
  exact ⟨_,_,path,rfl,rfl,(nothing_lost_exact path).mpr guarded _ _ (List.prefix_refl _) path⟩

-- WSASend fails for want of buffer space.
theorem nothing_lost_no_buffers : ¬ ∀ events s,
    Runs (Guarded (Enabled step) Nonzero) (State.start : State Bool Nat) events s → NothingLost s := by
  intro always
  have path : Runs (Guarded (Enabled step) Nonzero) (State.start : State Bool Nat) _ _ := @guard_runs _ _ _
    [(false,.send (some 7)),(false,.go),(false,.go),(false,.go),(false,.go),(false,.go),(false,.go),
      (false,.wsaSend (some 10055)),(true,.send (some 8)),(true,.go),(true,.go),(false,.go),(false,.go),(false,.go)] _ _ _ _ rfl
  have stuck := (always _ _ path rfl).2 (by decide)
  exact absurd stuck.1 (by decide)

end IocpChatServer.ServerCore.SessionSend
