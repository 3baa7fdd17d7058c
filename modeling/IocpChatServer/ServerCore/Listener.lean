import IocpChatServer.ServerCore.EventOwnership

namespace IocpChatServer.ServerCore
open Foundations TransitionSystem SessionLife
variable {Thread Buffer : Type _} [DecidableEq Thread]

-- Where an AcceptEvent is: AcceptEx has it, with the session the next client will get, or a
-- thread is in ProcessAccept with it.
inductive Accept (Thread : Type _) where
  | posted (session : Nat)
  | processing (session : Nat) (thread : Thread)
  deriving DecidableEq, Repr

def Accept.session : Accept Thread → Nat
  | .posted session | .processing session _ => session

-- What happens to the Listener of a ServerService: a round of the loop in StartAccept, a
-- completion of the event with this index whose socket is no good, one that goes on to
-- ProcessConnect (`failed` is the error getsockopt gives there), the RegisterAccept after it,
-- and whatever else the sessions and threads do. AcceptEx may fail `failures` times at once
-- before it takes the event: each time RegisterAccept makes another session.
inductive ListenerEvent (Thread Buffer : Type _) where
  | startAccept (failures : Nat)
  | rejected (index failures : Nat)
  | accepted (thread : Thread) (index : Nat) (failed : Bool)
  | registerAccept (index failures : Nat)
  | service (session : Nat) (thread : Thread) (choice : Choice Buffer)
  deriving DecidableEq, Repr

-- `created` are the calls of CreateSession, which number the sessions.
structure Listener (Thread Buffer : Type _) where
  service : Service Nat Thread Buffer
  acceptEvents : List (Accept Thread)
  created : Nat

def Arriving : Place → Bool
  | .connectStore false | .addSession => true
  | _ => false

def IsConnect : Choice Buffer → Bool
  | .connect _ => true
  | _ => false

namespace Listener

def start : Listener Thread Buffer := ⟨Service.start,[],0⟩

variable (s : Listener Thread Buffer)

def registerAccept (index failures : Nat) : Listener Thread Buffer :=
  {s with
    acceptEvents := s.acceptEvents.set index (.posted (s.created + failures))
    created := s.created + failures + 1}

def step (maxSessionCount : Int) : ListenerEvent Thread Buffer → Option (Listener Thread Buffer)
  | .startAccept failures =>
    if (s.acceptEvents.length : Int) < maxSessionCount then some {s with
      acceptEvents := s.acceptEvents ++ [.posted (s.created + failures)]
      created := s.created + failures + 1}
    else none
  | .rejected index failures =>
    match s.acceptEvents[index]? with
    | some (.posted _) => some (s.registerAccept index failures)
    | _ => none
  | .accepted thread index failed =>
    match s.acceptEvents[index]? with
    | some (.posted session) => (s.service.step (session,thread,.connect failed)).map fun service =>
      {s with service := service,acceptEvents := s.acceptEvents.set index (.processing session thread)}
    | _ => none
  | .registerAccept index failures =>
    match s.acceptEvents[index]? with
    | some (.processing session thread) =>
      if (s.service.session session).place thread = .outside ∧ (s.service.session session).idle thread = true then
        some (s.registerAccept index failures)
      else none
    | _ => none
  | .service session thread choice =>
    if session < s.created ∧ IsConnect choice = false then
      (s.service.step (session,thread,choice)).map fun service => {s with service := service}
    else none

def arriving (service : Service Nat Thread Buffer) : Accept Thread → Bool
  | .posted _ => false
  | .processing session thread => Arriving ((service.session session).place thread)

def arrivals : Nat := s.acceptEvents.countP (arriving s.service)

-- Clients are accepted only while fewer than maxSessionCount of them are there or arriving.
def HasRoom (maxSessionCount : Int) (s : Listener Thread Buffer) : ListenerEvent Thread Buffer → Prop
  | .accepted _ _ false => s.service.sessionCount + s.arrivals < maxSessionCount
  | _ => True

instance (maxSessionCount : Int) (s : Listener Thread Buffer) : (event : ListenerEvent Thread Buffer) → Decidable (HasRoom maxSessionCount s event)
  | .accepted _ _ false => inferInstanceAs (Decidable (_ < _))
  | .accepted _ _ true | .startAccept _ | .rejected _ _ | .registerAccept _ _ | .service _ _ _ => .isTrue trivial

structure Limited (maxSessionCount : Int) (s : Listener Thread Buffer) : Prop where
  within : s.service.sessionCount + s.arrivals ≤ maxSessionCount
  known : ∀ session thread, Arriving ((s.service.session session).place thread) = true → .processing session thread ∈ s.acceptEvents
  distinct : (s.acceptEvents.map Accept.session).Nodup
  made : ∀ accept ∈ s.acceptEvents, accept.session < s.created

variable {s} {next : Listener Thread Buffer} {maxSessionCount : Int} {event : ListenerEvent Thread Buffer}
  {events : List (ListenerEvent Thread Buffer)} {session index failures : Nat} {thread : Thread} {accept : Accept Thread}

theorem arriving_early {place : Place} (late : ¬ Early place) : Arriving place = false := by
  cases place with
  | connectStore | addSession => exact absurd trivial late
  | _ => rfl

theorem does_arriving {life after : Life Thread Buffer} {choice : Choice Buffer} {effect : Effect} (does : Does life thread choice effect after)
    (other : IsConnect choice = false) : (Arriving (after.place thread) = true → Arriving (life.place thread) = true) ∧
      (effect = .addSession → Arriving (life.place thread) = true ∧ Arriving (after.place thread) = false) := by
  cases does with
  | connects => cases other
  | sends | sendsNull | registers | refused | abandoned | posted | recvNull | disconnectNull =>
    exact ⟨id,fun added => by cases added⟩
  | connected _ at_ => exact ⟨fun _ => by simp [at_,Arriving],fun added => by cases added⟩
  | added _ at_ => exact ⟨fun arriving => by simp [Life.goto,Arriving] at arriving,fun _ => by simp [at_,Life.goto,Arriving]⟩
  | walks place _ _ _ late => exact ⟨fun arriving => by simp [Life.goto,arriving_early late] at arriving,fun added => by cases added⟩
  | calls _ _ _ _ to_ =>
    refine ⟨fun arriving => ?_,fun added => by cases added⟩
    rcases to_ with rfl | ⟨rfl,_⟩ <;> simp [Life.goto,Arriving] at arriving
  | recvCompleted | disconnectCompleted | connectFailed | recvRefused | handled | recvPosted | leaves | disconnects | onDisconnected | released =>
    exact ⟨fun arriving => by simp [Life.goto,Arriving] at arriving,fun added => by cases added⟩

theorem countP_falls {α : Type _} {before after : α → Bool} {all : List α} {one : α} (weaker : ∀ a ∈ all, after a = true → before a = true)
    (member : one ∈ all) (was : before one = true) (off : after one = false) : all.countP after + 1 ≤ all.countP before := by
  obtain ⟨front,back,rfl⟩ := List.append_of_mem member
  have first : front.countP after ≤ front.countP before :=
    List.countP_mono_left fun a there => weaker a (List.mem_append_left _ there)
  have second : back.countP after ≤ back.countP before :=
    List.countP_mono_left fun a there => weaker a (List.mem_append_right _ (List.mem_cons_of_mem _ there))
  simp only [List.countP_append,List.countP_cons,was,off,if_true,Bool.false_eq_true,if_false]
  omega

theorem service_arrives {service : Service Nat Thread Buffer} {choice : Choice Buffer}
    (serves : s.service.Serves session thread choice service) (other : IsConnect choice = false) (one : Nat) (u : Thread)
    (arrives : Arriving ((service.session one).place u) = true) : Arriving ((s.service.session one).place u) = true := by
  have moved (life : Life Thread Buffer) (effect : Effect) (does : Does (s.service.session session) thread choice effect life)
      (arrives : Arriving ((Function.update s.service.session session life one).place u) = true) :
      Arriving ((s.service.session one).place u) = true := by
    by_cases same : one = session
    · subst same
      rw [Function.update_self] at arrives
      by_cases mine : u = thread
      · subst mine
        exact (does_arriving does other).1 arrives
      · rw [does.turns.places u mine] at arrives
        exact arrives
    · rw [Function.update_of_ne same] at arrives
      exact arrives
  cases serves with
  | moved does => exact moved _ _ does arrives
  | added does => exact moved _ _ does arrives
  | released does => exact moved _ _ does arrives
  | asserted | null => exact arrives

theorem service_within {service : Service Nat Thread Buffer} {choice : Choice Buffer} (limited : Limited maxSessionCount s)
    (serves : s.service.Serves session thread choice service) (other : IsConnect choice = false) :
    Limited maxSessionCount {s with service := service} := by
  have arrives := service_arrives serves other
  have weaker : ∀ accept ∈ s.acceptEvents, arriving service accept = true → arriving s.service accept = true := by
    intro accept _ there
    cases accept with
    | posted => cases there
    | processing one u => exact arrives one u there
  have fewer : arrivals {s with service := service} ≤ s.arrivals := List.countP_mono_left weaker
  refine ⟨?_,fun one u there => limited.known one u (arrives one u there),limited.distinct,limited.made⟩
  have within := limited.within
  cases serves with
  | moved | asserted | null => exact Int.le_trans (Int.add_le_add_left (Int.ofNat_le.mpr fewer) _) within
  | released =>
    dsimp only
    omega
  | added does =>
    obtain ⟨was,off⟩ := (does_arriving does other).2 rfl
    have fewer := countP_falls weaker (limited.known session thread was) was (by simpa [arriving] using off)
    unfold arrivals at within ⊢
    dsimp only
    omega

omit [DecidableEq Thread] in
theorem Limited.perm {acceptEvents : List (Accept Thread)} (limited : Limited maxSessionCount s)
    (perm : s.acceptEvents.Perm acceptEvents) : Limited maxSessionCount {s with acceptEvents := acceptEvents} := by
  refine ⟨?_,fun one u arrives => perm.mem_iff.mp (limited.known one u arrives),(perm.map _).nodup_iff.mp limited.distinct,
    fun accept member => limited.made accept (perm.mem_iff.mpr member)⟩
  have same : s.arrivals = arrivals {s with acceptEvents := acceptEvents} := perm.countP_eq _
  exact same ▸ limited.within

theorem set_perm {α : Type _} {all : List α} {one : α} (there : all[index]? = some one) :
    ∃ rest, all.Perm (one :: rest) ∧ ∀ new, (all.set index new).Perm (new :: rest) := by
  obtain ⟨below,rfl⟩ := List.getElem?_eq_some_iff.mp there
  obtain ⟨front,back,whole,size,_⟩ := @List.exists_of_set _ index all[index] all below
  refine ⟨front ++ back,?_,fun new => ?_⟩
  · conv_lhs => rw [whole]
    exact List.perm_middle
  · rw [whole,List.set_append_right _ _ (Nat.le_of_eq size),size,Nat.sub_self]
    exact List.perm_middle

variable {rest : List (Accept Thread)}

omit [DecidableEq Thread] in
theorem posted_limited (limited : Limited maxSessionCount {s with acceptEvents := rest}) : Limited maxSessionCount {s with
    acceptEvents := .posted (s.created + failures) :: rest
    created := s.created + failures + 1} := by
  obtain ⟨within,known,distinct,made⟩ := limited
  refine ⟨within,fun one u arrives => List.mem_cons_of_mem _ (known one u arrives),List.nodup_cons.mpr ⟨fun used => ?_,distinct⟩,
    fun accept member => ?_⟩
  · obtain ⟨accept,member,same⟩ := List.mem_map.mp used
    have earlier := made accept member
    simp only [Accept.session] at same earlier
    omega
  · rcases List.mem_cons.mp member with rfl | member
    · exact Nat.lt_succ_self _
    · exact Nat.lt_of_lt_of_le (made accept member) (Nat.le_trans (Nat.le_add_right _ _) (Nat.le_succ _))

omit [DecidableEq Thread] in
theorem Limited.dropped (limited : Limited maxSessionCount {s with acceptEvents := accept :: rest})
    (off : arriving s.service accept = false) : Limited maxSessionCount {s with acceptEvents := rest} := by
  obtain ⟨within,known,distinct,made⟩ := limited
  refine ⟨?_,fun one u arrives => ?_,distinct.of_cons,fun other member => made other (List.mem_cons_of_mem _ member)⟩
  · have same : arrivals {s with acceptEvents := accept :: rest} = arrivals {s with acceptEvents := rest} :=
      List.countP_cons_of_neg (by simp [off])
    exact same ▸ within
  · rcases List.mem_cons.mp (known one u arrives) with rfl | member
    · exact absurd (off.symm.trans arrives) (by simp)
    · exact member

theorem connect_arriving {life after : Life Thread Buffer} {failed : Bool} {effect : Effect}
    (does : Does life thread (.connect failed) effect after) :
    effect = .none ∧ (Arriving (after.place thread) = true → failed = false) := by
  cases does with
  | connects =>
    refine ⟨rfl,fun arriving => ?_⟩
    cases failed with
    | false => rfl
    | true => simp [Life.goto,Arriving] at arriving
  | walks place _ _ _ late => exact ⟨rfl,fun arriving => by simp [Life.goto,arriving_early late] at arriving⟩
  | calls _ _ _ _ to_ =>
    refine ⟨rfl,fun arriving => ?_⟩
    rcases to_ with rfl | ⟨rfl,_⟩ <;> simp [Life.goto,Arriving] at arriving

theorem accepted_limited {service : Service Nat Thread Buffer} {failed : Bool}
    (limited : Limited maxSessionCount {s with acceptEvents := .posted session :: rest})
    (serves : s.service.Serves session thread (.connect failed) service)
    (room : failed = false → s.service.sessionCount + rest.countP (arriving s.service) < maxSessionCount) :
    Limited maxSessionCount {s with service := service,acceptEvents := .processing session thread :: rest} := by
  obtain ⟨within,known,distinct,made⟩ := limited
  obtain ⟨alone,distinct⟩ := List.nodup_cons.mp distinct
  have apart : ∀ other ∈ rest, other.session ≠ session := fun other member same => alone (List.mem_map.mpr ⟨other,member,same⟩)
  cases serves with
  | added does | released does | asserted does | null does => cases (connect_arriving does).1
  | @moved life does =>
    have others : rest.countP (arriving {s.service with session := Function.update s.service.session session life}) =
        rest.countP (arriving s.service) := List.countP_congr fun other member => by
      cases other with
      | posted => exact Iff.rfl
      | processing one u =>
        have elsewhere : one ≠ session := apart _ member
        simp only [arriving,Function.update_of_ne elsewhere]
    refine ⟨?_,fun one u arrives => ?_,List.nodup_cons.mpr ⟨alone,distinct⟩,fun other member => ?_⟩
    · simp only [arrivals,List.countP_cons,others,arriving,Function.update_self] at within ⊢
      split
      · rename_i arrives
        have room := room ((connect_arriving does).2 arrives)
        omega
      · simpa using within
    · by_cases here : one = session
      · subst here
        simp only [Function.update_self] at arrives
        by_cases mine : u = thread
        · subst mine
          exact List.mem_cons_self
        · rw [does.turns.places u mine] at arrives
          rcases List.mem_cons.mp (known _ u arrives) with impossible | member
          · cases impossible
          · exact absurd rfl (apart _ member)
      · simp only [Function.update_of_ne here] at arrives
        rcases List.mem_cons.mp (known _ u arrives) with impossible | member
        · cases impossible
        · exact List.mem_cons_of_mem _ member
    · rcases List.mem_cons.mp member with rfl | member
      · exact made (.posted session) List.mem_cons_self
      · exact made other (List.mem_cons_of_mem _ member)

omit [DecidableEq Thread] in
theorem start_limited (least : 0 ≤ maxSessionCount) : Limited maxSessionCount (start : Listener Thread Buffer) :=
  ⟨least,fun _ _ arrives => absurd arrives Bool.false_ne_true,List.nodup_nil,fun _ member => absurd member List.not_mem_nil⟩

theorem step_limited (s : Listener Thread Buffer) (event : ListenerEvent Thread Buffer) (next : Listener Thread Buffer)
    (limited : Limited maxSessionCount s) (taken : Guarded (Enabled (step · maxSessionCount)) (HasRoom maxSessionCount) s event next) :
    Limited maxSessionCount next := by
  obtain ⟨taken,room⟩ := taken
  simp only [Enabled] at taken
  cases event with
  | startAccept failures =>
    simp only [step] at taken
    split at taken
    · cases taken
      exact (posted_limited limited).perm (List.perm_append_singleton _ _).symm
    · cases taken
  | rejected index failures =>
    simp only [step] at taken
    split at taken
    · rename_i there
      cases taken
      obtain ⟨rest,whole,set⟩ := set_perm there
      exact (posted_limited ((limited.perm whole).dropped rfl)).perm (set _).symm
    · cases taken
  | accepted thread index failed =>
    simp only [step] at taken
    split at taken
    · rename_i session there
      obtain ⟨service,went,rfl⟩ := Option.map_eq_some_iff.mp taken
      obtain ⟨rest,whole,set⟩ := set_perm there
      refine (accepted_limited (limited.perm whole) (Service.step_serves went).2 fun none => ?_).perm (set _).symm
      subst none
      have arrivals : s.arrivals = (.posted session :: rest).countP (arriving s.service) := whole.countP_eq _
      rw [List.countP_cons_of_neg Bool.false_ne_true] at arrivals
      exact arrivals ▸ room
    · cases taken
  | registerAccept index failures =>
    simp only [step] at taken
    split at taken
    · rename_i session thread there
      split at taken
      · rename_i returned
        cases taken
        obtain ⟨rest,whole,set⟩ := set_perm there
        have off : arriving s.service (.processing session thread) = false := by rw [arriving,returned.1]; rfl
        exact (posted_limited ((limited.perm whole).dropped off)).perm (set _).symm
      · cases taken
    · cases taken
  | service session thread choice =>
    simp only [step] at taken
    split at taken
    · rename_i inside
      obtain ⟨service,went,rfl⟩ := Option.map_eq_some_iff.mp taken
      exact service_within limited (Service.step_serves went).2 inside.2
    · cases taken

-- The limit holds all along if no client is accepted beyond it: nothing else keeps the
-- sessions of a ServerService from growing past maxSessionCount.
theorem session_limit (least : 0 ≤ maxSessionCount)
    (path : Runs (Guarded (Enabled (step · maxSessionCount)) (HasRoom maxSessionCount)) (start : Listener Thread Buffer) events s) :
    s.service.sessionCount ≤ maxSessionCount := by
  have limited := path.invariant step_limited (start_limited least)
  have within := limited.within
  omega

-- StartAccept posts one AcceptEvent; a client comes, is added and its session receives; the
-- event is posted again.
def firstClient : List (ListenerEvent Bool Nat) :=
  [.startAccept 0,.accepted false 0 false,.service 0 false .go,.service 0 false .go,.service 0 false .go,.service 0 false .go,
    .service 0 false .go,.service 0 false (.wsaRecv none),.registerAccept 0 0]

def firstLeaves : List (ListenerEvent Bool Nat) :=
  [.service 0 true (.completeRecv 0),.service 0 true .go,.service 0 true (.send .go),.service 0 true (.send .go),
    .service 0 true (.disconnectEx none),.service 0 true .go,.service 0 true .completeDisconnect,.service 0 true .go,.service 0 true .go,.service 0 true .go]

def nextClient : List (ListenerEvent Bool Nat) := [.accepted false 0 false,.service 1 false .go,.service 1 false .go]

theorem session_limit_turns : ∃ s, Runs (Guarded (Enabled (step · 1)) (HasRoom 1)) (start : Listener Bool Nat)
    (firstClient ++ firstLeaves ++ nextClient) s ∧ s.service.sessions = {1} ∧ s.service.sessionCount ≤ 1 := by
  have path : Runs (Guarded (Enabled (step · 1)) (HasRoom 1)) (start : Listener Bool Nat) (firstClient ++ firstLeaves ++ nextClient) _ :=
    guard_runs rfl
  exact ⟨_,path,rfl,session_limit (by decide) path⟩

-- The first client is still there when the second one comes.
theorem session_limit_passed : ¬ ∀ (maxSessionCount : Int) (events : List (ListenerEvent Bool Nat)) (s : Listener Bool Nat),
    0 ≤ maxSessionCount → Runs (Enabled (step · maxSessionCount)) start events s → s.service.sessionCount ≤ maxSessionCount := by
  intro always
  have path : Runs (Enabled (step · 1)) (start : Listener Bool Nat) _ _ := @execute_runs _ _ _ (firstClient ++ nextClient) _ (step · 1) rfl
  exact absurd (always 1 _ _ (by decide) path) (by decide)

end Listener
end IocpChatServer.ServerCore
