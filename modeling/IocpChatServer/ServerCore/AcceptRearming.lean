import IocpChatServer.ServerCore.Listener

namespace IocpChatServer.ServerCore.AcceptRearming

def wsaIoPending : Int := 997

-- One round: whether Register takes the session in CreateSession, and what WSAGetLastError says when AcceptEx is false.
structure Outcome where
  registered : Bool
  errCode : Option Int
  deriving DecidableEq, Repr

structure AcceptEvent where
  session : Option Nat := none
  outstanding : Nat := 0
  deriving DecidableEq, Repr

-- A session that is null is dereferenced; or so many calls were not enough.
inductive Ending (α : Type) where
  | returned (value : α)
  | nullSession
  | unfinished
  deriving DecidableEq, Repr

def Ending.andThen {α β : Type} : Ending α → (α → Ending β) → Ending β
  | .returned value,next => next value
  | .nullSession,_ => .nullSession
  | .unfinished,_ => .unfinished

-- Sessions are numbered by the rounds they are made in.
def createSession (outcome : Outcome) (round : Nat) : Option Nat := if outcome.registered then some round else none

-- `used` outcomes have been seen before. Init clears what only the system looks at.
def registerAccept (outcomes : Nat → Outcome) : Nat → Nat → AcceptEvent → Ending (Nat × AcceptEvent)
  | 0,_,_ => .unfinished
  | calls + 1,used,acceptEvent =>
    match createSession (outcomes used) used with
    | none => .nullSession
    | some session =>
      let acceptEvent := {acceptEvent with session := some session}
      match (outcomes used).errCode with
      | none => .returned (used + 1,{acceptEvent with outstanding := acceptEvent.outstanding + 1})
      | some errCode =>
        if errCode ≠ wsaIoPending then registerAccept outcomes calls (used + 1) acceptEvent
        else .returned (used + 1,{acceptEvent with outstanding := acceptEvent.outstanding + 1})

structure Listener where
  used : Nat := 0
  acceptEvents : List AcceptEvent := []
  deriving DecidableEq, Repr

structure Setup where
  service : Bool
  socket : Bool
  socketAgain : Bool
  register : Bool
  setReuseAddress : Bool
  setLinger : Bool
  bind : Bool
  listen : Bool
  deriving DecidableEq, Repr

def Setup.passes (setup : Setup) : Bool :=
  setup.service && setup.socket && setup.socketAgain && setup.register && setup.setReuseAddress && setup.setLinger && setup.bind && setup.listen

def registerAll (outcomes : Nat → Outcome) (calls : Nat) : Nat → Listener → Ending Listener
  | 0,s => .returned s
  | more + 1,s =>
    (registerAccept outcomes calls s.used {}).andThen fun (used,acceptEvent) =>
      registerAll outcomes calls more {used := used,acceptEvents := s.acceptEvents ++ [acceptEvent]}

def startAccept (outcomes : Nat → Outcome) (calls : Nat) (setup : Setup) (acceptCount : Int) (s : Listener) : Ending (Bool × Listener) :=
  if setup.passes then (registerAll outcomes calls acceptCount.toNat s).andThen fun s => .returned (true,s)
  else .returned (false,s)

-- A completion: of which event, and whether SetUpdateAcceptSocket and getpeername go well.
structure Completion where
  index : Nat
  updated : Bool
  named : Bool
  deriving DecidableEq, Repr

-- ProcessConnect has no hand in the AcceptEvents.
def processAccept (outcomes : Nat → Outcome) (calls : Nat) (completion : Completion) (used : Nat) (acceptEvent : AcceptEvent) :
    Ending (Nat × AcceptEvent) :=
  match acceptEvent.session with
  | none => .nullSession
  | some _ =>
    if completion.updated = false then registerAccept outcomes calls used acceptEvent
    else if completion.named = false then registerAccept outcomes calls used acceptEvent
    else registerAccept outcomes calls used acceptEvent

-- The system completes nothing that is not outstanding.
def dispatch (outcomes : Nat → Outcome) (calls : Nat) (s : Listener) (completion : Completion) : Ending Listener :=
  match s.acceptEvents[completion.index]? with
  | none => .returned s
  | some acceptEvent =>
    if acceptEvent.outstanding = 0 then .returned s
    else (processAccept outcomes calls completion s.used {acceptEvent with outstanding := acceptEvent.outstanding - 1}).andThen
      fun (used,acceptEvent) => .returned {used := used,acceptEvents := s.acceptEvents.set completion.index acceptEvent}

def dispatchAll (outcomes : Nat → Outcome) (calls : Nat) : List Completion → Listener → Ending Listener
  | [],s => .returned s
  | completion :: later,s => (dispatch outcomes calls s completion).andThen (dispatchAll outcomes calls later)

def life (outcomes : Nat → Outcome) (calls : Nat) (setup : Setup) (acceptCount : Int) (completions : List Completion) : Ending Listener :=
  (startAccept outcomes calls setup acceptCount {}).andThen fun (_,s) => dispatchAll outcomes calls completions s

def Outcome.Accepts (outcome : Outcome) : Prop :=
  outcome.registered = true ∧ ∀ errCode ∈ outcome.errCode, errCode = wsaIoPending

def Outcome.Rejects (outcome : Outcome) : Prop :=
  outcome.registered = true ∧ ∃ errCode ∈ outcome.errCode, errCode ≠ wsaIoPending

-- After immediate errors only, the round `last` is the first that AcceptEx takes.
structure Settles (outcomes : Nat → Outcome) (used last : Nat) : Prop where
  later : used ≤ last
  accepts : (outcomes last).Accepts
  rejects : ∀ round, used ≤ round → round < last → (outcomes round).Rejects

variable {outcomes : Nat → Outcome} {calls more used last next : Nat} {acceptEvent after : AcceptEvent} {s t : Listener} {setup : Setup}
  {acceptCount : Int} {completion : Completion} {completions : List Completion}

theorem registerAccept_accepts (accepts : (outcomes used).Accepts) : registerAccept outcomes (calls + 1) used acceptEvent =
    .returned (used + 1,⟨some used,acceptEvent.outstanding + 1⟩) := by
  obtain ⟨registered,pending⟩ := accepts
  simp only [registerAccept,createSession,registered,if_true]
  cases code : (outcomes used).errCode with
  | none => rfl
  | some errCode =>
    have same : errCode = wsaIoPending := pending errCode code
    simp [same]

theorem registerAccept_rejects (rejects : (outcomes used).Rejects) : registerAccept outcomes (calls + 1) used acceptEvent =
    registerAccept outcomes calls (used + 1) {acceptEvent with session := some used} := by
  obtain ⟨registered,errCode,code,apart⟩ := rejects
  have code : (outcomes used).errCode = some errCode := code
  simp [registerAccept,createSession,registered,code,apart]

theorem registerAccept_settles (settles : Settles outcomes used last) (enough : last < used + calls) :
    registerAccept outcomes calls used acceptEvent = .returned (last + 1,⟨some last,acceptEvent.outstanding + 1⟩) := by
  induction calls generalizing used acceptEvent with
  | zero =>
    have later := settles.later
    omega
  | succ calls ih =>
    by_cases here : used = last
    · subst here
      exact registerAccept_accepts settles.accepts
    · have before : used < last := Nat.lt_of_le_of_ne settles.later here
      rw [registerAccept_rejects (settles.rejects used (Nat.le_refl _) before)]
      exact ih ⟨before,settles.accepts,fun round from_ => settles.rejects round (Nat.le_of_succ_le from_)⟩ (by omega)

theorem registerAccept_returned (done : registerAccept outcomes calls used acceptEvent = .returned (next,after)) :
    ∃ last, Settles outcomes used last ∧ next = last + 1 ∧ after = ⟨some last,acceptEvent.outstanding + 1⟩ := by
  induction calls generalizing used acceptEvent with
  | zero => cases done
  | succ calls ih =>
    by_cases registered : (outcomes used).registered = true
    · by_cases accepts : ∀ errCode ∈ (outcomes used).errCode, errCode = wsaIoPending
      · rw [registerAccept_accepts ⟨registered,accepts⟩] at done
        cases done
        exact ⟨used,⟨Nat.le_refl _,⟨registered,accepts⟩,fun round from_ to_ => by omega⟩,rfl,rfl⟩
      · have rejects : (outcomes used).Rejects := ⟨registered,by simpa using accepts⟩
        rw [registerAccept_rejects rejects] at done
        obtain ⟨last,settles,rfl,rfl⟩ := ih done
        refine ⟨last,⟨Nat.le_of_succ_le settles.later,settles.accepts,fun round from_ before => ?_⟩,rfl,rfl⟩
        by_cases here : round = used
        · exact here ▸ rejects
        · exact settles.rejects round (by omega) before
    · simp [registerAccept,createSession,registered] at done

-- The Listener of the sessions knows only how many rounds failed: its RegisterAccept makes the same session of them.
theorem registerAccept_failures {Thread Buffer : Type _} [DecidableEq Thread] {listener : ServerCore.Listener Thread Buffer} {index : Nat}
    (there : index < listener.acceptEvents.length)
    (done : registerAccept outcomes calls listener.created acceptEvent = .returned (next,after)) :
    ∃ failures, next = (listener.registerAccept index failures).created ∧
      after.session = ((listener.registerAccept index failures).acceptEvents[index]?).map Accept.session := by
  obtain ⟨last,settles,rfl,rfl⟩ := registerAccept_returned done
  obtain ⟨failures,rfl⟩ := Nat.exists_eq_add_of_le settles.later
  exact ⟨failures,rfl,by simp [Listener.registerAccept,there,Accept.session]⟩

def Listener.Armed (s : Listener) : Prop := ∀ acceptEvent ∈ s.acceptEvents, acceptEvent.session.isSome = true ∧ acceptEvent.outstanding = 1

def Listener.Covered (outcomes : Nat → Outcome) (s : Listener) : Prop := ∀ round, round < s.used → ∃ last, Settles outcomes round last

theorem settles_from {round : Nat} (settles : Settles outcomes used last) (from_ : used ≤ round) (to_ : round ≤ last) :
    Settles outcomes round last :=
  ⟨to_,settles.accepts,fun later above => settles.rejects later (Nat.le_trans from_ above)⟩

theorem covered_next (covered : s.Covered outcomes) (settles : Settles outcomes s.used last) :
    ({s with used := last + 1} : Listener).Covered outcomes := by
  intro round before
  by_cases old : round < s.used
  · exact covered round old
  · exact ⟨last,settles_from settles (Nat.le_of_not_lt old) (Nat.le_of_lt_succ before)⟩

theorem andThen_returned {α β : Type} {ending : Ending α} {following : α → Ending β} {result : β}
    (done : ending.andThen following = .returned result) : ∃ value, ending = .returned value ∧ following value = .returned result := by
  cases ending with
  | returned value => exact ⟨value,rfl,done⟩
  | nullSession => cases done
  | unfinished => cases done

theorem registerAll_returned (armed : s.Armed) (covered : s.Covered outcomes) (done : registerAll outcomes calls more s = .returned t) :
    t.Armed ∧ t.Covered outcomes ∧ t.acceptEvents.length = s.acceptEvents.length + more := by
  induction more generalizing s with
  | zero =>
    cases done
    exact ⟨armed,covered,rfl⟩
  | succ more ih =>
    obtain ⟨⟨next,after⟩,first,rest⟩ := andThen_returned done
    obtain ⟨last,settles,rfl,rfl⟩ := registerAccept_returned first
    have armed' : ({used := last + 1,acceptEvents := s.acceptEvents ++ [⟨some last,0 + 1⟩]} : Listener).Armed := by
      intro acceptEvent member
      rcases List.mem_append.1 member with old | new
      · exact armed acceptEvent old
      · rw [List.mem_singleton.1 new]
        exact ⟨rfl,rfl⟩
    obtain ⟨final,settled,length⟩ := ih armed' (covered_next covered settles) rest
    refine ⟨final,settled,?_⟩
    simp only [List.length_append,List.length_singleton] at length
    omega

theorem processAccept_armed {session : Nat} (named : acceptEvent.session = some session) :
    processAccept outcomes calls completion used acceptEvent = registerAccept outcomes calls used acceptEvent := by
  simp [processAccept,named]

theorem armed_set {index : Nat} (armed : s.Armed) :
    ({used := next,acceptEvents := s.acceptEvents.set index ⟨some last,1⟩} : Listener).Armed := by
  intro acceptEvent member
  rcases List.mem_or_eq_of_mem_set member with old | new
  · exact armed acceptEvent old
  · exact new ▸ ⟨rfl,rfl⟩

-- A completion takes the one AcceptEx from its event, and ProcessAccept gives the event another on every way through.
theorem dispatch_armed (armed : s.Armed) (event : s.acceptEvents[completion.index]? = some acceptEvent) :
    dispatch outcomes calls s completion = (registerAccept outcomes calls s.used {acceptEvent with outstanding := 0}).andThen
      fun (used,acceptEvent) => .returned {used := used,acceptEvents := s.acceptEvents.set completion.index acceptEvent} := by
  obtain ⟨hasSession,one⟩ := armed acceptEvent (List.mem_of_getElem? event)
  obtain ⟨session,named⟩ := Option.isSome_iff_exists.1 hasSession
  have named' : ({acceptEvent with outstanding := 1 - 1} : AcceptEvent).session = some session := named
  simp only [dispatch,event,one,Nat.one_ne_zero,if_false]
  rw [processAccept_armed named']

theorem dispatch_returned (armed : s.Armed) (covered : s.Covered outcomes) (done : dispatch outcomes calls s completion = .returned t) :
    t.Armed ∧ t.Covered outcomes ∧ t.acceptEvents.length = s.acceptEvents.length ∧
      s.used + (if completion.index < s.acceptEvents.length then 1 else 0) ≤ t.used := by
  cases event : s.acceptEvents[completion.index]? with
  | none =>
    simp only [dispatch,event] at done
    cases done
    have outside : ¬ completion.index < s.acceptEvents.length := Nat.not_lt.2 (List.getElem?_eq_none_iff.1 event)
    exact ⟨armed,covered,rfl,by simp [outside]⟩
  | some acceptEvent =>
    rw [dispatch_armed armed event] at done
    obtain ⟨⟨next,after⟩,again,rest⟩ := andThen_returned done
    obtain ⟨last,settles,rfl,rfl⟩ := registerAccept_returned again
    cases rest
    refine ⟨armed_set armed,covered_next covered settles,List.length_set,?_⟩
    have later := settles.later
    show s.used + _ ≤ last + 1
    split <;> omega

theorem dispatchAll_returned (armed : s.Armed) (covered : s.Covered outcomes)
    (done : dispatchAll outcomes calls completions s = .returned t) : t.Armed ∧ t.Covered outcomes := by
  induction completions generalizing s with
  | nil =>
    cases done
    exact ⟨armed,covered⟩
  | cons completion later ih =>
    obtain ⟨u,first,rest⟩ := andThen_returned done
    obtain ⟨armed',covered',_⟩ := dispatch_returned armed covered first
    exact ih armed' covered' rest

theorem dispatchAll_replicate {times : Nat} (armed : s.Armed) (covered : s.Covered outcomes) (some_ : 0 < s.acceptEvents.length)
    (done : dispatchAll outcomes calls (List.replicate times ⟨0,true,true⟩) s = .returned t) : s.used + times ≤ t.used := by
  induction times generalizing s with
  | zero =>
    cases done
    exact Nat.le_refl _
  | succ times ih =>
    obtain ⟨u,first,rest⟩ := andThen_returned done
    obtain ⟨armed',covered',length,used⟩ := dispatch_returned armed covered first
    rw [if_pos some_] at used
    have later := ih armed' covered' (length ▸ some_) rest
    omega

theorem startAccept_returned {accepted : Bool} (done : startAccept outcomes calls setup acceptCount {} = .returned (accepted,t)) :
    t.Armed ∧ t.Covered outcomes ∧ t.acceptEvents.length = if setup.passes then acceptCount.toNat else 0 := by
  have armed : ({} : Listener).Armed := fun _ member => absurd member List.not_mem_nil
  have covered : ({} : Listener).Covered outcomes := fun _ before => absurd before (Nat.not_lt_zero _)
  unfold startAccept at done
  split at done
  case isTrue passes =>
    obtain ⟨u,all,same⟩ := andThen_returned done
    cases same
    obtain ⟨armed',covered',length⟩ := registerAll_returned armed covered all
    exact ⟨armed',covered',by simpa [passes] using length⟩
  case isFalse passes =>
    cases done
    exact ⟨armed,covered,by simp [passes]⟩

theorem life_returned (done : life outcomes calls setup acceptCount completions = .returned t) : t.Armed ∧ t.Covered outcomes := by
  obtain ⟨⟨accepted,s⟩,start,rest⟩ := andThen_returned done
  obtain ⟨armed,covered,_⟩ := startAccept_returned start
  exact dispatchAll_returned armed covered rest

theorem registerAll_ends (settle : ∀ round, ∃ last, Settles outcomes round last) (more : Nat) (s : Listener) :
    ∃ enough t, ∀ calls, enough ≤ calls → registerAll outcomes calls more s = .returned t := by
  induction more generalizing s with
  | zero => exact ⟨0,s,fun _ _ => rfl⟩
  | succ more ih =>
    obtain ⟨last,settles⟩ := settle s.used
    obtain ⟨enough,t,rest⟩ := ih ⟨last + 1,s.acceptEvents ++ [⟨some last,0 + 1⟩]⟩
    refine ⟨max enough (last + 1),t,fun calls above => ?_⟩
    simp only [registerAll,registerAccept_settles settles (show last < s.used + calls by omega),Ending.andThen]
    exact rest calls (by omega)

theorem dispatch_ends (settle : ∀ round, ∃ last, Settles outcomes round last) (armed : s.Armed) (completion : Completion) :
    ∃ enough t, ∀ calls, enough ≤ calls → dispatch outcomes calls s completion = .returned t := by
  cases event : s.acceptEvents[completion.index]? with
  | none => exact ⟨0,s,fun calls _ => by simp only [dispatch,event]⟩
  | some acceptEvent =>
    obtain ⟨last,settles⟩ := settle s.used
    refine ⟨last + 1,⟨last + 1,s.acceptEvents.set completion.index ⟨some last,0 + 1⟩⟩,fun calls above => ?_⟩
    rw [dispatch_armed armed event,registerAccept_settles settles (by omega)]
    rfl

theorem dispatchAll_ends (settle : ∀ round, ∃ last, Settles outcomes round last) (armed : s.Armed) (covered : s.Covered outcomes)
    (completions : List Completion) :
    ∃ enough t, ∀ calls, enough ≤ calls → dispatchAll outcomes calls completions s = .returned t := by
  induction completions generalizing s with
  | nil => exact ⟨0,s,fun _ _ => rfl⟩
  | cons completion later ih =>
    obtain ⟨enough,u,first⟩ := dispatch_ends settle armed completion
    obtain ⟨armed',covered',_⟩ := dispatch_returned armed covered (first enough (Nat.le_refl _))
    obtain ⟨enough',t,rest⟩ := ih armed' covered'
    refine ⟨max enough enough',t,fun calls above => ?_⟩
    rw [dispatchAll,first calls (by omega)]
    exact rest calls (by omega)

theorem startAccept_ends (settle : ∀ round, ∃ last, Settles outcomes round last) (setup : Setup) (acceptCount : Int) :
    ∃ enough accepted t, ∀ calls, enough ≤ calls → startAccept outcomes calls setup acceptCount {} = .returned (accepted,t) := by
  cases passes : setup.passes with
  | false => exact ⟨0,false,{},fun _ _ => by simp [startAccept,passes]⟩
  | true =>
    obtain ⟨enough,t,all⟩ := registerAll_ends settle acceptCount.toNat {}
    exact ⟨enough,true,t,fun calls above => by simp [startAccept,passes,all calls above,Ending.andThen]⟩

theorem life_ends (settle : ∀ round, ∃ last, Settles outcomes round last) (setup : Setup) (acceptCount : Int) (completions : List Completion) :
    ∃ calls t, life outcomes calls setup acceptCount completions = .returned t := by
  obtain ⟨enough,accepted,s,start⟩ := startAccept_ends settle setup acceptCount
  obtain ⟨armed,covered,_⟩ := startAccept_returned (start enough (Nat.le_refl _))
  obtain ⟨enough',t,rest⟩ := dispatchAll_ends settle armed covered completions
  refine ⟨max enough enough',t,?_⟩
  rw [life,start _ (by omega)]
  exact rest _ (by omega)

theorem dispatchAll_empty : dispatchAll outcomes calls completions {} = .returned {} := by
  induction completions with
  | nil => rfl
  | cons completion later ih => exact ih

theorem life_none (none_ : acceptCount ≤ 0) : life outcomes calls setup acceptCount completions = .returned {} := by
  have count : acceptCount.toNat = 0 := Int.toNat_of_nonpos none_
  have start : startAccept outcomes calls setup acceptCount {} = .returned (setup.passes,{}) := by
    unfold startAccept
    rw [count]
    cases setup.passes <;> rfl
  rw [life,start]
  exact dispatchAll_empty

theorem settles_of_returned (some_ : 0 < acceptCount) (round : Nat)
    (done : life outcomes calls ⟨true,true,true,true,true,true,true,true⟩ acceptCount (List.replicate (round + 1) ⟨0,true,true⟩) =
      .returned t) :
    ∃ last, Settles outcomes round last := by
  obtain ⟨⟨accepted,s⟩,start,rest⟩ := andThen_returned done
  obtain ⟨armed,covered,length⟩ := startAccept_returned start
  have length : s.acceptEvents.length = acceptCount.toNat := length
  have used := dispatchAll_replicate armed covered (by omega) rest
  exact (dispatchAll_returned armed covered rest).2 round (by omega)

-- RegisterAccept returns, with one AcceptEx more, exactly if after immediate errors AcceptEx takes one and none of its sessions is null;
-- and every listener goes on and has each AcceptEvent outstanding at most once exactly if that is so wherever one begins.
theorem rearming_ends_iff_settles (outcomes : Nat → Outcome) :
    (∀ used acceptEvent, (∃ calls next after, registerAccept outcomes calls used acceptEvent = .returned (next,after) ∧
        after.outstanding = acceptEvent.outstanding + 1) ↔ ∃ last, Settles outcomes used last) ∧
      ∀ acceptCount : Int, (∀ setup completions, ∃ calls t, life outcomes calls setup acceptCount completions = .returned t ∧
          ∀ acceptEvent ∈ t.acceptEvents, acceptEvent.outstanding ≤ 1) ↔
        acceptCount ≤ 0 ∨ ∀ round, ∃ last, Settles outcomes round last := by
  refine ⟨fun used acceptEvent => ⟨?_,?_⟩,fun acceptCount => ⟨?_,?_⟩⟩
  · rintro ⟨calls,next,after,done,_⟩
    obtain ⟨last,settles,_⟩ := registerAccept_returned done
    exact ⟨last,settles⟩
  · rintro ⟨last,settles⟩
    exact ⟨last + 1,_,_,registerAccept_settles settles (by omega),rfl⟩
  · intro ends
    by_cases none_ : acceptCount ≤ 0
    · exact .inl none_
    · refine .inr fun round => ?_
      obtain ⟨calls,t,done,_⟩ := ends ⟨true,true,true,true,true,true,true,true⟩ (List.replicate (round + 1) ⟨0,true,true⟩)
      exact settles_of_returned (Int.not_le.1 none_) round done
  · rintro (none_ | settle) setup completions
    · exact ⟨0,{},life_none none_,fun acceptEvent member => absurd member List.not_mem_nil⟩
    · obtain ⟨calls,t,done⟩ := life_ends settle setup acceptCount completions
      exact ⟨calls,t,done,fun acceptEvent member => Nat.le_of_eq ((life_returned done).1 acceptEvent member).2⟩

-- The listening socket is closed: every AcceptEx fails with WSAENOTSOCK, and the first RegisterAccept never returns.
theorem rearming_closed_socket : (∀ calls, registerAccept (fun _ => ⟨true,some 10038⟩) calls 0 {} = .unfinished) ∧
    ∀ calls, registerAccept (fun _ => ⟨false,none⟩) (calls + 1) 0 {} = .nullSession := by
  have again : ∀ calls used acceptEvent, registerAccept (fun _ => ⟨true,some 10038⟩) calls used acceptEvent = .unfinished := by
    intro calls
    induction calls with
    | zero => exact fun _ _ => rfl
    | succ calls ih =>
      intro used acceptEvent
      rw [registerAccept_rejects ⟨rfl,10038,rfl,by decide⟩]
      exact ih _ _
  exact ⟨fun calls => again calls 0 {},fun calls => rfl⟩

end IocpChatServer.ServerCore.AcceptRearming
