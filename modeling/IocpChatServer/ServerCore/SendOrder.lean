import IocpChatServer.ServerCore.SessionSend

namespace IocpChatServer.ServerCore.SessionSend
open Foundations TransitionSystem
variable {Thread Buffer : Type _} [DecidableEq Thread]

-- The thread that has the turn to send: from the exchange that found `_sendRegistered` false,
-- or from a completion, until the turn is given to the kernel or given up.
def Holds : Position Buffer → Prop
  | .registerConnected _ | .registerOwner _ | .registerDrain _ | .registerGather _ | .wsaSend _ _
  | .failOwner _ | .failClear _ | .failStore _ | .processOwner _ | .processClear _
  | .processLock | .processEmpty | .processStore
  | .disconnect (.handleError _) | .registerDisconnect (.handleError _) => True
  | _ => False

def Prepares : Position Buffer → Prop
  | .registerConnected _ | .registerOwner _ | .registerDrain _ | .registerGather _ | .wsaSend _ _ => True
  | _ => False

def Hands : Position Buffer → Prop
  | .registerGather _ | .wsaSend _ _ => True
  | _ => False

instance (position : Position Buffer) : Decidable (Hands position) := by
  unfold Hands
  split <;> infer_instance

theorem Hands.holds {position : Position Buffer} (hands : Hands position) : Holds position := by
  cases position <;> trivial

def Locked (s : State Thread Buffer) (t : Thread) (caller : Caller) : Prop := caller = .processSend → s.lock = some t

def Place (s : State Thread Buffer) (t : Thread) : Position Buffer → Prop
  | .registerConnected caller | .registerOwner caller | .registerDrain caller =>
    s.sendBuffers = [] ∧ s.sendQueue ≠ [] ∧ Locked s t caller
  | .registerGather caller => s.sendBuffers ≠ [] ∧ Locked s t caller
  | .wsaSend caller wsaBufs => wsaBufs = s.sendBuffers ∧ s.sendBuffers ≠ [] ∧ Locked s t caller
  | .failOwner caller | .failClear caller
  | .disconnect (.handleError caller) | .registerDisconnect (.handleError caller) => Locked s t caller
  | .failStore caller => s.sendBuffers = [] ∧ Locked s t caller
  | .processLock => s.sendBuffers = []
  | .processEmpty => s.sendBuffers = [] ∧ s.lock = some t
  | .processStore => s.sendBuffers = [] ∧ s.sendQueue = [] ∧ s.lock = some t
  | .processUnlock => s.lock = some t
  | _ => True

def handed (position : Thread → Position Buffer) (sendBuffers : List Buffer) : Option Thread → List Buffer
  | none => []
  | some t => if Hands (position t) then sendBuffers else []

-- `holder` is the one thread that has the turn, if a thread has it.
structure Inv (s : State Thread Buffer) (holder : Option Thread) : Prop where
  holds : ∀ t, Holds (s.position t) ↔ holder = some t
  places : ∀ t, Place s t (s.position t)
  alone : holder ≠ none → s.outstanding = []
  idle : s.sendRegistered = false → holder = none ∧ s.outstanding = []
  single : s.outstanding.length ≤ 1
  kept : ∀ wsaBufs ∈ s.outstanding, wsaBufs = s.sendBuffers
  cleared : holder = none → s.outstanding = [] → s.sendBuffers = []
  order : s.given.flatten ++ handed s.position s.sendBuffers holder ++ s.sendQueue = s.pushed
  filled : ∀ wsaBufs ∈ s.given, wsaBufs ≠ []

-- The positions that lead on to the next look at the queue while the session is connected.
def Drains : Position Buffer → Prop
  | .registerConnected _ | .registerOwner _ | .registerDrain _ | .registerGather _ | .wsaSend _ _
  | .processLock | .processEmpty | .processStore => True
  | .processOwner numOfBytes | .processClear numOfBytes => numOfBytes ≠ 0
  | _ => False

-- What one step can do, with the turn before it and after it.
inductive Moves (s : State Thread Buffer) : Option Thread → Thread × Choice Buffer → State Thread Buffer → Option Thread → Prop where
  | walked (connected owner crashed : Bool) (holds : Holds position ↔ Holds (s.position t))
      (hands : Hands position ↔ Hands (s.position t)) (place : Place s t position)
      (drains : connected = true → s.connected = true ∧ (Drains (s.position t) → Drains position)) :
      Moves s holder (t,choice) ({s with connected := connected,owner := owner,crashed := crashed}.goto t position) holder
  | dropped (sendRegistered : Bool) (sendBuffers : List Buffer) (cleared : sendBuffers = [])
      (leaves : ¬ Holds position) (hands : ¬ Hands (s.position t)) (place : Place s t position)
      (drains : s.connected = true → Drains (s.position t) → sendRegistered = false ∧ s.sendQueue = []) :
      Moves s (some t) (t,choice)
        ({s with sendRegistered := sendRegistered,sendBuffers := sendBuffers}.goto t position) none
  | took (free : s.lock = none ∨ s.lock = some t) (idle : s.sendRegistered = false) (sendBuffer : Buffer) :
      Moves s holder (t,choice) ({s with
        sendQueue := s.sendQueue ++ [sendBuffer]
        sendRegistered := true
        pushed := s.pushed ++ [sendBuffer]}.goto t (.registerConnected .send)) (some t)
  | queued (free : s.lock = none ∨ s.lock = some t) (off : ¬ Holds (s.position t)) (taken : s.sendRegistered = true)
      (sendBuffer : Buffer) :
      Moves s holder (t,choice) ({s with
        sendQueue := s.sendQueue ++ [sendBuffer]
        sendRegistered := true
        pushed := s.pushed ++ [sendBuffer]}.goto t .outside) holder
  | drained (caller : Caller) (cleared : s.sendBuffers = []) (full : s.sendQueue ≠ []) (locked : Locked s t caller)
      (hands : ¬ Hands (s.position t)) :
      Moves s (some t) (t,choice)
        ({s with sendQueue := [],sendBuffers := s.sendBuffers ++ s.sendQueue}.goto t (.registerGather caller)) (some t)
  | handedOver (hands : Hands (s.position t)) (full : s.sendBuffers ≠ []) (leaves : ¬ Holds position)
      (place : Place s t position) :
      Moves s (some t) (t,choice) ({s with
        given := s.given ++ [s.sendBuffers]
        outstanding := s.outstanding ++ [s.sendBuffers]
        accepted := s.accepted ++ [s.sendBuffers]}.goto t position) none
  | refused (errorCode : Int) (hands : Hands (s.position t)) (full : s.sendBuffers ≠ [])
      (stays : Holds position) (unhanded : ¬ Hands position) (place : Place s t position) (pending : errorCode ≠ wsaIoPending) :
      Moves s (some t) (t,.wsaSend (some errorCode)) ({s with given := s.given ++ [s.sendBuffers]}.goto t position) (some t)
  | completed (index numOfBytes : Nat) (known : index < s.outstanding.length) :
      Moves s holder (t,.complete index numOfBytes)
        ({s with outstanding := s.outstanding.eraseIdx index}.goto t (.processOwner numOfBytes)) (some t)
  | clearing (hands : ¬ Hands (s.position t)) (stays : Holds position) (unhanded : ¬ Hands position)
      (place : ∀ next : State Thread Buffer, next.sendBuffers = [] → next.lock = s.lock → Place next t position)
      (drains : Drains (s.position t) → Drains position) :
      Moves s (some t) (t,choice) ({s with sendBuffers := []}.goto t position) (some t)
  | relocked (lock : Option Thread) (free : s.lock = none ∨ s.lock = some t)
      (holds : Holds position ↔ Holds (s.position t)) (hands : Hands position ↔ Hands (s.position t))
      (place : Place ({s with lock := lock}.goto t position) t position)
      (drains : Drains (s.position t) → Drains position) :
      Moves s holder (t,choice) ({s with lock := lock}.goto t position) holder

variable {s next : State Thread Buffer} {t u : Thread} {holder turn : Option Thread} {position : Position Buffer}
  {caller : Caller}

omit [DecidableEq Thread] in
theorem Place.quiet (off : ¬ Holds position) (place : Place s u position) (lock : next.lock = s.lock) :
    Place next u position := by
  cases position with
  | processUnlock => exact lock.trans place
  | outside | sendConnected | sendPush => trivial
  | disconnect return_ | registerDisconnect return_ =>
    cases return_ with
    | outside => trivial
    | handleError => exact absurd trivial off
  | _ => exact absurd trivial off

omit [DecidableEq Thread] in
theorem Locked.against (locked : Locked s u caller) (free : s.lock = none ∨ s.lock = some t) (apart : u ≠ t) :
    Locked next u caller := by
  intro nested
  rcases free with open_ | mine
  · simp [locked nested] at open_
  · rw [locked nested] at mine
    exact absurd (Option.some.inj mine) apart

omit [DecidableEq Thread] in
theorem Place.free (place : Place s u position) (free : s.lock = none ∨ s.lock = some t) (apart : u ≠ t)
    (buffers : next.sendBuffers = s.sendBuffers) (queue : s.sendQueue ≠ [] → next.sendQueue ≠ []) :
    Place next u position := by
  have unlocked : s.lock ≠ some u := by
    intro held
    rcases free with open_ | mine
    · simp [held] at open_
    · rw [held] at mine
      exact apart (Option.some.inj mine)
  cases position with
  | registerConnected caller | registerOwner caller | registerDrain caller =>
    exact ⟨buffers.trans place.1,queue place.2.1,place.2.2.against free apart⟩
  | registerGather caller => exact ⟨buffers ▸ place.1,place.2.against free apart⟩
  | wsaSend caller wsaBufs =>
    exact ⟨place.1.trans buffers.symm,buffers ▸ place.2.1,place.2.2.against free apart⟩
  | failOwner caller | failClear caller => exact Locked.against place free apart
  | failStore caller => exact ⟨buffers.trans place.1,place.2.against free apart⟩
  | processLock => exact buffers.trans place
  | processEmpty => exact absurd place.2 unlocked
  | processStore => exact absurd place.2.2 unlocked
  | processUnlock => exact absurd place unlocked
  | disconnect return_ | registerDisconnect return_ =>
    cases return_ with
    | outside => trivial
    | handleError caller => exact Locked.against place free apart
  | _ => trivial

theorem Inv.moved (valid : Inv s holder) (at_ : next.position = Function.update s.position t position)
    (holds : Holds position ↔ turn = some t) (others : ∀ u, u ≠ t → (turn = some u ↔ holder = some u))
    (place : Place next t position) (frame : ∀ u, u ≠ t → Place s u (s.position u) → Place next u (s.position u))
    (alone : turn ≠ none → next.outstanding = [])
    (idle : next.sendRegistered = false → turn = none ∧ next.outstanding = [])
    (single : next.outstanding.length ≤ 1) (kept : ∀ wsaBufs ∈ next.outstanding, wsaBufs = next.sendBuffers)
    (cleared : turn = none → next.outstanding = [] → next.sendBuffers = [])
    (order : next.given.flatten ++ handed next.position next.sendBuffers turn ++ next.sendQueue = next.pushed)
    (filled : ∀ wsaBufs ∈ next.given, wsaBufs ≠ []) : Inv next turn := by
  refine ⟨fun u => ?_,fun u => ?_,alone,idle,single,kept,cleared,order,filled⟩
  · rw [at_]
    by_cases same : u = t
    · subst same
      simpa using holds
    · rw [Function.update_of_ne same]
      exact (valid.holds u).trans (others u same).symm
  · rw [at_]
    by_cases same : u = t
    · subst same
      simpa using place
    · rw [Function.update_of_ne same]
      exact frame u same (valid.places u)

theorem handed_moved {position : Thread → Position Buffer} {place : Position Buffer}
    (hands : Hands place ↔ Hands (position t)) (sendBuffers : List Buffer) (holder : Option Thread) :
    handed (Function.update position t place) sendBuffers holder = handed position sendBuffers holder := by
  cases holder with
  | none => rfl
  | some u =>
    simp only [handed]
    by_cases same : u = t
    · subst same
      simp [hands]
    · simp [Function.update_of_ne same]

theorem handed_none {position : Thread → Position Buffer} {place : Position Buffer} (hands : ¬ Hands place)
    (sendBuffers : List Buffer) : handed (Function.update position t place) sendBuffers (some t) = [] := by
  simp [handed,hands]

omit [DecidableEq Thread] in
theorem Inv.unhanded (valid : Inv s (some t)) (hands : ¬ Hands (s.position t)) :
    s.given.flatten ++ s.sendQueue = s.pushed := by
  simpa [handed,hands] using valid.order

theorem Inv.walked (valid : Inv s holder) (connected owner crashed : Bool)
    (holds : Holds position ↔ Holds (s.position t)) (hands : Hands position ↔ Hands (s.position t))
    (place : Place s t position) :
    Inv ({s with connected := connected,owner := owner,crashed := crashed}.goto t position) holder := by
  refine valid.moved rfl (holds.trans (valid.holds t)) (fun _ _ => Iff.rfl) place (fun _ _ other => other)
    valid.alone valid.idle valid.single valid.kept valid.cleared ?_ valid.filled
  have order := valid.order
  rw [← handed_moved hands] at order
  exact order

theorem Inv.dropped (valid : Inv s (some t)) (sendRegistered : Bool) (sendBuffers : List Buffer)
    (cleared : sendBuffers = []) (leaves : ¬ Holds position) (hands : ¬ Hands (s.position t))
    (place : Place s t position) :
    Inv ({s with sendRegistered := sendRegistered,sendBuffers := sendBuffers}.goto t position) none := by
  have alone := valid.alone (by simp)
  refine valid.moved rfl (by simpa using leaves) (fun u apart => by simpa using Ne.symm apart) (place.quiet leaves rfl)
    (fun u apart other => other.quiet ?_ rfl) (by simp) (fun _ => ⟨rfl,alone⟩) valid.single (by simp [State.goto,alone])
    (fun _ _ => cleared) ?_ valid.filled
  · exact fun holds => apart (Option.some.inj ((valid.holds u).mp holds)).symm
  · change s.given.flatten ++ [] ++ s.sendQueue = s.pushed
    rw [List.append_nil,valid.unhanded hands]

theorem Inv.took (valid : Inv s holder) (free : s.lock = none ∨ s.lock = some t)
    (idle : s.sendRegistered = false) (sendBuffer : Buffer) :
    Inv ({s with sendQueue := s.sendQueue ++ [sendBuffer],sendRegistered := true,pushed := s.pushed ++ [sendBuffer]}.goto t
      (.registerConnected .send)) (some t) := by
  obtain ⟨none,quiet⟩ := valid.idle idle
  have cleared := valid.cleared none quiet
  subst none
  have order : s.given.flatten ++ s.sendQueue = s.pushed := by simpa [handed] using valid.order
  refine valid.moved rfl (by simp [Holds]) (fun u apart => by simpa using Ne.symm apart)
    ⟨cleared,by simp [State.goto],fun nested => by cases nested⟩
    (fun u apart other => other.free free apart rfl fun _ => by simp [State.goto]) (fun _ => quiet) (by simp [State.goto])
    valid.single valid.kept (by simp) ?_ valid.filled
  have more : s.given.flatten ++ handed (Function.update s.position t (.registerConnected .send)) s.sendBuffers (some t)
      ++ (s.sendQueue ++ [sendBuffer]) = s.pushed ++ [sendBuffer] := by
    rw [handed_none id,List.append_nil,← order,List.append_assoc]
  exact more

theorem Inv.queued (valid : Inv s holder) (free : s.lock = none ∨ s.lock = some t) (off : ¬ Holds (s.position t))
    (sendBuffer : Buffer) :
    Inv ({s with sendQueue := s.sendQueue ++ [sendBuffer],sendRegistered := true,pushed := s.pushed ++ [sendBuffer]}.goto t
      .outside) holder := by
  have hands : Hands (Position.outside : Position Buffer) ↔ Hands (s.position t) :=
    iff_of_false id fun hands => off hands.holds
  refine valid.moved rfl (by simpa [Holds] using fun mine => off ((valid.holds t).mpr mine)) (fun _ _ => Iff.rfl) trivial
    (fun u apart other => other.free free apart rfl fun _ => by simp [State.goto]) valid.alone (by simp [State.goto])
    valid.single valid.kept valid.cleared ?_ valid.filled
  have order := congrArg (· ++ [sendBuffer]) valid.order
  rw [← handed_moved hands] at order
  rw [← order]
  exact (List.append_assoc _ _ _).symm

theorem Inv.drained (valid : Inv s (some t)) (cleared : s.sendBuffers = []) (full : s.sendQueue ≠ []) (locked : Locked s t caller)
    (hands : ¬ Hands (s.position t)) :
    Inv ({s with sendQueue := [],sendBuffers := s.sendBuffers ++ s.sendQueue}.goto t (.registerGather caller))
      (some t) := by
  have alone := valid.alone (by simp)
  refine valid.moved rfl (by simp [Holds]) (fun _ _ => Iff.rfl) ⟨by simp [State.goto,full],locked⟩ ?_ valid.alone
    valid.idle valid.single (by simp [State.goto,alone]) (by simp) ?_ valid.filled
  · intro u apart other
    exact other.quiet (fun holds => apart (Option.some.inj ((valid.holds u).mp holds)).symm) rfl
  · have order := valid.unhanded hands
    simpa [handed,State.goto,Hands,cleared] using order

theorem Inv.handedOver (valid : Inv s (some t)) (hands : Hands (s.position t)) (full : s.sendBuffers ≠ [])
    (leaves : ¬ Holds position) (place : Place s t position) :
    Inv ({s with
      given := s.given ++ [s.sendBuffers]
      outstanding := s.outstanding ++ [s.sendBuffers]
      accepted := s.accepted ++ [s.sendBuffers]}.goto t position) none := by
  have alone := valid.alone (by simp)
  refine valid.moved rfl (by simpa using leaves) (fun u apart => by simpa using Ne.symm apart) (place.quiet leaves rfl)
    (fun u apart other => other.quiet ?_ rfl) (by simp) ?_ (by simp [State.goto,alone]) (by simp [State.goto,alone])
    (by simp [State.goto]) ?_ ?_
  · exact fun holds => apart (Option.some.inj ((valid.holds u).mp holds)).symm
  · intro idle
    exact absurd (valid.idle idle).1 (by simp)
  · have order := valid.order
    simp only [handed,hands,if_true] at order
    simpa [handed,State.goto] using order
  · intro wsaBufs member
    rcases List.mem_append.mp member with earlier | last
    · exact valid.filled wsaBufs earlier
    · rw [List.mem_singleton.mp last]
      exact full

theorem Inv.refused (valid : Inv s (some t)) (hands : Hands (s.position t)) (full : s.sendBuffers ≠ [])
    (stays : Holds position) (unhanded : ¬ Hands position) (place : Place s t position) :
    Inv ({s with given := s.given ++ [s.sendBuffers]}.goto t position) (some t) := by
  refine valid.moved rfl (by simpa using stays) (fun _ _ => Iff.rfl) place (fun _ _ other => other) valid.alone
    valid.idle valid.single valid.kept (by simp) ?_ ?_
  · have order := valid.order
    simp only [handed,hands,if_true] at order
    simpa [handed,State.goto,unhanded] using order
  · intro wsaBufs member
    rcases List.mem_append.mp member with earlier | last
    · exact valid.filled wsaBufs earlier
    · rw [List.mem_singleton.mp last]
      exact full

theorem Inv.completed (valid : Inv s holder) (index numOfBytes : Nat) (known : index < s.outstanding.length) :
    Inv ({s with outstanding := s.outstanding.eraseIdx index}.goto t (.processOwner numOfBytes)) (some t) := by
  have nobody : holder = none := by
    by_contra some_
    simp [valid.alone some_] at known
  have last : s.outstanding.eraseIdx index = [] := by
    have single := valid.single
    apply List.eq_nil_of_length_eq_zero
    rw [List.length_eraseIdx_of_lt known]
    omega
  subst nobody
  refine valid.moved rfl (by simp [Holds]) (fun u apart => by simpa using Ne.symm apart) trivial
    (fun u apart other => other.quiet ?_ rfl) (fun _ => last) ?_ (by simp [State.goto,last]) (by simp [State.goto,last])
    (by simp) ?_ valid.filled
  · exact fun holds => by simpa using (valid.holds u).mp holds
  · intro idle
    simp [(valid.idle idle).2] at known
  · have order := valid.order
    simpa [handed,State.goto,Hands] using order

theorem Inv.clearing (valid : Inv s (some t)) (hands : ¬ Hands (s.position t)) (stays : Holds position)
    (unhanded : ¬ Hands position) (place : ∀ next : State Thread Buffer, next.sendBuffers = [] → next.lock = s.lock →
      Place next t position) :
    Inv ({s with sendBuffers := []}.goto t position) (some t) := by
  have alone := valid.alone (by simp)
  refine valid.moved rfl (by simpa using stays) (fun _ _ => Iff.rfl) (place _ rfl rfl)
    (fun u apart other => other.quiet ?_ rfl) valid.alone valid.idle valid.single (by simp [State.goto,alone]) (by simp) ?_
    valid.filled
  · exact fun holds => apart (Option.some.inj ((valid.holds u).mp holds)).symm
  · have order := valid.unhanded hands
    simpa [handed,State.goto,unhanded] using order

theorem Inv.relocked (valid : Inv s holder) (free : s.lock = none ∨ s.lock = some t) (lock : Option Thread)
    (holds : Holds position ↔ Holds (s.position t)) (hands : Hands position ↔ Hands (s.position t))
    (place : Place ({s with lock := lock}.goto t position) t position) :
    Inv ({s with lock := lock}.goto t position) holder := by
  refine valid.moved rfl (holds.trans (valid.holds t)) (fun _ _ => Iff.rfl) place
    (fun u apart other => other.free free apart rfl id) valid.alone valid.idle valid.single valid.kept valid.cleared ?_
    valid.filled
  have order := valid.order
  rw [← handed_moved hands] at order
  exact order

theorem Moves.inv {event : Thread × Choice Buffer} (moves : Moves s holder event next turn) (valid : Inv s holder) :
    Inv next turn := by
  cases moves with
  | walked connected owner crashed holds hands place => exact valid.walked connected owner crashed holds hands place
  | dropped sendRegistered sendBuffers cleared leaves hands place =>
    exact valid.dropped sendRegistered sendBuffers cleared leaves hands place
  | took free idle sendBuffer => exact valid.took free idle sendBuffer
  | queued free off _ sendBuffer => exact valid.queued free off sendBuffer
  | drained caller cleared full locked hands => exact valid.drained cleared full locked hands
  | handedOver hands full leaves place => exact valid.handedOver hands full leaves place
  | refused _ hands full stays unhanded place => exact valid.refused hands full stays unhanded place
  | completed index numOfBytes known => exact valid.completed index numOfBytes known
  | clearing hands stays unhanded place => exact valid.clearing hands stays unhanded place
  | relocked lock free holds hands place => exact valid.relocked free lock holds hands place

variable {choice : Choice Buffer}

theorem exchange_moves (valid : Inv s holder) (return_ : Return) (at_ : s.position t = .disconnect return_) :
    ∃ turn, Moves s holder (t,choice) (exchange s t return_) turn := by
  have place := valid.places t
  rw [at_] at place
  unfold exchange
  split
  · refine ⟨holder,.walked false s.owner s.crashed ?_ ?_ ?_ (by simp)⟩ <;> cases return_
    all_goals first | exact iff_of_eq (by rw [at_]; rfl) | exact place
  · rename_i off
    refine ⟨holder,.walked s.connected s.owner s.crashed ?_ ?_ ?_ (fun on => absurd on off)⟩ <;> cases return_
    all_goals first | exact iff_of_eq (by rw [at_]; rfl) | exact place

theorem wsaSend_moves (valid : Inv s holder) {caller : Caller} {wsaBufs : List Buffer}
    (at_ : s.position t = .wsaSend caller wsaBufs) (errorCode : Option Int) :
    ∃ turn, Moves s holder (t,.wsaSend errorCode) (wsaSend s t caller wsaBufs errorCode) turn := by
  have mine : holder = some t := (valid.holds t).mp (by rw [at_]; trivial)
  have hands : Hands (s.position t) := by rw [at_]; trivial
  have place := valid.places t
  rw [at_] at place
  obtain ⟨gathered,full,locked⟩ := place
  subst mine gathered
  have whole : Moves s (some t) (t,.wsaSend errorCode) ({s with
      given := s.given ++ [s.sendBuffers]
      outstanding := s.outstanding ++ [s.sendBuffers]
      accepted := s.accepted ++ [s.sendBuffers]}.goto t (back caller)) none := by
    refine .handedOver hands full ?_ ?_ <;> cases caller
    all_goals first | exact id | exact locked rfl | trivial
  cases errorCode with
  | none => exact ⟨none,whole⟩
  | some errorCode =>
    unfold wsaSend
    dsimp only
    split
    · rename_i pending
      split
      · exact ⟨some t,.refused errorCode hands full trivial id locked pending⟩
      · exact ⟨some t,.refused errorCode hands full trivial id locked pending⟩
    · exact ⟨none,whole⟩

theorem free_parts (free : s.free t = true) : s.lock = none ∨ s.lock = some t := by simpa [State.free] using free

theorem walks (connected owner crashed : Bool) (at_ : s.position t = position) {onto : Position Buffer}
    (holds : Holds onto ↔ Holds position) (hands : Hands onto ↔ Hands position) (place : Place s t onto)
    (drains : connected = true → s.connected = true ∧ (Drains position → Drains onto)) :
    ∃ turn, Moves s holder (t,choice)
      ({s with connected := connected,owner := owner,crashed := crashed}.goto t onto) turn :=
  ⟨holder,.walked connected owner crashed (at_ ▸ holds) (at_ ▸ hands) place (at_ ▸ drains)⟩

theorem proceed_moves (valid : Inv s holder) (taken : proceed s t = some next) :
    ∃ turn, Moves s holder (t,choice) next turn := by
  have mine := (valid.holds t).mp
  have place := valid.places t
  unfold proceed at taken
  cases at_ : s.position t with
  | outside => simp [at_] at taken
  | wsaSend caller wsaBufs => simp [at_] at taken
  | sendConnected sendBuffer =>
    simp only [at_] at taken
    split at taken
    · cases taken
      exact walks s.connected s.owner s.crashed at_ Iff.rfl Iff.rfl trivial fun on => ⟨on,id⟩
    · cases sendBuffer with
      | none =>
        cases taken
        have moves := @walks _ _ _ s t holder (.sendConnected none) choice s.connected s.owner true at_ (.sendConnected none)
          Iff.rfl Iff.rfl trivial fun on => ⟨on,id⟩
        rw [State.goto,← at_,Function.update_eq_self] at moves
        exact moves
      | some sendBuffer =>
        cases taken
        exact walks s.connected s.owner s.crashed at_ Iff.rfl Iff.rfl trivial fun on => ⟨on,id⟩
  | sendPush sendBuffer =>
    simp only [at_] at taken
    split at taken
    · rename_i free
      split at taken
      · rename_i idle
        cases taken
        exact ⟨some t,.took (free_parts free) idle sendBuffer⟩
      · rename_i busy
        cases taken
        exact ⟨holder,.queued (free_parts free) (by rw [at_]; exact id) (by simpa using busy) sendBuffer⟩
    · cases taken
  | registerConnected caller =>
    have held := mine (by rw [at_]; trivial)
    subst held
    simp only [at_] at taken place
    split at taken
    · rename_i off
      cases taken
      refine ⟨none,.dropped s.sendRegistered s.sendBuffers place.1 ?_ (by rw [at_]; exact id) ?_ (by simp [off])⟩
        <;> cases caller
      all_goals first | exact id | exact place.2.2 rfl | trivial
    · cases taken
      exact walks s.connected s.owner s.crashed at_ Iff.rfl Iff.rfl place fun on => ⟨on,id⟩
  | registerOwner caller =>
    simp only [at_] at taken place
    cases taken
    exact walks s.connected true s.crashed at_ Iff.rfl Iff.rfl place fun on => ⟨on,id⟩
  | registerDrain caller =>
    have held := mine (by rw [at_]; trivial)
    subst held
    simp only [at_] at taken place
    split at taken
    · cases taken
      exact ⟨some t,.drained caller place.1 place.2.1 place.2.2 (by rw [at_]; exact id)⟩
    · cases taken
  | registerGather caller =>
    simp only [at_] at taken place
    cases taken
    exact walks s.connected s.owner s.crashed at_ Iff.rfl Iff.rfl ⟨rfl,place⟩ fun on => ⟨on,id⟩
  | failOwner caller =>
    simp only [at_] at taken place
    cases taken
    exact walks s.connected false s.crashed at_ Iff.rfl Iff.rfl place fun on => ⟨on,id⟩
  | failClear caller =>
    have held := mine (by rw [at_]; trivial)
    subst held
    simp only [at_] at taken place
    cases taken
    refine ⟨some t,.clearing (by rw [at_]; exact id) trivial id (fun next cleared lock => ⟨cleared,fun nested => ?_⟩)
      (by rw [at_]; exact id)⟩
    rw [lock]
    exact place nested
  | failStore caller =>
    have held := mine (by rw [at_]; trivial)
    subst held
    simp only [at_] at taken place
    cases taken
    refine ⟨none,.dropped false s.sendBuffers place.1 ?_ (by rw [at_]; exact id) ?_ (by rw [at_]; exact fun _ => False.elim)⟩
      <;> cases caller
    all_goals first | exact id | exact place.2 rfl | trivial
  | processOwner numOfBytes =>
    simp only [at_] at taken place
    cases taken
    exact walks s.connected false s.crashed at_ Iff.rfl Iff.rfl trivial fun on => ⟨on,id⟩
  | processClear numOfBytes =>
    have held := mine (by rw [at_]; trivial)
    subst held
    simp only [at_] at taken
    split at taken
    · rename_i zero
      cases taken
      exact ⟨none,.dropped s.sendRegistered [] rfl id (by rw [at_]; exact id) trivial
        (by rw [at_]; exact fun _ some_ => absurd zero some_)⟩
    · cases taken
      exact ⟨some t,.clearing (by rw [at_]; exact id) trivial id (fun _ cleared _ => cleared) fun _ => trivial⟩
  | processLock =>
    simp only [at_] at taken place
    split at taken
    · rename_i free
      cases taken
      exact ⟨holder,.relocked (some t) (free_parts free) (by rw [at_]; rfl) (by rw [at_]; rfl) ⟨place,rfl⟩ fun _ => trivial⟩
    · cases taken
  | processEmpty =>
    simp only [at_] at taken place
    split at taken
    · rename_i empty
      cases taken
      exact walks s.connected s.owner s.crashed at_ Iff.rfl Iff.rfl ⟨place.1,by simpa using empty,place.2⟩
        fun on => ⟨on,id⟩
    · rename_i full
      cases taken
      exact walks s.connected s.owner s.crashed at_ Iff.rfl Iff.rfl ⟨place.1,by simpa using full,fun _ => place.2⟩
        fun on => ⟨on,id⟩
  | processStore =>
    have held := mine (by rw [at_]; trivial)
    subst held
    simp only [at_] at taken place
    cases taken
    exact ⟨none,.dropped false s.sendBuffers place.1 id (by rw [at_]; exact id) place.2.2 fun _ _ => ⟨rfl,place.2.1⟩⟩
  | processUnlock =>
    simp only [at_] at taken place
    cases taken
    exact ⟨holder,.relocked none (Or.inr place) (by rw [at_]; rfl) (by rw [at_]; rfl) trivial (by rw [at_]; exact id)⟩
  | disconnect return_ =>
    simp only [at_] at taken
    cases taken
    exact exchange_moves valid return_ at_
  | registerDisconnect return_ =>
    simp only [at_] at taken place
    cases taken
    cases return_ with
    | outside => exact walks s.connected s.owner s.crashed at_ Iff.rfl Iff.rfl trivial fun on => ⟨on,id⟩
    | handleError caller => exact walks s.connected s.owner s.crashed at_ Iff.rfl Iff.rfl place fun on => ⟨on,id⟩

theorem enter_moves (at_ : s.position t = .outside) (taken : enter s t choice = some next) :
    ∃ turn, Moves s holder (t,choice) next turn := by
  cases choice with
  | send sendBuffer =>
    cases taken
    exact walks s.connected s.owner s.crashed at_ Iff.rfl Iff.rfl trivial fun on => ⟨on,False.elim⟩
  | disconnect =>
    cases taken
    exact walks s.connected s.owner s.crashed at_ Iff.rfl Iff.rfl trivial fun on => ⟨on,False.elim⟩
  | complete index numOfBytes =>
    simp only [enter] at taken
    split at taken
    · rename_i known
      cases taken
      exact ⟨some t,.completed index numOfBytes known⟩
    · cases taken
  | wsaSend errorCode => cases taken
  | go => cases taken

theorem step_moves (valid : Inv s holder) {event : Thread × Choice Buffer} (taken : step s event = some next) :
    ∃ turn, Moves s holder event next turn := by
  obtain ⟨t,choice⟩ := event
  unfold step at taken
  split at taken
  · cases taken
  · dsimp only at taken
    split at taken
    · rename_i at_
      exact enter_moves at_ taken
    · rename_i at_
      cases taken
      exact wsaSend_moves valid at_ _
    · exact proceed_moves valid taken
    · cases taken

omit [DecidableEq Thread] in
theorem start_inv : Inv (State.start : State Thread Buffer) none where
  holds := fun t => iff_of_false id (by simp)
  places := fun _ => trivial
  alone := fun some_ => absurd rfl some_
  idle := fun _ => ⟨rfl,rfl⟩
  single := Nat.zero_le _
  kept := fun _ member => by cases member
  cleared := fun _ _ => rfl
  order := rfl
  filled := fun _ member => by cases member

def Ordered (s : State Thread Buffer) : Prop := ∃ holder, Inv s holder

theorem step_ordered (s : State Thread Buffer) (event : Thread × Choice Buffer) (next : State Thread Buffer)
    (ordered : Ordered s) (taken : step s event = some next) : Ordered next := by
  obtain ⟨holder,valid⟩ := ordered
  obtain ⟨turn,moves⟩ := step_moves valid taken
  exact ⟨turn,moves.inv valid⟩

theorem runs_ordered (path : Runs (Enabled step) (State.start : State Thread Buffer) events s) : Ordered s :=
  path.invariant step_ordered ⟨none,start_inv⟩

-- One send of the session at a time, each of a fresh stretch of what was pushed.
structure SingleFlight (s : State Thread Buffer) : Prop where
  one : s.outstanding.length ≤ 1
  apart : ∀ t, Prepares (s.position t) → s.outstanding = [] ∧ ∀ u, Prepares (s.position u) → u = t
  unchanged : ∀ wsaBufs ∈ s.outstanding, s.sendBuffers = wsaBufs
  filled : ∀ wsaBufs ∈ s.given, wsaBufs ≠ []
  ordered : s.given.flatten <+: s.pushed

omit [DecidableEq Thread] in
theorem Prepares.holds (prepares : Prepares position) : Holds position := by
  cases position <;> trivial

theorem single_flight (path : Runs (Enabled step) (State.start : State Thread Buffer) events s) : SingleFlight s := by
  obtain ⟨holder,valid⟩ := runs_ordered path
  refine ⟨valid.single,fun t prepares => ?_,fun wsaBufs member => (valid.kept wsaBufs member).symm,valid.filled,?_⟩
  · have mine := (valid.holds t).mp prepares.holds
    refine ⟨valid.alone (by simp [mine]),fun u other => ?_⟩
    have same := (valid.holds u).mp other.holds
    exact Option.some.inj (same.symm.trans mine)
  · exact ⟨_,by rw [← List.append_assoc]; exact valid.order⟩

-- A completion is handled by the second thread while the first pushes again.
theorem single_flight_pair : ∃ events s, Runs (Enabled step) (State.start : State Bool Nat) events s ∧
    s.given = [[7],[8]] ∧ s.outstanding = [[8]] ∧ SingleFlight s := by
  have path : Runs (Enabled step) (State.start : State Bool Nat) _ _ := @execute_runs _ _ _
    [(false,.send (some 7)),(false,.go),(false,.go),(false,.go),(false,.go),(false,.go),(false,.go),
      (false,.wsaSend (some wsaIoPending)),(true,.complete 0 1),(true,.go),(false,.send (some 8)),(false,.go),(false,.go),
      (true,.go),(true,.go),(true,.go),(true,.go),(true,.go),(true,.go),(true,.go),(true,.wsaSend none)] _ _ rfl
  exact ⟨_,_,path,rfl,rfl,single_flight path⟩

end IocpChatServer.ServerCore.SessionSend
