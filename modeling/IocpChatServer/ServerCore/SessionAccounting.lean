import IocpChatServer.ServerCore.EventOwnership

namespace IocpChatServer.ServerCore.SessionLife
open Foundations TransitionSystem SessionSend
variable {Thread Buffer : Type _} [DecidableEq Thread]

-- All that happens to a session, once each and in this order.
def lifetime : List Milestone := [.added,.disconnectEx,.onDisconnected]

def reached : Place → List Milestone
  | .releaseSession => lifetime
  | _ => [.added,.disconnectEx]

def Young (s : Life Thread Buffer) : Prop := s.connecting = true ∨ ∃ t, Early (s.place t)

-- The history of a session and its membership, by where the right to disconnect is.
structure Accounted (s : Life Thread Buffer) (listed : Prop) : Prop where
  young : Young s → s.history = [] ∧ ¬ listed ∧ (∀ t, s.send.position t = .outside) ∧ s.send.outstanding = []
  connected : s.send.connected = true → Young s ∨ s.history = [.added] ∧ listed
  registering : ∀ t, Registers (s.send.position t) → s.history = [.added] ∧ listed
  posted : 0 < s.disconnectOutstanding → s.history = [.added,.disconnectEx] ∧ listed
  processing : ∀ t, Disconnected (s.place t) → s.history = reached (s.place t) ∧ listed
  whole : s.history <+: lifetime

-- No other thread has a reference to a session that is not yet added.
def Patient (s : Life Thread Buffer) : Choice Buffer → Prop
  | .send (.send _) | .send .disconnect => Milestone.added ∈ s.history
  | _ => True

instance (s : Life Thread Buffer) : (choice : Choice Buffer) → Decidable (Patient s choice)
  | .send (.send _) | .send .disconnect => inferInstanceAs (Decidable (Milestone.added ∈ s.history))
  | .send (.complete _ _) | .send (.wsaSend _) | .send .go => .isTrue trivial
  | .connect _ | .completeRecv _ | .completeDisconnect | .wsaRecv _ | .disconnectEx _ | .onRecv _ | .go => .isTrue trivial

def Effect.listed (listed : Prop) : Effect → Prop
  | .addSession => True
  | .releaseSession => False
  | .none | .nullOwner => listed

variable {s next : Life Thread Buffer} {t : Thread} {place : Place} {choice : Choice Buffer} {effect : Effect} {listed : Prop}

omit [DecidableEq Thread] in
theorem Receives.grown (receives : Receives s) (receiving : Receiving (s.place t)) (late : ¬ Early (s.place t)) : ¬ Young s := by
  intro either
  rcases either with pending | ⟨u,early⟩
  · exact receives.token.alone t receiving (.inl pending)
  · exact late (receives.token.one u t early.receiving receiving ▸ early)

omit [DecidableEq Thread] in
theorem Receives.leaves (receives : Receives s) (turns : Turns s t next) (connecting : next.connecting = s.connecting)
    (receiving : Receiving (s.place t)) (late : ¬ Early (next.place t)) : ¬ Young next := by
  intro either
  rcases either with pending | ⟨u,early⟩
  · exact receives.token.alone t receiving (.inl (connecting ▸ pending))
  · obtain ⟨apart,early,_⟩ := turns.placed late early
    exact apart (receives.token.one u t early.receiving receiving)

omit [DecidableEq Thread] in
theorem young_moved (turns : Turns s t next) (connecting : next.connecting = s.connecting) (late : ¬ Early (next.place t))
    (young : Young next) : Young s := by
  rcases young with pending | ⟨u,early⟩
  · exact .inl (connecting ▸ pending)
  · exact .inr ⟨u,(turns.placed late early).2.1⟩

theorem Accounted.untouched (accounted : Accounted s listed) (young : Young s) {choice : SessionSend.Choice Buffer}
    {send : SessionSend.State Thread Buffer} (patient : Patient s (.send choice)) (taken : SessionSend.step s.send (t,choice) = some send) :
    False := by
  obtain ⟨history,_,outside,outstanding⟩ := accounted.young young
  simp only [SessionSend.step,outside t] at taken
  split at taken
  · cases taken
  · cases choice with
    | send | disconnect =>
      have added : Milestone.added ∈ s.history := patient
      simp [history] at added
    | complete => simp [enter,outstanding] at taken
    | wsaSend | go => cases taken

omit [DecidableEq Thread] in
theorem Accounted.frame (accounted : Accounted s listed) (history : next.history = s.history)
    (young : Young next → Young s ∧ next.send = s.send)
    (connected : next.send.connected = true → s.send.connected = true ∧ (Young s → Young next))
    (registers : ∀ u, Registers (next.send.position u) → Registers (s.send.position u))
    (posted : 0 < next.disconnectOutstanding → 0 < s.disconnectOutstanding)
    (gone : ∀ u, Disconnected (next.place u) → Disconnected (s.place u) ∧ reached (next.place u) = reached (s.place u)) :
    Accounted next listed where
  young more := by
    obtain ⟨young,same⟩ := young more
    rw [history,same]
    exact accounted.young young
  connected on := by
    obtain ⟨on,stays⟩ := connected on
    rw [history]
    exact (accounted.connected on).imp_left stays
  registering u at_ := by
    rw [history]
    exact accounted.registering u (registers u at_)
  posted pending := by
    rw [history]
    exact accounted.posted (posted pending)
  processing u there := by
    obtain ⟨before,same⟩ := gone u there
    rw [history,same]
    exact accounted.processing u before
  whole := by
    rw [history]
    exact accounted.whole

omit [DecidableEq Thread] in
theorem gone_stays (turns : Turns s t next) (stays : ¬ Disconnected (next.place t)) (u : Thread) (there : Disconnected (next.place u)) :
    Disconnected (s.place u) ∧ reached (next.place u) = reached (s.place u) := by
  obtain ⟨_,before,same⟩ := turns.placed stays there
  exact ⟨before,congrArg reached same⟩

omit [DecidableEq Thread] in
theorem Accounted.walked (accounted : Accounted s listed) (turns : Turns s t next) (history : next.history = s.history)
    (send : next.send = s.send) (outstanding : next.disconnectOutstanding = s.disconnectOutstanding)
    (connecting : next.connecting = s.connecting) (late : ¬ Early (next.place t)) (lateBefore : ¬ Early (s.place t))
    (stays : ¬ Disconnected (next.place t)) : Accounted next listed := by
  refine accounted.frame history (fun young => ⟨young_moved turns connecting late young,send⟩) (fun on => ⟨send ▸ on,?_⟩)
    (fun u at_ => send ▸ at_) (fun pending => outstanding ▸ pending) (gone_stays turns stays)
  intro young
  rcases young with pending | ⟨u,early⟩
  · exact .inl (connecting.trans pending)
  · refine .inr ⟨u,?_⟩
    rw [turns.places u fun same => lateBefore (same ▸ early)]
    exact early

omit [DecidableEq Thread] in
theorem Accounted.grown (accounted : Accounted s listed) (some_ : s.history ≠ []) : ¬ Young s :=
  fun young => some_ (accounted.young young).1

theorem Does.keeps_accounted (does : Does s t choice effect next) (sound : Sound s) (accounted : Accounted s listed)
    (patient : Patient s choice) : (effect = .releaseSession → listed) ∧ Accounted next (effect.listed listed) := by
  have turns := does.turns
  have receives := sound.receives
  have disconnects := sound.disconnects
  cases does with
  | sendsNull | recvNull | disconnectNull => exact ⟨by simp,accounted⟩
  | @sends choice send off taken =>
    have grown : ¬ Young s := fun young => accounted.untouched young patient taken
    have counted (on : s.send.connected = true) : s.history = [.added] ∧ listed := (accounted.connected on).resolve_left grown
    obtain ⟨position,leads⟩ := step_leads taken
    refine ⟨by simp,fun young => absurd young grown,fun on => .inr (counted (leads.connected on)),fun u at_ => ?_,accounted.posted,
      accounted.processing,accounted.whole⟩
    by_cases same : u = t
    · subst same
      have at_ : Registers position := by simpa [leads.moves] using at_
      exact counted (leads.falls at_).1
    · have at_ : Registers (s.send.position u) := by simpa [leads.moves,same] using at_
      exact accounted.registering u at_
  | registers | refused =>
    exact ⟨by simp,accounted.frame rfl (fun young => ⟨young,rfl⟩) (fun on => ⟨on,id⟩) (fun _ at_ => at_) id fun _ there => ⟨there,rfl⟩⟩
  | @abandoned return_ at_ stage =>
    obtain ⟨history,_⟩ := accounted.registering t (by rw [at_]; trivial)
    have grown := accounted.grown (by simp [history])
    refine ⟨by simp,accounted.frame rfl (fun young => absurd young grown) (fun on => ⟨on,id⟩) (fun u there => ?_) id
      fun _ there => ⟨there,rfl⟩⟩
    exact (turns.positioned (by simpa [Life.setStage,State.goto] using after_registers return_) there).2
  | @posted return_ errorCode at_ stage =>
    have ends : Ends s t := .inl (by rw [at_]; trivial)
    obtain ⟨history,member⟩ := accounted.registering t (by rw [at_]; trivial)
    obtain ⟨connected,outstanding,_⟩ := disconnects.alone ends
    have grown := accounted.grown (by simp [history])
    refine ⟨by simp,fun young => absurd young grown,fun on => ?_,fun u there => ?_,fun _ => ⟨?_,member⟩,fun u there => ?_,?_⟩
    · exact absurd (connected.symm.trans on) (by simp)
    · obtain ⟨apart,there⟩ := turns.positioned (by simpa [Life.setStage,State.goto] using after_registers return_) there
      exact absurd (disconnects.token.one u t (.inl there) ends) apart
    · simp [Life.setStage,history]
    · have there : Disconnected (s.place u) := there
      exact absurd (by rw [at_]; trivial) (disconnects.deserted there t)
    · exact ⟨[.onDisconnected],by simp [Life.setStage,history,lifetime]⟩
  | @connects failed free pending =>
    refine ⟨by simp,accounted.frame rfl (fun _ => ⟨.inl pending,rfl⟩) (fun on => ⟨on,fun _ => .inr ⟨t,by simp [Life.goto,Early]⟩⟩)
      (fun _ at_ => at_) id (gone_stays turns (by simp [Life.goto,Disconnected]))⟩
  | recvCompleted free =>
    exact ⟨by simp,accounted.walked turns rfl rfl rfl rfl (by simp [Life.goto,Early]) (by rw [free]; exact id) (by simp [Life.goto,Disconnected])⟩
  | disconnectCompleted free pending set =>
    have lies : Lies s := .inr (.inl pending)
    obtain ⟨history,member⟩ := accounted.posted pending
    have grown := accounted.grown (by simp [history])
    have single := disconnects.single
    refine ⟨by simp,fun young => ?_,fun on => ?_,fun u at_ => ?_,fun more => ?_,fun u there => ?_,accounted.whole⟩
    · exact absurd (young_moved turns rfl (by simp [Life.goto,Early]) young) grown
    · exact absurd (disconnects.connected on).1 (Nat.ne_of_gt pending)
    · exact absurd lies (disconnects.token.alone u (.inl at_))
    · have more : 0 < s.disconnectOutstanding - 1 := more
      omega
    · by_cases same : u = t
      · subst same
        exact ⟨by simpa [Life.goto,reached] using history,member⟩
      · rw [turns.places u same] at there
        exact absurd lies (disconnects.token.alone u (.inr there))
  | connectFailed idle at_ =>
    obtain ⟨_,_,outside,_⟩ := accounted.young (.inr ⟨t,by rw [at_]; trivial⟩)
    have grown := receives.leaves turns rfl (by rw [at_]; trivial) (by simp [Life.goto,Early])
    refine ⟨by simp,accounted.frame rfl (fun young => absurd young grown) (fun on => by cases on) (fun u there => ?_) id
      (gone_stays turns (by simp [Life.goto,Disconnected]))⟩
    exact (turns.positioned (by simp [Life.goto,Life.disconnect,State.goto,Registers]) there).2
  | connected idle at_ =>
    have young : Young s := .inr ⟨t,by rw [at_]; trivial⟩
    refine ⟨by simp,fun _ => accounted.young young,fun _ => .inl (.inr ⟨t,by simp [Life.goto,Early]⟩),accounted.registering,accounted.posted,
      fun u there => ?_,accounted.whole⟩
    obtain ⟨_,before,same⟩ := turns.placed (by simp [Life.goto,Disconnected]) there
    exact same ▸ accounted.processing u before
  | added idle at_ =>
    obtain ⟨history,_,outside,_⟩ := accounted.young (.inr ⟨t,by rw [at_]; trivial⟩)
    have grown := receives.leaves turns rfl (by rw [at_]; trivial) (by simp [Life.goto,Early])
    have new : ({s with history := s.history ++ [Milestone.added]}.goto t .onConnected).history = [.added] := by
      simp [Life.goto,history]
    refine ⟨by simp,fun young => absurd young grown,fun _ => .inr ⟨new,trivial⟩,fun u there => ?_,fun pending => ?_,fun u there => ?_,?_⟩
    · have there : Registers (s.send.position u) := there
      rw [outside u] at there
      exact absurd there id
    · exact absurd (history.symm.trans (accounted.posted pending).1) (by simp)
    · obtain ⟨_,before,_⟩ := turns.placed (by simp [Life.goto,Disconnected]) there
      have reached := history.symm.trans (accounted.processing u before).1
      cases place : s.place u <;> simp [place,SessionLife.reached,lifetime] at reached
    · rw [new]
      exact ⟨[.disconnectEx,.onDisconnected],rfl⟩
  | walks place receiving late goes lateToo =>
    exact ⟨by simp,accounted.walked turns rfl rfl rfl rfl (by simpa [Life.goto] using lateToo) late
      (by simpa [Life.goto] using fun gone : Disconnected place => gone.notReceiving goes)⟩
  | @calls place _ idle receiving late recvOwner to_ =>
    have grown := receives.grown receiving late
    have away : ¬ Early place ∧ ¬ Disconnected place := by
      rcases to_ with rfl | ⟨rfl,_⟩ <;> exact ⟨id,id⟩
    have grownToo := receives.leaves turns rfl receiving (by simpa [Life.goto] using away.1)
    refine ⟨by simp,accounted.frame rfl (fun young => absurd young grownToo) (fun on => ⟨on,fun young => absurd young grown⟩)
      (fun u there => ?_) id (gone_stays turns (by simpa [Life.goto] using away.2))⟩
    exact (turns.positioned (by simp [Life.goto,Life.disconnect,State.goto,Registers]) there).2
  | recvRefused at_ | recvPosted at_ =>
    exact ⟨by simp,accounted.walked turns rfl rfl rfl rfl (by simp [Life.goto,Early]) (by rw [at_]; exact id) (by simp [Life.goto,Disconnected])⟩
  | handled _ at_ =>
    exact ⟨by simp,accounted.walked turns rfl rfl rfl rfl (by simp [Life.goto,Early]) (by rw [at_]; exact id) (by simp [Life.goto,Disconnected])⟩
  | leaves _ recvOwner at_ =>
    have late : ¬ Early (s.place t) := by
      rcases at_ with ⟨at_,_⟩ | at_ | at_ <;> rw [at_] <;> exact id
    exact ⟨by simp,accounted.walked turns rfl rfl rfl rfl (by simp [Life.goto,Early]) late (by simp [Life.goto,Disconnected])⟩
  | disconnects at_ =>
    obtain ⟨history,_⟩ := accounted.processing t (by rw [at_]; trivial)
    have grown := accounted.grown (by simp [history,at_,reached])
    refine ⟨by simp,accounted.frame rfl (fun young => ⟨young_moved turns rfl (by simp [Life.goto,Early]) young,rfl⟩)
      (fun on => ⟨on,fun young => absurd young grown⟩) (fun _ there => there) id fun u there => ?_⟩
    by_cases same : u = t
    · subst same
      exact ⟨by rw [at_]; trivial,by simp [Life.goto,at_,reached]⟩
    · rw [turns.places u same] at there ⊢
      exact ⟨there,rfl⟩
  | onDisconnected at_ =>
    have gone : Disconnected (s.place t) := by rw [at_]; trivial
    obtain ⟨history,member⟩ := accounted.processing t gone
    obtain ⟨connected,outstanding,_⟩ := disconnects.alone (.inr gone)
    have grown := accounted.grown (by simp [history,at_,reached])
    have whole : ({s with history := s.history ++ [Milestone.onDisconnected]}.goto t .releaseSession).history = lifetime := by
      simp [Life.goto,history,at_,reached,lifetime]
    refine ⟨by simp,fun young => absurd (young_moved turns rfl (by simp [Life.goto,Early]) young) grown,fun on => ?_,
      fun u there => absurd there (disconnects.deserted gone u),fun pending => absurd outstanding (Nat.ne_of_gt pending),fun u there => ?_,?_⟩
    · exact absurd (connected.symm.trans on) (by simp)
    · by_cases same : u = t
      · subst same
        exact ⟨by rw [whole]; simp [Life.goto,reached],member⟩
      · rw [turns.places u same] at there
        exact absurd (disconnects.token.one u t (.inr there) (.inr gone)) same
    · rw [whole]
  | released at_ =>
    have gone : Disconnected (s.place t) := by rw [at_]; trivial
    obtain ⟨history,member⟩ := accounted.processing t gone
    obtain ⟨connected,outstanding,_⟩ := disconnects.alone (.inr gone)
    have grown := accounted.grown (by simp [history,at_,reached,lifetime])
    refine ⟨fun _ => member,fun young => absurd (young_moved turns rfl (by simp [Life.goto,Early]) young) grown,fun on => ?_,
      fun u there => absurd there (disconnects.deserted gone u),fun pending => absurd outstanding (Nat.ne_of_gt pending),fun u there => ?_,
      accounted.whole⟩
    · exact absurd (connected.symm.trans on) (by simp)
    · obtain ⟨apart,before,_⟩ := turns.placed (by simp [Life.goto,Disconnected]) there
      exact absurd (disconnects.token.one u t (.inr before) (.inr gone)) apart

namespace Service
variable {Session : Type _} [DecidableEq Session] {service : Service Session Thread Buffer}
  {events : List (Session × Thread × Choice Buffer)}

def Patient (s : Service Session Thread Buffer) (event : Session × Thread × Choice Buffer) : Prop :=
  SessionLife.Patient (s.session event.1) event.2.2

instance (s : Service Session Thread Buffer) (event : Session × Thread × Choice Buffer) : Decidable (s.Patient event) :=
  inferInstanceAs (Decidable (SessionLife.Patient _ _))

structure Accounts (s : Service Session Thread Buffer) : Prop where
  sound : ∀ session, Sound (s.session session)
  accounted : ∀ session, Accounted (s.session session) (session ∈ s.sessions)
  count : s.sessionCount = s.sessions.card
  running : s.crashed = none

theorem step_accounts (s : Service Session Thread Buffer) (event : Session × Thread × Choice Buffer)
    (next : Service Session Thread Buffer) (accounts : Accounts s) (taken : Guarded (Enabled step) Patient s event next) :
    Accounts next := by
  obtain ⟨session,t,choice⟩ := event
  obtain ⟨taken,patient⟩ := taken
  obtain ⟨_,serves⟩ := step_serves taken
  have sound := serves.each (fun _ _ does => does.keeps (accounts.sound session)) accounts.sound
  have mine := accounts.accounted session
  have others (life : Life Thread Buffer) (other : Session) (apart : other ≠ session) :
      Function.update s.session session life other = s.session other := Function.update_of_ne apart life s.session
  cases serves with
  | @moved life does =>
    obtain ⟨_,kept⟩ := does.keeps_accounted (accounts.sound session) mine patient
    refine ⟨sound,fun other => ?_,accounts.count,accounts.running⟩
    by_cases same : other = session
    · subst same
      simpa [Effect.listed] using kept
    · simpa only [others life other same] using accounts.accounted other
  | @added life does =>
    obtain ⟨_,kept⟩ := does.keeps_accounted (accounts.sound session) mine patient
    have new : session ∉ s.sessions := by
      cases does with
      | added _ at_ => exact (mine.young (.inr ⟨t,by rw [at_]; trivial⟩)).2.1
    refine ⟨sound,fun other => ?_,?_,accounts.running⟩
    · by_cases same : other = session
      · subst same
        simpa [Effect.listed] using kept
      · simpa only [others life other same,Finset.mem_insert,same,false_or] using accounts.accounted other
    · have count := accounts.count
      simp only [Finset.card_insert_of_notMem new]
      omega
  | @released life does member =>
    obtain ⟨_,kept⟩ := does.keeps_accounted (accounts.sound session) mine patient
    refine ⟨sound,fun other => ?_,?_,accounts.running⟩
    · by_cases same : other = session
      · subst same
        simpa [Effect.listed] using kept
      · simpa only [others life other same,Finset.mem_erase,ne_eq,same,not_false_eq_true,true_and] using accounts.accounted other
    · have count := accounts.count
      have positive := Finset.card_pos.mpr ⟨_,member⟩
      simp only [Finset.card_erase_of_mem member]
      omega
  | asserted does gone =>
    obtain ⟨member,_⟩ := does.keeps_accounted (accounts.sound session) mine patient
    exact absurd (member rfl) gone
  | null does => exact absurd rfl (does.owned (accounts.sound session))

omit [DecidableEq Thread] [DecidableEq Session] in
theorem start_accounts : Accounts (start : Service Session Thread Buffer) where
  sound _ := start_life
  accounted _ := by
    refine ⟨fun _ => ⟨rfl,by simp [start],fun _ => rfl,rfl⟩,fun on => ?_,fun _ on => absurd on id,fun pending => ?_,
      fun _ on => absurd on id,List.nil_prefix⟩
    · cases on
    · exact absurd pending (Nat.lt_irrefl 0)
  count := rfl
  running := rfl

-- Whatever the order of the completions, sends and disconnects: DisconnectEx is posted at most
-- once for a session, OnDisconnected runs at most once and after AddSession, the assertion in
-- ReleaseSession holds and the count of the sessions is right.
theorem lifecycle_accounted (path : Runs (Guarded (Enabled step) Patient) (start : Service Session Thread Buffer) events service) :
    (∀ session, (service.session session).history <+: lifetime) ∧ service.crashed ≠ some .releaseAssert ∧
      service.sessionCount = service.sessions.card := by
  have accounts := path.invariant step_accounts start_accounts
  exact ⟨fun session => (accounts.accounted session).whole,by simp [accounts.running],accounts.count⟩

-- While one thread handles the connect, another one disconnects the session, and its
-- ProcessDisconnect runs before the recv is registered.
def hasty : List (Unit × Bool × Choice Nat) :=
  [((),false,.connect false),((),false,.go),((),false,.go),((),true,.send .disconnect),((),true,.send .go),((),true,.send .go),
    ((),true,.disconnectEx none),((),true,.completeDisconnect),((),true,.go),((),true,.go),((),true,.go),((),false,.go),((),false,.go)]

theorem lifecycle_accounted_hasty : ∃ service,
    Runs (Guarded (Enabled step) Patient) (start : Service Unit Bool Nat) hasty service ∧
      (service.session ()).history = lifetime ∧ service.sessions = ∅ ∧ service.sessionCount = service.sessions.card := by
  have path : Runs (Guarded (Enabled step) Patient) (start : Service Unit Bool Nat) hasty _ := guard_runs rfl
  exact ⟨_,path,rfl,rfl,(lifecycle_accounted path).2.2⟩

end Service
end IocpChatServer.ServerCore.SessionLife
