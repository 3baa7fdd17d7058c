import IocpChatServer.ServerCore.SessionAccounting

namespace IocpChatServer.ServerCore.SessionLife
open Foundations TransitionSystem SessionSend
variable {Thread Buffer : Type _} [DecidableEq Thread]

def InDisconnect : SessionSend.Position Buffer → Prop
  | .disconnect _ | .registerDisconnect _ => True
  | _ => False

-- Something is left that will read from the session or remove it: a recv outstanding, a thread
-- in ProcessConnect, ProcessRecv, ProcessDisconnect or Disconnect, or a DisconnectEx outstanding.
def Attended (s : Life Thread Buffer) : Prop := 0 < s.recvOutstanding ∨ (∃ t, s.place t ≠ .outside) ∨
  (∃ t, InDisconnect (s.send.position t)) ∨ 0 < s.disconnectOutstanding

def Busy (s : Life Thread Buffer) : Prop := (∃ t, Ends s t) ∨ 0 < s.disconnectOutstanding

-- While the session is connected its recvs go on, and a member of `_sessions` is connected or
-- on its way out.
structure Kept (s : Life Thread Buffer) (listed : Prop) : Prop where
  reads : s.send.connected = true → 0 < s.recvOutstanding ∨ ∃ t, Receiving (s.place t)
  member : listed → s.send.connected = true ∨ Busy s
  connecting : s.connecting = true → ¬ listed
  early : ∀ t, Early (s.place t) → ¬ listed
  adding : ∀ t, s.place t = .addSession → s.send.connected = true ∨ Busy s
  failing : ∀ t, s.place t = .recvFailOwner → s.send.connected = false
  calling : ∀ t, s.place t = .recvError ∨ s.place t = .disconnecting →
    s.send.connected = false ∨ s.send.position t = .disconnect .outside
  accepted : ∀ t, s.stage t ≠ .failOwner

-- A connected session's WSARecv fails at once only with an error that HandleError disconnects
-- for, and DisconnectEx does not fail at once.
def Heeded (s : Life Thread Buffer) : Choice Buffer → Prop
  | .wsaRecv errorCode => failsAtOnce errorCode = true → resets errorCode = true ∨ s.send.connected = false
  | .disconnectEx errorCode => failsAtOnce errorCode = false
  | _ => True

instance (s : Life Thread Buffer) : (choice : Choice Buffer) → Decidable (Heeded s choice)
  | .wsaRecv errorCode =>
    inferInstanceAs (Decidable (failsAtOnce errorCode = true → resets errorCode = true ∨ s.send.connected = false))
  | .disconnectEx errorCode => inferInstanceAs (Decidable (failsAtOnce errorCode = false))
  | .send _ | .connect _ | .completeRecv _ | .completeDisconnect | .onRecv _ | .go => .isTrue trivial

variable {s next : Life Thread Buffer} {t : Thread} {place : Place} {choice : Choice Buffer} {effect : Effect} {listed : Prop}

theorem exchange_falls {send : SessionSend.State Thread Buffer} (return_ : Return) : (exchange send t return_).connected = false := by
  unfold exchange
  split
  · rfl
  · rename_i off
    simpa [State.goto] using off

theorem disconnect_falls {send next : SessionSend.State Thread Buffer} {choice : SessionSend.Choice Buffer} {return_ : Return}
    (at_ : send.position t = .disconnect return_) (taken : SessionSend.step send (t,choice) = some next) : next.connected = false := by
  simp only [SessionSend.step,at_] at taken
  split at taken
  · cases taken
  · cases choice with
    | go =>
      simp only [proceed,at_] at taken
      cases taken
      exact exchange_falls return_
    | send | disconnect | complete | wsaSend => cases taken

omit [DecidableEq Thread] in
theorem Busy.moved (busy : Busy s) (turns : Turns s t next) (mine : Ends s t → Busy next)
    (outstanding : 0 < s.disconnectOutstanding → Busy next) : Busy next := by
  rcases busy with ⟨u,ends⟩ | pending
  · by_cases same : u = t
    · subst same
      exact mine ends
    · refine .inl ⟨u,?_⟩
      unfold Ends at ends ⊢
      rwa [turns.positions u same,turns.places u same]
  · exact outstanding pending

omit [DecidableEq Thread] in
theorem reads_moved (reads : 0 < s.recvOutstanding ∨ ∃ u, Receiving (s.place u)) (turns : Turns s t next)
    (outstanding : next.recvOutstanding = s.recvOutstanding) (off : ¬ Receiving (s.place t)) :
    0 < next.recvOutstanding ∨ ∃ u, Receiving (next.place u) := by
  rw [outstanding]
  refine reads.imp_right fun ⟨u,receiving⟩ => ⟨u,?_⟩
  rw [turns.places u fun same => off (same ▸ receiving)]
  exact receiving

theorem Kept.moved (kept : Kept s listed) (turns : Turns s t next)
    (reads : next.send.connected = true → 0 < next.recvOutstanding ∨ ∃ u, Receiving (next.place u))
    (still : s.send.connected = true → next.send.connected = true ∨ Busy next) (busy : Busy s → Busy next)
    (falls : ∀ u, u ≠ t → Receiving (s.place u) → next.send.connected = true → s.send.connected = true)
    (connecting : next.connecting = true → s.connecting = true) (early : Early (next.place t) → ¬ listed)
    (adding : next.place t = .addSession → next.send.connected = true ∨ Busy next)
    (failing : next.place t = .recvFailOwner → next.send.connected = false)
    (calling : next.place t = .recvError ∨ next.place t = .disconnecting →
      next.send.connected = false ∨ next.send.position t = .disconnect .outside)
    (accepted : next.stage t ≠ .failOwner) : Kept next listed := by
  have stays (either : s.send.connected = true ∨ Busy s) : next.send.connected = true ∨ Busy next :=
    either.elim still fun ends => .inr (busy ends)
  have off (u : Thread) (apart : u ≠ t) (receiving : Receiving (s.place u)) (was : s.send.connected = false) :
      next.send.connected = false := by
    by_contra on
    exact absurd (was.symm.trans (falls u apart receiving (by simpa using on))) (by simp)
  refine ⟨reads,fun member => stays (kept.member member),fun pending => kept.connecting (connecting pending),fun u there => ?_,
    fun u there => ?_,fun u there => ?_,fun u there => ?_,fun u => ?_⟩
  all_goals by_cases same : u = t
  · exact early (same ▸ there)
  · rw [turns.places u same] at there
    exact kept.early u there
  · exact adding (same ▸ there)
  · rw [turns.places u same] at there
    exact stays (kept.adding u there)
  · exact failing (same ▸ there)
  · rw [turns.places u same] at there
    exact off u same (by rw [there]; trivial) (kept.failing u there)
  · subst same
    exact calling there
  · rw [turns.places u same] at there
    rw [turns.positions u same]
    refine (kept.calling u there).imp_left (off u same ?_)
    rcases there with there | there <;> rw [there] <;> trivial
  · subst same
    exact accepted
  · rw [turns.stages u same]
    exact kept.accepted u

theorem Kept.walked (kept : Kept s listed) (turns : Turns s t next) (connected : next.send.connected = s.send.connected)
    (ends : Ends s t → Ends next t) (outstanding : next.disconnectOutstanding = s.disconnectOutstanding)
    (reads : next.send.connected = true → 0 < next.recvOutstanding ∨ ∃ u, Receiving (next.place u))
    (connecting : next.connecting = true → s.connecting = true) (late : ¬ Early (next.place t))
    (failing : next.place t = .recvFailOwner → next.send.connected = false)
    (calling : next.place t = .recvError ∨ next.place t = .disconnecting →
      next.send.connected = false ∨ next.send.position t = .disconnect .outside)
    (accepted : next.stage t ≠ .failOwner) : Kept next listed := by
  refine kept.moved turns reads (fun on => .inl (connected.trans on)) (fun busy => busy.moved turns ?_ ?_)
    (fun _ _ _ on => connected.symm.trans on) connecting (fun early => absurd early late) ?_ failing calling accepted
  · exact fun had => .inl ⟨t,ends had⟩
  · exact fun pending => .inr (outstanding.symm ▸ pending)
  · intro there
    rw [there] at late
    exact absurd trivial late

omit [DecidableEq Thread] in
theorem Ends.kept (ends : Ends s t) (off : ¬ Disconnected (s.place t))
    (registers : Registers (s.send.position t) → Registers (next.send.position t)) : Ends next t :=
  .inl (registers (ends.resolve_right off))

omit [DecidableEq Thread] in
theorem Disconnects.quiet (disconnects : Disconnects s) (fresh : Fresh s) : ¬ Busy s := by
  intro either
  rcases either with ⟨u,ends⟩ | pending
  · exact disconnects.token.alone u ends (.inr (.inr fresh))
  · exact Nat.ne_of_gt pending (disconnects.fresh fresh)

theorem Does.keeps_kept (does : Does s t choice effect next) (receives : Receives s) (disconnects : Disconnects s) (kept : Kept s listed)
    (heeded : Heeded s choice) (released : effect = .releaseSession → listed) : Kept next (effect.listed listed) := by
  have turns := does.turns
  cases does with
  | sendsNull | recvNull | disconnectNull => exact kept
  | @sends choice send off taken =>
    obtain ⟨position,leads⟩ := step_leads taken
    have mine : send.position t = position := by rw [leads.moves,Function.update_self]
    have fallen (was : s.send.connected = false) : send.connected = false := by
      by_contra on
      exact absurd (was.symm.trans (leads.connected (by simpa using on))) (by simp)
    have still (on : s.send.connected = true) : send.connected = true ∨ Busy {s with send := send} := by
      by_cases registers : Registers position
      · exact .inr (.inl ⟨t,.inl (mine ▸ registers)⟩)
      · exact .inl ((leads.stays registers).trans on)
    have busy (was : Busy s) : Busy {s with send := send} :=
      was.moved turns (fun ends => .inl ⟨t,.inr (ends.resolve_left off)⟩) .inr
    refine kept.moved turns (fun on => kept.reads (leads.connected on)) still busy (fun _ _ _ on => leads.connected on) id (kept.early t)
      (fun there => (kept.adding t there).elim still fun ends => .inr (busy ends)) (fun there => fallen (kept.failing t there))
      (fun there => ?_) (kept.accepted t)
    rcases kept.calling t there with was | at_
    · exact .inl (fallen was)
    · exact .inl (disconnect_falls at_ taken)
  | registers at_ stage =>
    exact kept.moved turns kept.reads .inl id (fun _ _ _ on => on) id (kept.early t) (kept.adding t) (kept.failing t) (kept.calling t)
      (by simp [Life.setStage])
  | refused at_ stage fails => exact absurd (fails.symm.trans heeded) (by simp)
  | abandoned at_ stage => exact absurd stage (kept.accepted t)
  | @posted return_ errorCode at_ stage =>
    refine kept.moved turns kept.reads .inl (fun _ => .inr (Nat.succ_pos _)) (fun _ _ _ on => on) id (kept.early t)
      (fun there => (kept.adding t there).imp_right fun _ => .inr (Nat.succ_pos _)) (kept.failing t) (fun there => ?_)
      (by simp [Life.setStage])
    rcases kept.calling t there with was | called
    · exact .inl was
    · cases called.symm.trans at_
  | @connects failed free pending =>
    refine kept.moved turns (fun _ => .inr ⟨t,by simp [Life.goto,Receiving]⟩) .inl (fun busy => busy.moved turns (fun ends => ?_) .inr)
      (fun _ _ _ on => on) (fun again => by cases again) (fun _ => kept.connecting pending) ?_ ?_ ?_ (kept.accepted t)
    · exact .inl ⟨t,ends.kept (by rw [free]; exact id) id⟩
    · simp [Life.goto]
    · simp [Life.goto]
    · simp [Life.goto]
  | recvCompleted free =>
    exact kept.walked turns rfl (fun ends => ends.kept (by rw [free]; exact id) id) rfl
      (fun _ => .inr ⟨t,by simp [Life.goto,Receiving]⟩) id (by simp [Life.goto,Early]) (by simp [Life.goto]) (by simp [Life.goto]) (kept.accepted t)
  | disconnectCompleted free pending set =>
    exact kept.moved turns (fun on => reads_moved (kept.reads on) turns rfl (by rw [free]; exact id)) .inl
      (fun _ => .inl ⟨t,.inr (by simp [Life.goto,Disconnected])⟩) (fun _ _ _ on => on) id (by simp [Life.goto,Early])
      (by simp [Life.goto]) (by simp [Life.goto]) (by simp [Life.goto]) (kept.accepted t)
  | connectFailed idle at_ =>
    have fresh : Fresh s := .inr ⟨t,true,at_⟩
    exact kept.moved turns (fun on => by cases on) (fun on => absurd fresh (disconnects.connected on).2)
      (fun busy => absurd busy (disconnects.quiet fresh)) (fun _ _ _ on => by cases on) id (by simp [Life.goto,Early])
      (by simp [Life.goto]) (by simp [Life.goto]) (fun _ => .inl rfl) (kept.accepted t)
  | connected idle at_ =>
    have fresh : Fresh s := .inr ⟨t,false,at_⟩
    refine kept.moved turns (fun _ => .inr ⟨t,by simp [Life.goto,Receiving]⟩) (fun on => absurd fresh (disconnects.connected on).2)
      (fun busy => absurd busy (disconnects.quiet fresh)) (fun u apart receiving _ => ?_) id (fun _ => kept.early t (by rw [at_]; trivial))
      (fun _ => .inl rfl) (by simp [Life.goto]) (by simp [Life.goto]) (kept.accepted t)
    exact absurd (receives.token.one u t receiving (by rw [at_]; trivial)) apart
  | added idle at_ =>
    have receiving : Receiving (s.place t) := by rw [at_]; trivial
    have ends (had : Ends s t) : Ends ({s with history := s.history ++ [Milestone.added]}.goto t .onConnected) t :=
      had.kept (fun gone => gone.notReceiving receiving) id
    have grown := receives.leaves turns rfl receiving (by simp [Life.goto,Early])
    have base : Kept ({s with history := s.history ++ [Milestone.added]}.goto t .onConnected) listed :=
      kept.walked turns rfl ends rfl (fun _ => .inr ⟨t,by simp [Life.goto,Receiving]⟩) id (by simp [Life.goto,Early]) (by simp [Life.goto])
        (by simp [Life.goto]) (kept.accepted t)
    refine ⟨base.reads,fun _ => ?_,fun pending => absurd (.inl pending) grown,fun u early => absurd (.inr ⟨u,early⟩) grown,base.adding,
      base.failing,base.calling,base.accepted⟩
    exact (kept.adding t at_).imp_right fun busy => busy.moved turns (fun had => .inl ⟨t,ends had⟩) .inr
  | walks place receiving late goes lateToo going recvOwner =>
    have mine : ({s with recvOwner := recvOwner}.goto t place).place t = place := by simp [Life.goto]
    refine kept.walked turns rfl (fun ends => ends.kept (fun gone => gone.notReceiving receiving) id) rfl
      (fun _ => .inr ⟨t,mine.symm ▸ goes⟩) id (mine.symm ▸ lateToo) (fun there => ?_) (fun there => ?_) (kept.accepted t)
    · rw [← mine,there] at going
      exact absurd trivial going
    · rcases there with there | there
      all_goals
        rw [← mine,there] at going
        exact absurd trivial going
  | @calls place _ idle receiving late recvOwner to_ =>
    have mine : (({s with recvOwner := recvOwner}.disconnect t).goto t place).place t = place := by simp [Life.goto]
    have goes : Receiving place ∧ ¬ Early place ∧ place ≠ .recvFailOwner := by
      rcases to_ with rfl | ⟨rfl,_⟩ <;> exact ⟨trivial,id,by simp⟩
    refine kept.walked turns rfl (fun ends => ?_) rfl (fun _ => .inr ⟨t,mine.symm ▸ goes.1⟩) id (mine.symm ▸ goes.2.1)
      (fun there => absurd (mine.symm.trans there) goes.2.2) (fun _ => .inr (by simp [Life.goto,Life.disconnect,State.goto])) (kept.accepted t)
    rcases ends with on | gone
    · exact absurd on (idle_registers idle)
    · exact absurd receiving gone.notReceiving
  | recvRefused at_ fails other =>
    refine kept.walked turns rfl (fun ends => ends.kept (by rw [at_]; exact id) id) rfl (fun _ => .inr ⟨t,by simp [Life.goto,Receiving]⟩) id
      (by simp [Life.goto,Early]) (fun _ => ?_) (by simp [Life.goto]) (kept.accepted t)
    exact (heeded fails).resolve_left (by simp [other])
  | handled idle at_ =>
    refine kept.walked turns rfl (fun ends => ends.kept (by rw [at_]; exact id) id) rfl (fun _ => .inr ⟨t,by simp [Life.goto,Receiving]⟩) id
      (by simp [Life.goto,Early]) (fun _ => ?_) (by simp [Life.goto]) (kept.accepted t)
    refine (kept.calling t (.inl at_)).resolve_right fun called => ?_
    cases called.symm.trans (idle_outside idle)
  | recvPosted at_ =>
    exact kept.walked turns rfl (fun ends => ends.kept (by rw [at_]; exact id) id) rfl (fun _ => .inl (Nat.succ_pos _)) id
      (by simp [Life.goto,Early]) (by simp [Life.goto]) (by simp [Life.goto]) (kept.accepted t)
  | leaves idle recvOwner at_ =>
    have off : s.send.connected = false := by
      rcases at_ with ⟨_,off⟩ | there | there
      · exact off
      · exact kept.failing t there
      · refine (kept.calling t (.inr there)).resolve_right fun called => ?_
        cases called.symm.trans (idle_outside idle)
    have receiving : Receiving (s.place t) := by
      rcases at_ with ⟨there,_⟩ | there | there <;> rw [there] <;> trivial
    exact kept.walked turns rfl (fun ends => ends.kept (fun gone => gone.notReceiving receiving) id) rfl
      (fun on => absurd (off.symm.trans on) (by simp)) id (by simp [Life.goto,Early]) (by simp [Life.goto]) (by simp [Life.goto])
      (kept.accepted t)
  | disconnects at_ | onDisconnected at_ =>
    exact kept.walked turns rfl (fun _ => .inr (by simp [Life.goto,Disconnected])) rfl
      (fun on => reads_moved (kept.reads on) turns rfl (by rw [at_]; exact id)) id (by simp [Life.goto,Early]) (by simp [Life.goto])
      (by simp [Life.goto]) (kept.accepted t)
  | released at_ =>
    have gone : Disconnected (s.place t) := by rw [at_]; trivial
    have off := (disconnects.alone (.inr gone)).1
    have others (u : Thread) (place : Place) (there : (s.goto t .outside).place u = place) (busy : place ≠ .outside) : s.place u = place := by
      by_cases same : u = t
      · subst same
        exact absurd (there.symm.trans (by simp [Life.goto])) busy
      · exact (turns.places u same).symm.trans there
    refine ⟨fun on => absurd (off.symm.trans on) (by simp),False.elim,fun _ => id,fun _ _ => id,fun u there => ?_,
      fun u there => kept.failing u (others u _ there (by simp)),fun u there => kept.calling u ?_,kept.accepted⟩
    · exact absurd (released rfl) (kept.early u (by rw [others u _ there (by simp)]; trivial))
    · exact there.imp (fun there => others u _ there (by simp)) fun there => others u _ there (by simp)

omit [DecidableEq Thread] in
theorem Kept.attended (kept : Kept s listed) (member : listed) : Attended s := by
  rcases kept.member member with on | ⟨t,at_ | gone⟩ | pending
  · rcases kept.reads on with pending | ⟨t,receiving⟩
    · exact .inl pending
    · refine .inr (.inl ⟨t,fun outside => ?_⟩)
      rw [outside] at receiving
      exact receiving
  · refine .inr (.inr (.inl ⟨t,?_⟩))
    cases position : s.send.position t with
    | registerDisconnect => trivial
    | _ =>
      rw [position] at at_
      exact absurd at_ id
  · refine .inr (.inl ⟨t,fun outside => ?_⟩)
    rw [outside] at gone
    exact gone
  · exact .inr (.inr (.inr pending))

namespace Service
variable {Session : Type _} [DecidableEq Session] {service : Service Session Thread Buffer}
  {events : List (Session × Thread × Choice Buffer)}

def Heeded (s : Service Session Thread Buffer) (event : Session × Thread × Choice Buffer) : Prop :=
  SessionLife.Heeded (s.session event.1) event.2.2

instance (s : Service Session Thread Buffer) (event : Session × Thread × Choice Buffer) : Decidable (s.Heeded event) :=
  inferInstanceAs (Decidable (SessionLife.Heeded _ _))

structure Watched (s : Service Session Thread Buffer) : Prop where
  sound : ∀ session, Sound (s.session session)
  kept : ∀ session, Kept (s.session session) (session ∈ s.sessions)

theorem step_watched (s : Service Session Thread Buffer) (event : Session × Thread × Choice Buffer)
    (next : Service Session Thread Buffer) (watched : Watched s) (taken : Guarded (Enabled step) Heeded s event next) :
    Watched next := by
  obtain ⟨session,t,choice⟩ := event
  obtain ⟨taken,heeded⟩ := taken
  obtain ⟨_,serves⟩ := step_serves taken
  obtain ⟨receives,disconnects,_⟩ := watched.sound session
  refine ⟨serves.each (fun _ _ does => does.keeps (watched.sound session)) watched.sound,fun other => ?_⟩
  cases serves with
  | @moved life does =>
    by_cases same : other = session
    · subst same
      simpa [Effect.listed] using does.keeps_kept receives disconnects (watched.kept other) heeded (by simp)
    · simpa [Function.update_of_ne same] using watched.kept other
  | @added life does =>
    by_cases same : other = session
    · subst same
      simpa [Effect.listed] using does.keeps_kept receives disconnects (watched.kept other) heeded (by simp)
    · simpa [Function.update_of_ne same,same] using watched.kept other
  | @released life does member =>
    by_cases same : other = session
    · subst same
      simpa [Effect.listed] using does.keeps_kept receives disconnects (watched.kept other) heeded fun _ => member
    · simpa [Function.update_of_ne same,same] using watched.kept other
  | asserted | null => exact watched.kept other

omit [DecidableEq Thread] [DecidableEq Session] in
theorem start_watched : Watched (start : Service Session Thread Buffer) where
  sound _ := start_life
  kept session := by
    refine ⟨fun on => ?_,fun member => ?_,fun _ => ?_,fun _ on => absurd on id,fun _ there => ?_,fun _ there => ?_,fun _ there => ?_,
      fun _ there => ?_⟩
    · cases on
    · simp [start] at member
    · simp [start]
    · cases there
    · cases there
    · rcases there with there | there <;> cases there
    · cases there

-- No session is forgotten in `_sessions` while no WSARecv of a connected session fails with an
-- error that HandleError only prints, and no DisconnectEx fails.
theorem none_forgotten (path : Runs (Guarded (Enabled step) Heeded) (start : Service Session Thread Buffer) events service) :
    ∀ session ∈ service.sessions, Attended (service.session session) := by
  have watched := path.invariant step_watched start_watched
  exact fun session member => (watched.kept session).attended member

def resetEarly : List (Unit × Bool × Choice Nat) :=
  [((),false,.connect false),((),false,.go),((),false,.go),((),false,.go),((),false,.go),((),false,.go),
    ((),false,.wsaRecv (some wsaeConnReset)),((),false,.send .go)]

theorem none_forgotten_reset : ∃ service,
    Runs (Guarded (Enabled step) Heeded) (start : Service Unit Bool Nat) resetEarly service ∧ service.sessions = {()} ∧
      (service.session ()).recvOutstanding = 0 ∧ Attended (service.session ()) := by
  have path : Runs (Guarded (Enabled step) Heeded) (start : Service Unit Bool Nat) resetEarly _ := guard_runs rfl
  exact ⟨_,path,rfl,rfl,none_forgotten path () (by decide)⟩

def wsaeNoBufs : Int := 10055

-- WSARecv fails for want of buffers: the error is printed, and the session stays as it is.
theorem forgotten_no_bufs : ¬ ∀ events service, Runs (Enabled step) (start : Service Unit Bool Nat) events service →
    ∀ session ∈ service.sessions, Attended (service.session session) := by
  intro always
  have path : Runs (Enabled step) (start : Service Unit Bool Nat) [((),false,.connect false),((),false,.go),((),false,.go),
      ((),false,.go),((),false,.go),((),false,.go),((),false,.wsaRecv (some wsaeNoBufs)),((),false,.go)] _ := execute_runs rfl
  rcases always _ _ path () (by decide) with pending | ⟨t,place⟩ | ⟨t,position⟩ | pending
  · exact absurd pending (by decide)
  · exact absurd place (by revert t; decide)
  · cases t <;> exact position
  · exact absurd pending (by decide)

end Service
end IocpChatServer.ServerCore.SessionLife
