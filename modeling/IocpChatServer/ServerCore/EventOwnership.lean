import IocpChatServer.Foundations.Token
import IocpChatServer.ServerCore.SessionLife

namespace IocpChatServer.ServerCore.SessionLife
open Foundations TransitionSystem SessionSend
variable {Thread Buffer : Type _} [DecidableEq Thread]

-- One token for the recv event: the completion that runs ProcessConnect, a thread that may
-- post a recv, or the recv that is outstanding.
structure Receives (s : Life Thread Buffer) : Prop where
  token : Exclusive (fun t => Receiving (s.place t)) (s.connecting = true ∨ 0 < s.recvOutstanding)
  single : s.connecting.toNat + s.recvOutstanding ≤ 1
  posted : 0 < s.recvOutstanding → s.recvOwner = true
  kept : ∀ t, RecvOwned (s.place t) → s.recvOwner = true

theorem RecvOwned.receiving {place : Place} (owned : RecvOwned place) : Receiving place := by
  cases place <;> trivial

theorem Early.receiving {place : Place} (early : Early place) : Receiving place := by
  cases place <;> trivial

theorem Disconnected.notReceiving {place : Place} (gone : Disconnected place) : ¬ Receiving place := by
  cases place <;> first | exact id | exact absurd gone id

variable {s next : Life Thread Buffer} {t : Thread} {place : Place} {choice : Choice Buffer} {effect : Effect}

theorem Receives.moved (receives : Receives s) (places : next.place = Function.update s.place t place)
    (takes : Receiving place → (Receiving (s.place t) ∨ s.connecting = true ∨ 0 < s.recvOutstanding) ∧
      ¬ (next.connecting = true ∨ 0 < next.recvOutstanding))
    (gives : next.connecting = true ∨ 0 < next.recvOutstanding →
      Receiving (s.place t) ∨ s.connecting = true ∨ 0 < s.recvOutstanding)
    (single : next.connecting.toNat + next.recvOutstanding ≤ 1) (posted : 0 < next.recvOutstanding → next.recvOwner = true)
    (owned : RecvOwned place → next.recvOwner = true) (owner : next.recvOwner = s.recvOwner ∨ Receiving (s.place t)) :
    Receives next := by
  have mine : next.place t = place := by rw [places,Function.update_self]
  have others (u : Thread) (apart : u ≠ t) : next.place u = s.place u := by rw [places,Function.update_of_ne apart]
  refine ⟨receives.token.moved (t := t) (fun u apart held => ?_) (fun held => takes (mine ▸ held)) gives,single,posted,fun u held => ?_⟩
  · rw [others u apart] at held
    exact held
  · by_cases same : u = t
    · subst same
      rw [mine] at held
      exact owned held
    · rw [others u same] at held
      rcases owner with still | had
      · exact still.trans (receives.kept u held)
      · exact absurd (receives.token.one u t held.receiving had) same

theorem Receives.held (receives : Receives s) (had : Receiving (s.place t)) (places : next.place = Function.update s.place t place)
    (connecting : next.connecting = s.connecting) (outstanding : next.recvOutstanding = s.recvOutstanding)
    (owned : RecvOwned place → next.recvOwner = true) : Receives next := by
  have nowhere := receives.token.alone t had
  have single := receives.single
  rw [← connecting,← outstanding] at nowhere single
  exact receives.moved places (fun _ => ⟨.inl had,nowhere⟩) (fun lies => absurd lies nowhere) single
    (fun posted => absurd (.inr posted) nowhere) owned (.inr had)

theorem Receives.off (receives : Receives s) (places : next.place = Function.update s.place t place)
    (off : ¬ Receiving place) (connecting : next.connecting = s.connecting) (outstanding : next.recvOutstanding = s.recvOutstanding)
    (owner : next.recvOwner = s.recvOwner) : Receives next := by
  refine receives.moved places (fun on => absurd on off) ?_ ?_ ?_ (fun owned => absurd owned.receiving off) (.inl owner)
  · rw [connecting,outstanding]
    exact .inr
  · rw [connecting,outstanding]
    exact receives.single
  · rw [owner,outstanding]
    exact receives.posted

omit [DecidableEq Thread] in
theorem Receives.frame (receives : Receives s) (places : next.place = s.place) (connecting : next.connecting = s.connecting)
    (outstanding : next.recvOutstanding = s.recvOutstanding) (owner : next.recvOwner = s.recvOwner) : Receives next := by
  obtain ⟨token,single,posted,kept⟩ := receives
  constructor
  · rw [places,connecting,outstanding]
    exact token
  · rw [connecting,outstanding]
    exact single
  · rw [outstanding,owner]
    exact posted
  · rw [places,owner]
    exact kept

theorem Does.keeps_receives (does : Does s t choice effect next) (receives : Receives s) : Receives next := by
  have single := receives.single
  cases does with
  | sends | sendsNull | registers | refused | abandoned | posted | recvNull | disconnectNull =>
    exact receives.frame rfl rfl rfl rfl
  | connects free pending =>
    have outstanding : s.recvOutstanding = 0 := by
      rw [pending,Bool.toNat_true] at single
      omega
    exact receives.moved rfl (fun _ => ⟨.inr (.inl pending),by simp [Life.goto,outstanding]⟩)
      (by simp [Life.goto,outstanding]) (by simp [Life.goto,outstanding]) (by simp [Life.goto,outstanding]) False.elim (.inl rfl)
  | recvCompleted free pending set =>
    have connecting : s.connecting = false := by
      cases connecting : s.connecting with
      | false => rfl
      | true =>
        rw [connecting,Bool.toNat_true] at single
        omega
    have last : s.recvOutstanding - 1 = 0 := by omega
    exact receives.moved rfl (fun _ => ⟨.inr (.inr pending),by simp [Life.goto,connecting,last]⟩)
      (by simp [Life.goto,connecting,last]) (by simp [Life.goto,connecting,last]) (by simp [Life.goto,last]) (fun _ => set) (.inl rfl)
  | disconnectCompleted => exact receives.off rfl id rfl rfl rfl
  | connectFailed _ at_ => exact receives.held (by rw [at_]; trivial) rfl rfl rfl False.elim
  | connected _ at_ => exact receives.held (by rw [at_]; trivial) rfl rfl rfl False.elim
  | added _ at_ => exact receives.held (by rw [at_]; trivial) rfl rfl rfl False.elim
  | walks place receiving _ _ _ _ recvOwner owned => exact receives.held receiving rfl rfl rfl owned
  | calls _ receiving _ recvOwner to_ =>
    refine receives.held receiving rfl rfl rfl fun owned => ?_
    rcases to_ with rfl | ⟨_,same,had⟩
    · exact absurd owned id
    · exact same.trans (receives.kept t had)
  | recvRefused at_ => exact receives.held (by rw [at_]; trivial) rfl rfl rfl fun _ => receives.kept t (by rw [at_]; trivial)
  | handled _ at_ => exact receives.held (by rw [at_]; trivial) rfl rfl rfl fun _ => receives.kept t (by rw [at_]; trivial)
  | recvPosted at_ =>
    have had : Receiving (s.place t) := by rw [at_]; trivial
    have nowhere := receives.token.alone t had
    push Not at nowhere
    refine receives.moved rfl False.elim (fun _ => .inl had) ?_ (fun _ => receives.kept t (by rw [at_]; trivial)) False.elim (.inr had)
    simp only [Life.goto,nowhere.1,Bool.toNat_false]
    omega
  | leaves _ recvOwner at_ =>
    have had : Receiving (s.place t) := by
      rcases at_ with ⟨at_,_⟩ | at_ | at_ <;> rw [at_] <;> trivial
    exact receives.held had rfl rfl rfl False.elim
  | disconnects | onDisconnected | released => exact receives.off rfl id rfl rfl rfl

def Fresh (s : Life Thread Buffer) : Prop := s.connecting = true ∨ ∃ t failed, s.place t = .connectStore failed

def Ends (s : Life Thread Buffer) (t : Thread) : Prop := Registers (s.send.position t) ∨ Disconnected (s.place t)

def Lies (s : Life Thread Buffer) : Prop := s.send.connected = true ∨ 0 < s.disconnectOutstanding ∨ Fresh s

def DisconnectOwned (s : Life Thread Buffer) (t : Thread) : Prop :=
  Registers (s.send.position t) ∧ s.stage t ≠ .owner ∨ s.place t = .processDisconnect

-- One token for the disconnect event: `_connected`, a thread in RegisterDisconnect, the
-- DisconnectEx that is outstanding, a thread in ProcessDisconnect.
structure Disconnects (s : Life Thread Buffer) : Prop where
  token : Exclusive (Ends s) (Lies s)
  apart : ∀ t, Registers (s.send.position t) → ¬ Disconnected (s.place t)
  connected : s.send.connected = true → s.disconnectOutstanding = 0 ∧ ¬ Fresh s
  fresh : Fresh s → s.disconnectOutstanding = 0
  single : s.disconnectOutstanding ≤ 1
  posted : 0 < s.disconnectOutstanding → s.disconnectOwner = true
  kept : ∀ t, DisconnectOwned s t → s.disconnectOwner = true
  staged : ∀ t, ¬ Registers (s.send.position t) → s.stage t = .owner

omit [DecidableEq Thread] in
theorem DisconnectOwned.ends (owned : DisconnectOwned s t) : Ends s t := by
  rcases owned with ⟨at_,_⟩ | at_
  · exact .inl at_
  · exact .inr (by rw [at_]; trivial)

omit [DecidableEq Thread] in
theorem Disconnects.alone (disconnects : Disconnects s) (ends : Ends s t) :
    s.send.connected = false ∧ s.disconnectOutstanding = 0 ∧ ¬ Fresh s := by
  have nowhere := disconnects.token.alone t ends
  unfold Lies at nowhere
  push Not at nowhere
  exact ⟨by simpa using nowhere.1,by omega,nowhere.2.2⟩

omit [DecidableEq Thread] in
theorem Disconnects.deserted (disconnects : Disconnects s) (gone : Disconnected (s.place t)) (u : Thread) :
    ¬ Registers (s.send.position u) := by
  intro registers
  rw [disconnects.token.one u t (.inl registers) (.inr gone)] at registers
  exact disconnects.apart t registers gone

omit [DecidableEq Thread] in
theorem not_ends (off : ¬ Registers (s.send.position t)) (stays : ¬ Disconnected (s.place t)) : ¬ Ends s t := by
  intro either
  rcases either with on | gone
  · exact off on
  · exact stays gone

omit [DecidableEq Thread] in
theorem not_lies (off : s.send.connected = false) (outstanding : s.disconnectOutstanding = 0) (late : ¬ Fresh s) : ¬ Lies s := by
  intro either
  rcases either with on | pending | young
  · exact absurd (off.symm.trans on) (by simp)
  · exact absurd outstanding (Nat.ne_of_gt pending)
  · exact late young

structure Turns (s : Life Thread Buffer) (t : Thread) (next : Life Thread Buffer) : Prop where
  positions : ∀ u, u ≠ t → next.send.position u = s.send.position u
  places : ∀ u, u ≠ t → next.place u = s.place u
  stages : ∀ u, u ≠ t → next.stage u = s.stage u

omit [DecidableEq Thread] in
theorem Turns.placed (turns : Turns s t next) {There : Place → Prop} (mine : ¬ There (next.place t)) {u : Thread}
    (there : There (next.place u)) : u ≠ t ∧ There (s.place u) ∧ next.place u = s.place u := by
  have apart : u ≠ t := by
    intro same
    exact mine (same ▸ there)
  have same := turns.places u apart
  exact ⟨apart,same ▸ there,same⟩

omit [DecidableEq Thread] in
theorem Turns.positioned (turns : Turns s t next) {There : SessionSend.Position Buffer → Prop} (mine : ¬ There (next.send.position t))
    {u : Thread} (there : There (next.send.position u)) : u ≠ t ∧ There (s.send.position u) := by
  have apart : u ≠ t := by
    intro same
    exact mine (same ▸ there)
  exact ⟨apart,turns.positions u apart ▸ there⟩

theorem Disconnects.moved (disconnects : Disconnects s) (turns : Turns s t next)
    (takes : Ends next t → (Ends s t ∨ Lies s) ∧ ¬ Lies next) (gives : Lies next → Ends s t ∨ Lies s)
    (apart : Registers (next.send.position t) → ¬ Disconnected (next.place t))
    (connected : next.send.connected = true → next.disconnectOutstanding = 0 ∧ ¬ Fresh next)
    (fresh : Fresh next → next.disconnectOutstanding = 0) (single : next.disconnectOutstanding ≤ 1)
    (posted : 0 < next.disconnectOutstanding → next.disconnectOwner = true)
    (mine : DisconnectOwned next t → next.disconnectOwner = true)
    (owner : next.disconnectOwner = true ∨ next.disconnectOwner = s.disconnectOwner ∨ Ends s t)
    (staged : ¬ Registers (next.send.position t) → next.stage t = .owner) : Disconnects next := by
  have others (u : Thread) (apart : u ≠ t) : Ends next u → Ends s u := by
    unfold Ends
    rw [turns.positions u apart,turns.places u apart]
    exact id
  refine ⟨disconnects.token.moved others takes gives,fun u at_ => ?_,connected,fresh,single,posted,fun u owned => ?_,fun u off => ?_⟩
  · by_cases same : u = t
    · subst same
      exact apart at_
    · rw [turns.positions u same] at at_
      rw [turns.places u same]
      exact disconnects.apart u at_
  · by_cases same : u = t
    · subst same
      exact mine owned
    · have had := others u same owned.ends
      have owned : DisconnectOwned s u := by
        unfold DisconnectOwned at owned ⊢
        rwa [turns.positions u same,turns.places u same,turns.stages u same] at owned
      rcases owner with set | still | ends
      · exact set
      · exact still.trans (disconnects.kept u owned)
      · exact absurd (disconnects.token.one u t had ends) same
  · by_cases same : u = t
    · subst same
      exact staged off
    · rw [turns.positions u same] at off
      rw [turns.stages u same]
      exact disconnects.staged u off

theorem fresh_moved (places : next.place = Function.update s.place t place) (connecting : next.connecting = s.connecting)
    (late : ∀ failed, place ≠ .connectStore failed) (fresh : Fresh next) : Fresh s := by
  rcases fresh with pending | ⟨u,failed,at_⟩
  · exact .inl (connecting ▸ pending)
  · by_cases same : u = t
    · subst same
      rw [places,Function.update_self] at at_
      exact absurd at_ (late failed)
    · rw [places,Function.update_of_ne same] at at_
      exact .inr ⟨u,failed,at_⟩

theorem fresh_goto {middle : Life Thread Buffer} (places : middle.place = s.place) (connecting : middle.connecting = s.connecting)
    (late : ∀ failed, place ≠ .connectStore failed) (fresh : Fresh (middle.goto t place)) : Fresh s :=
  @fresh_moved _ _ _ s (middle.goto t place) t place (by rw [← places]; rfl) connecting late fresh

theorem Does.turns (does : Does s t choice effect next) : Turns s t next := by
  cases does with
  | sends off taken =>
    obtain ⟨position,leads⟩ := step_leads taken
    exact ⟨fun u apart => by rw [leads.moves,Function.update_of_ne apart],fun _ _ => rfl,fun _ _ => rfl⟩
  | sendsNull | recvNull | disconnectNull => exact ⟨fun _ _ => rfl,fun _ _ => rfl,fun _ _ => rfl⟩
  | registers | refused | abandoned | posted =>
    constructor
    all_goals
      intro u apart
      simp [Life.setStage,State.goto,apart]
  | connectFailed | calls =>
    constructor
    all_goals
      intro u apart
      simp [Life.goto,Life.disconnect,Life.storeConnected,State.goto,apart]
  | connects | recvCompleted | disconnectCompleted | connected | added | walks | recvRefused | handled | recvPosted | leaves
  | disconnects | onDisconnected | released =>
    constructor
    all_goals
      intro u apart
      simp [Life.goto,Life.storeConnected,apart]

theorem Disconnects.still (disconnects : Disconnects s) (turns : Turns s t next) (connected : next.send.connected = s.send.connected)
    (outstanding : next.disconnectOutstanding = s.disconnectOutstanding) (owner : next.disconnectOwner = s.disconnectOwner)
    (stage : next.stage t = s.stage t) (registers : Registers (next.send.position t) ↔ Registers (s.send.position t))
    (gone : Disconnected (next.place t) → Disconnected (s.place t))
    (owned : next.place t = .processDisconnect → s.place t = .processDisconnect) (fresh : Fresh next → Fresh s) :
    Disconnects next := by
  have lies : Lies next → Lies s := by
    unfold Lies
    rw [connected,outstanding]
    exact Or.imp_right (Or.imp_right fresh)
  have ends : Ends next t → Ends s t := Or.imp registers.mp gone
  refine disconnects.moved turns (fun had => ⟨.inl (ends had),fun lying => ?_⟩) (fun lying => .inr (lies lying))
    (fun at_ had => disconnects.apart t (registers.mp at_) (gone had)) ?_ ?_ ?_ ?_ ?_ (.inr (.inl owner)) ?_
  · exact disconnects.token.alone t (ends had) (lies lying)
  · rw [connected,outstanding]
    exact fun on => (disconnects.connected on).imp_right fun late young => late (fresh young)
  · rw [outstanding]
    exact fun young => disconnects.fresh (fresh young)
  · rw [outstanding]
    exact disconnects.single
  · rw [outstanding,owner]
    exact disconnects.posted
  · rw [owner]
    refine fun held => disconnects.kept t ?_
    rcases held with ⟨at_,staged⟩ | at_
    · exact .inl ⟨registers.mp at_,stage ▸ staged⟩
    · exact .inr (owned at_)
  · rw [stage]
    exact fun off => disconnects.staged t fun at_ => off (registers.mpr at_)

theorem Disconnects.processed (disconnects : Disconnects s) (turns : Turns s t next) (connected : next.send.connected = s.send.connected)
    (registers : Registers (next.send.position t) ↔ Registers (s.send.position t))
    (outstanding : next.disconnectOutstanding = s.disconnectOutstanding) (owner : next.disconnectOwner = s.disconnectOwner)
    (stage : next.stage = s.stage) (places : next.place = Function.update s.place t place) (connecting : next.connecting = s.connecting)
    (stays : ¬ Disconnected place) (late : ∀ failed, place ≠ .connectStore failed) : Disconnects next := by
  have mine : next.place t = place := by rw [places,Function.update_self]
  refine disconnects.still turns connected outstanding owner (by rw [stage]) registers (fun gone => ?_) (fun at_ => ?_)
    (fresh_moved places connecting late)
  · rw [mine] at gone
    exact absurd gone stays
  · rw [← mine,at_] at stays
    exact absurd trivial stays

omit [DecidableEq Thread] in
theorem idle_registers (idle : s.idle t = true) : ¬ Registers (s.send.position t) := by
  intro at_
  unfold Life.idle at idle
  cases position : s.send.position t with
  | registerDisconnect => simp [position] at idle
  | _ =>
    rw [position] at at_
    exact absurd at_ id

theorem called_registers (idle : s.idle t = true) :
    Registers ((s.send.goto t (.disconnect .outside)).position t) ↔ Registers (s.send.position t) :=
  iff_of_false (by simp [State.goto,Registers]) (idle_registers idle)

theorem after_registers (return_ : Return) : ¬ Registers (after return_ : Position Buffer) := by
  cases return_ <;> exact id

theorem Does.keeps_disconnects (does : Does s t choice effect next) (receives : Receives s) (disconnects : Disconnects s) :
    Disconnects next := by
  have turns := does.turns
  cases does with
  | sendsNull | recvNull | disconnectNull => exact disconnects
  | @sends choice send off taken =>
    obtain ⟨position,leads⟩ := step_leads taken
    have mine : send.position t = position := by rw [leads.moves,Function.update_self]
    have stage := disconnects.staged t off
    have lies : Lies {s with send := send} → Lies s := Or.imp_left leads.connected
    refine disconnects.moved turns (fun ends => ?_) (fun lying => .inr (lies lying)) (fun at_ => ?_)
      (fun on => disconnects.connected (leads.connected on)) disconnects.fresh disconnects.single disconnects.posted ?_ (.inr (.inl rfl))
      fun _ => stage
    · rcases ends with at_ | gone
      · rw [mine] at at_
        obtain ⟨before,after⟩ := leads.falls at_
        obtain ⟨outstanding,late⟩ := disconnects.connected before
        exact ⟨.inr (.inl before),not_lies after outstanding late⟩
      · exact ⟨.inl (.inr gone),fun lying => disconnects.token.alone t (.inr gone) (lies lying)⟩
    · intro gone
      rw [mine] at at_
      exact disconnects.token.alone t (.inr gone) (.inl (leads.falls at_).1)
    · intro either
      rcases either with ⟨_,staged⟩ | at_
      · exact absurd stage staged
      · exact disconnects.kept t (.inr at_)
  | registers at_ stage =>
    refine disconnects.moved turns (fun _ => ⟨.inl (.inl at_),disconnects.token.alone t (.inl at_)⟩) .inr (disconnects.apart t)
      disconnects.connected disconnects.fresh disconnects.single (fun _ => rfl) (fun _ => rfl) (.inl rfl) fun off => absurd at_ off
  | refused at_ stage fails =>
    have set : s.disconnectOwner = true := disconnects.kept t (.inl ⟨at_,by simp [stage]⟩)
    exact disconnects.moved turns (fun _ => ⟨.inl (.inl at_),disconnects.token.alone t (.inl at_)⟩) .inr (disconnects.apart t)
      disconnects.connected disconnects.fresh disconnects.single (fun _ => set) (fun _ => set) (.inl set) fun off => absurd at_ off
  | @abandoned return_ at_ stage =>
    have ends : Ends s t := .inl (by rw [at_]; trivial)
    have stays := disconnects.apart t (by rw [at_]; trivial)
    have done : ¬ Ends ({s with send := s.send.goto t (after return_),disconnectOwner := false}.setStage t .owner) t :=
      not_ends (by simpa [Life.setStage,State.goto] using after_registers return_) stays
    refine disconnects.moved turns (fun ends => absurd ends done) .inr (fun _ => stays) disconnects.connected disconnects.fresh
      disconnects.single ?_ (fun owned => absurd owned.ends done) (.inr (.inr ends)) ?_
    · exact fun pending => absurd (disconnects.alone ends).2.1 (Nat.ne_of_gt pending)
    · simp [Life.setStage]
  | @posted return_ errorCode at_ stage =>
    have ends : Ends s t := .inl (by rw [at_]; trivial)
    have set : s.disconnectOwner = true := disconnects.kept t (.inl ⟨by rw [at_]; trivial,by simp [stage]⟩)
    obtain ⟨connected,outstanding,late⟩ := disconnects.alone ends
    have stays := disconnects.apart t (by rw [at_]; trivial)
    refine disconnects.moved turns (fun ends => absurd ends (not_ends ?_ stays)) (fun _ => .inl ends) (fun _ => stays) (fun on => ?_)
      (fun young => absurd young late) ?_ (fun _ => set) (fun _ => set) (.inl set) ?_
    · simpa [Life.setStage,State.goto] using after_registers return_
    · exact absurd (connected.symm.trans on) (by simp)
    · simp [Life.setStage,outstanding]
    · simp [Life.setStage]
  | @connects failed free pending =>
    have young : Fresh s := .inl pending
    have off : ¬ Registers (s.send.position t) := fun on => disconnects.token.alone t (.inl on) (.inr (.inr young))
    have ends : ¬ Ends ({s with connecting := false}.goto t (.connectStore failed)) t := not_ends off (by simp [Life.goto,Disconnected])
    refine disconnects.moved turns (fun had => absurd had ends) (fun _ => .inr (.inr (.inr young))) (fun on => absurd on off) ?_
      (fun _ => disconnects.fresh young) disconnects.single disconnects.posted (fun owned => absurd owned.ends ends) (.inr (.inl rfl))
      (disconnects.staged t)
    exact fun on => absurd young (disconnects.connected on).2
  | recvCompleted free =>
    exact disconnects.processed turns rfl Iff.rfl rfl rfl rfl rfl rfl id (by simp)
  | disconnectCompleted free pending set =>
    have lies : Lies s := .inr (.inl pending)
    have single := disconnects.single
    have last : s.disconnectOutstanding - 1 = 0 := by omega
    have late : ¬ Fresh s := fun young => Nat.ne_of_gt pending (disconnects.fresh young)
    have off : ¬ Registers (s.send.position t) := fun at_ => disconnects.token.alone t (.inl at_) lies
    have still (young : Fresh ({s with disconnectOutstanding := s.disconnectOutstanding - 1}.goto t .processDisconnect)) : Fresh s :=
      fresh_goto rfl rfl (by simp) young
    have disconnected : s.send.connected = false :=
      Bool.eq_false_iff.mpr fun on => Nat.ne_of_gt pending (disconnects.connected on).1
    exact disconnects.moved turns (fun _ => ⟨.inr lies,not_lies disconnected last fun young => late (still young)⟩) (fun _ => .inr lies)
      (fun at_ => absurd at_ off) (fun on => absurd (disconnected.symm.trans on) (by simp)) (fun _ => last) (by simp [Life.goto,last])
      (fun _ => set) (fun _ => set) (.inl set) fun _ => disconnects.staged t off
  | connectFailed idle at_ =>
    have young : Fresh s := .inr ⟨t,true,at_⟩
    have off : ¬ Registers ((((s.storeConnected false).disconnect t).goto t .disconnecting).send.position t) := by
      simp [Life.goto,Life.disconnect,State.goto,Registers]
    have ends := not_ends off (by simp [Life.goto,Disconnected])
    exact disconnects.moved turns (fun had => absurd had ends) (fun _ => .inr (.inr (.inr young))) (fun on => absurd on off)
      (fun on => by cases on) (fun _ => disconnects.fresh young) disconnects.single disconnects.posted (fun owned => absurd owned.ends ends)
      (.inr (.inl rfl)) fun _ => disconnects.staged t (idle_registers idle)
  | connected idle at_ =>
    have young : Fresh s := .inr ⟨t,false,at_⟩
    have receiving : Receiving (s.place t) := by rw [at_]; trivial
    have late : ¬ Fresh ((s.storeConnected true).goto t .addSession) := by
      intro either
      rcases either with pending | ⟨u,failed,there⟩
      · exact receives.token.alone t receiving (.inl pending)
      · by_cases same : u = t
        · subst same
          simp [Life.goto] at there
        · have there : s.place u = .connectStore failed := by simpa [Life.goto,Life.storeConnected,same] using there
          exact same (receives.token.one u t (by rw [there]; trivial) receiving)
    have ends : ¬ Ends ((s.storeConnected true).goto t .addSession) t := not_ends (idle_registers idle) (by simp [Life.goto,Disconnected])
    exact disconnects.moved turns (fun had => absurd had ends) (fun _ => .inr (.inr (.inr young))) (fun on => absurd on (idle_registers idle))
      (fun _ => ⟨disconnects.fresh young,late⟩) (fun more => absurd more late) disconnects.single disconnects.posted
      (fun owned => absurd owned.ends ends) (.inr (.inl rfl)) (disconnects.staged t)
  | added idle at_ => exact disconnects.processed turns rfl Iff.rfl rfl rfl rfl rfl rfl id (by simp)
  | walks place receiving late goes lateToo =>
    refine disconnects.processed turns rfl Iff.rfl rfl rfl rfl rfl rfl (fun gone => gone.notReceiving goes) fun failed same => ?_
    subst same
    exact lateToo trivial
  | calls idle receiving late recvOwner to_ =>
    refine disconnects.processed turns rfl (called_registers idle) rfl rfl rfl rfl rfl ?_ ?_
    · rcases to_ with rfl | ⟨rfl,_⟩ <;> exact id
    · rcases to_ with rfl | ⟨rfl,_⟩ <;> simp
  | recvRefused | handled | recvPosted | leaves =>
    exact disconnects.processed turns rfl Iff.rfl rfl rfl rfl rfl rfl id (by simp)
  | disconnects at_ =>
    have gone : Disconnected (s.place t) := by rw [at_]; trivial
    obtain ⟨connected,outstanding,late⟩ := disconnects.alone (.inr gone)
    have off : ¬ Registers (s.send.position t) := disconnects.deserted gone t
    have nowhere : ¬ Lies ({s with disconnectOwner := false}.goto t .onDisconnected) :=
      not_lies connected outstanding fun young => late (fresh_goto rfl rfl (by simp) young)
    refine disconnects.moved turns (fun _ => ⟨.inl (.inr gone),nowhere⟩) (fun lying => absurd lying nowhere) (fun on => absurd on off)
      (fun on => absurd (.inl on) nowhere) (fun young => absurd (.inr (.inr young)) nowhere) disconnects.single
      (fun pending => absurd (.inr (.inl pending)) nowhere) ?_ (.inr (.inr (.inr gone))) fun _ => disconnects.staged t off
    intro either
    rcases either with ⟨on,_⟩ | there
    · exact absurd on off
    · simp [Life.goto] at there
  | onDisconnected at_ =>
    exact disconnects.still turns rfl rfl rfl rfl Iff.rfl (fun _ => by rw [at_]; trivial) (by simp [Life.goto])
      (fresh_goto rfl rfl (by simp))
  | released at_ =>
    exact disconnects.still turns rfl rfl rfl rfl Iff.rfl (fun _ => by rw [at_]; trivial) (by simp [Life.goto])
      (fresh_goto rfl rfl (by simp))

omit [DecidableEq Thread] in
theorem idle_outside (idle : s.idle t = true) : s.send.position t = .outside := by
  unfold Life.idle at idle
  cases position : s.send.position t with
  | outside => rfl
  | _ => simp [position] at idle

theorem Does.keeps_sends (does : Does s t choice effect next) (sends : SessionSend.Sound s.send) : SessionSend.Sound next.send := by
  cases does with
  | sends _ taken => exact sends.step taken
  | abandoned at_ => exact sends.returned at_
  | posted at_ => exact sends.returned at_
  | connectFailed idle => exact (sends.stored false).called (idle_outside idle)
  | connected => exact sends.stored true
  | calls idle => exact sends.called (idle_outside idle)
  | sendsNull | registers | refused | connects | recvCompleted | recvNull | disconnectCompleted | disconnectNull | added
  | walks | recvRefused | handled | recvPosted | leaves | disconnects | onDisconnected | released => exact sends

structure Sound (s : Life Thread Buffer) : Prop where
  receives : Receives s
  disconnects : Disconnects s
  sends : SessionSend.Sound s.send

theorem Does.keeps (does : Does s t choice effect next) (sound : Sound s) : Sound next :=
  ⟨does.keeps_receives sound.receives,does.keeps_disconnects sound.receives sound.disconnects,does.keeps_sends sound.sends⟩

theorem Does.owned (does : Does s t choice effect next) (sound : Sound s) : effect ≠ .nullOwner := by
  cases does with
  | sendsNull posted unset =>
    obtain ⟨_,_,set⟩ := sound.sends
    exact absurd ((set.posted posted).symm.trans unset) (by simp)
  | recvNull pending unset => exact absurd ((sound.receives.posted pending).symm.trans unset) (by simp)
  | disconnectNull pending unset => exact absurd ((sound.disconnects.posted pending).symm.trans unset) (by simp)
  | _ => simp

omit [DecidableEq Thread] in
theorem start_life : Sound (Life.start : Life Thread Buffer) where
  receives := ⟨⟨fun _ _ on => absurd on id,fun _ on => absurd on id⟩,by simp [Life.start],by simp [Life.start],fun _ on => absurd on id⟩
  disconnects := by
    have nobody (t : Thread) : ¬ Ends (Life.start : Life Thread Buffer) t := by
      intro either
      rcases either with on | on
      · exact absurd on id
      · exact absurd on id
    refine ⟨⟨fun t _ ends => absurd ends (nobody t),fun t ends => absurd ends (nobody t)⟩,fun _ on => absurd on id,?_,fun _ => rfl,
      Nat.zero_le _,?_,fun t owned => absurd owned.ends (nobody t),fun _ _ => rfl⟩
    · simp [Life.start]
    · simp [Life.start]
  sends := start_sound.stored false

namespace Service
variable {Session : Type _} [DecidableEq Session] {service after : Service Session Thread Buffer}
  {events : List (Session × Thread × Choice Buffer)}

inductive Serves (s : Service Session Thread Buffer) (session : Session) (t : Thread) (choice : Choice Buffer) :
    Service Session Thread Buffer → Prop where
  | moved (does : Does (s.session session) t choice .none life) :
      Serves s session t choice {s with session := Function.update s.session session life}
  | added (does : Does (s.session session) t choice .addSession life) : Serves s session t choice {s with
        session := Function.update s.session session life
        sessions := insert session s.sessions
        sessionCount := s.sessionCount + 1}
  | released (does : Does (s.session session) t choice .releaseSession life) (member : session ∈ s.sessions) :
      Serves s session t choice {s with
        session := Function.update s.session session life
        sessions := s.sessions.erase session
        sessionCount := s.sessionCount - 1}
  | asserted (does : Does (s.session session) t choice .releaseSession life) (gone : session ∉ s.sessions) :
      Serves s session t choice {s with crashed := some .releaseAssert}
  | null (does : Does (s.session session) t choice .nullOwner life) :
      Serves s session t choice {s with crashed := some .nullOwner}

theorem step_serves {event : Session × Thread × Choice Buffer} (taken : step service event = some after) :
    service.crashed = none ∧ Serves service event.1 event.2.1 event.2.2 after := by
  unfold step at taken
  split at taken
  · cases taken
  · rename_i running
    refine ⟨by simpa using running,?_⟩
    split at taken
    · cases taken
    · rename_i effect life went
      have does := stepLife_does went
      cases effect with
      | none =>
        cases taken
        exact .moved does
      | addSession =>
        cases taken
        exact .added does
      | releaseSession =>
        dsimp only at taken
        split at taken
        · rename_i member
          cases taken
          exact .released does member
        · rename_i gone
          cases taken
          exact .asserted does gone
      | nullOwner =>
        cases taken
        exact .null does

theorem Serves.each {Keeps : Life Thread Buffer → Prop} {session : Session} (serves : Serves service session t choice after)
    (keeps : ∀ effect life, Does (service.session session) t choice effect life → Keeps life)
    (all : ∀ other, Keeps (service.session other)) (other : Session) : Keeps (after.session other) := by
  cases serves with
  | moved does | added does | released does =>
    by_cases same : other = session
    · subst same
      simpa using keeps _ _ does
    · simpa [Function.update_of_ne same] using all other
  | asserted | null => exact all other

structure EventsSound (s : Service Session Thread Buffer) : Prop where
  sound : ∀ session, Sound (s.session session)
  running : s.crashed ≠ some .nullOwner

theorem step_events (s : Service Session Thread Buffer) (event : Session × Thread × Choice Buffer)
    (next : Service Session Thread Buffer) (sound : EventsSound s) (taken : step s event = some next) : EventsSound next := by
  obtain ⟨running,serves⟩ := step_serves taken
  refine ⟨serves.each (fun _ _ does => does.keeps (sound.sound event.1)) sound.sound,?_⟩
  cases serves with
  | moved | added | released => exact sound.running
  | asserted => simp
  | null does => exact absurd rfl (does.owned (sound.sound event.1))

theorem runs_events (path : Runs (Enabled step) (start : Service Session Thread Buffer) events service) : EventsSound service :=
  path.invariant step_events ⟨fun _ => start_life,by simp [start]⟩

end Service

def ClearsRecv : Place → Prop
  | .recvFailOwner | .processRecv _ => True
  | _ => False

def ClearsSend : SessionSend.Position Buffer → Prop
  | .failOwner _ | .processOwner _ => True
  | _ => False

def ClearsDisconnect (s : Life Thread Buffer) (t : Thread) : Prop :=
  Registers (s.send.position t) ∧ s.stage t = .failOwner ∨ s.place t = .processDisconnect

-- Each event has one operation at most, with its owner set, and the owner is cleared only
-- while the event has no other operation, neither posted nor about to be.
structure EventsOwned (s : Life Thread Buffer) : Prop where
  recvOne : s.recvOutstanding ≤ 1
  recvOwner : 0 < s.recvOutstanding → s.recvOwner = true
  recvCleared : ∀ t, ClearsRecv (s.place t) → s.recvOutstanding = 0 ∧ ∀ u, RecvOwned (s.place u) → u = t
  sendOne : s.send.outstanding.length ≤ 1
  sendOwner : s.send.outstanding ≠ [] → s.send.owner = true
  sendCleared : ∀ t, ClearsSend (s.send.position t) → s.send.outstanding = [] ∧ ∀ u, Keeps (s.send.position u) → u = t
  disconnectOne : s.disconnectOutstanding ≤ 1
  disconnectOwner : 0 < s.disconnectOutstanding → s.disconnectOwner = true
  disconnectCleared : ∀ t, ClearsDisconnect s t → s.disconnectOutstanding = 0 ∧ ∀ u, DisconnectOwned s u → u = t

omit [DecidableEq Thread] in
theorem Sound.eventsOwned (sound : Sound s) : EventsOwned s := by
  obtain ⟨receives,disconnects,holder,valid,set⟩ := sound
  refine ⟨?_,receives.posted,fun t clears => ?_,valid.single,set.posted,fun t clears => ?_,disconnects.single,disconnects.posted,
    fun t clears => ?_⟩
  · exact Nat.le_trans (Nat.le_add_left _ _) receives.single
  · have had : Receiving (s.place t) := by
      unfold ClearsRecv at clears
      split at clears <;> simp_all [Receiving]
    have nowhere := receives.token.alone t had
    exact ⟨by omega,fun u owned => receives.token.one u t owned.receiving had⟩
  · have holds : Holds (s.send.position t) := by
      unfold ClearsSend at clears
      split at clears <;> simp_all [Holds]
    have held := (valid.holds t).mp holds
    refine ⟨valid.alone (by simp [held]),fun u keeps => ?_⟩
    exact Option.some.inj (((valid.holds u).mp keeps.holds).symm.trans held)
  · have ends : Ends s t := by
      rcases clears with ⟨at_,_⟩ | at_
      · exact .inl at_
      · exact .inr (by rw [at_]; trivial)
    exact ⟨(disconnects.alone ends).2.1,fun u owned => disconnects.token.one u t owned.ends ends⟩

namespace Service
variable {Session : Type _} [DecidableEq Session] {service : Service Session Thread Buffer}
  {events : List (Session × Thread × Choice Buffer)}

-- In every state of every run the events of all sessions are owned, and Dispatch has met no
-- null owner.
theorem events_owned (path : Runs (Enabled step) (start : Service Session Thread Buffer) events service) :
    service.crashed ≠ some .nullOwner ∧ ∀ session, EventsOwned (service.session session) := by
  obtain ⟨sound,running⟩ := runs_events path
  exact ⟨running,fun session => (sound session).eventsOwned⟩

-- A recv fails at once with the connection reset: the failure branch disconnects, and the
-- owner of the disconnect event stays set while that of the recv event is cleared.
def reset : List (Unit × Bool × Choice Nat) :=
  [((),false,.connect false),((),false,.go),((),false,.go),((),false,.go),((),false,.go),((),false,.go),
    ((),false,.wsaRecv (some wsaeConnReset)),((),false,.send .go),((),false,.send .go),((),false,.disconnectEx none),
    ((),false,.go),((),false,.go)]

theorem events_owned_reset : ∃ service, Runs (Enabled step) (start : Service Unit Bool Nat) reset service ∧
    (service.session ()).recvOwner = false ∧ (service.session ()).disconnectOutstanding = 1 ∧
    (service.session ()).disconnectOwner = true ∧ EventsOwned (service.session ()) := by
  have path : Runs (Enabled step) (start : Service Unit Bool Nat) reset _ := execute_runs rfl
  exact ⟨_,path,rfl,rfl,rfl,(events_owned path).2 ()⟩

end Service
end IocpChatServer.ServerCore.SessionLife
