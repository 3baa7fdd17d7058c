import IocpChatServer.ServerCore.SendOrder

namespace IocpChatServer.ServerCore.SessionSend
open Foundations TransitionSystem
variable {Thread Buffer : Type _} [DecidableEq Thread]

-- With the owner of the send event set, for a send not yet posted or just completed, and for
-- one that has failed.
def Keeps : Position Buffer → Prop
  | .registerDrain _ | .registerGather _ | .wsaSend _ _ | .failOwner _ | .processOwner _
  | .disconnect (.handleError _) | .registerDisconnect (.handleError _) => True
  | _ => False

def Registers : Position Buffer → Prop
  | .registerDisconnect _ => True
  | _ => False

instance : (position : Position Buffer) → Decidable (Registers position)
  | .registerDisconnect _ => .isTrue trivial
  | .outside | .sendConnected _ | .sendPush _ | .registerConnected _ | .registerOwner _ | .registerDrain _ | .registerGather _
  | .wsaSend _ _ | .failOwner _ | .failClear _ | .failStore _ | .processOwner _ | .processClear _ | .processLock | .processEmpty
  | .processStore | .processUnlock | .disconnect _ => .isFalse id

theorem Keeps.holds {position : Position Buffer} (keeps : Keeps position) : Holds position := by
  cases position with
  | disconnect return_ | registerDisconnect return_ => cases return_ <;> trivial
  | _ => trivial

inductive Owns (s : State Thread Buffer) (t : Thread) (next : State Thread Buffer) (position : Position Buffer) : Prop where
  | same (owner : next.owner = s.owner)
      (needed : Keeps position ∨ next.outstanding ≠ [] → Keeps (s.position t) ∨ s.outstanding ≠ [])
  | set (owner : next.owner = true)
  | cleared (mine : Holds (s.position t)) (off : ¬ Keeps position) (still : next.outstanding = s.outstanding)

structure Leads (s : State Thread Buffer) (t : Thread) (next : State Thread Buffer) (position : Position Buffer) : Prop where
  moves : next.position = Function.update s.position t position
  falls : Registers position → s.connected = true ∧ next.connected = false
  stays : ¬ Registers position → next.connected = s.connected
  owns : Owns s t next position

variable {s next : State Thread Buffer} {t : Thread} {position : Position Buffer} {choice : Choice Buffer} {holder : Option Thread}

theorem Leads.connected (leads : Leads s t next position) (on : next.connected = true) : s.connected = true := by
  by_cases registers : Registers position
  · exact (leads.falls registers).1
  · exact (leads.stays registers).symm.trans on

theorem exchange_leads (return_ : Return) (needed : Keeps (s.position t) ∨ return_ = .outside) :
    ∃ position, Leads s t (exchange s t return_) position := by
  have owns (next : State Thread Buffer) (position : Position Buffer) (kept : next.owner = s.owner)
      (posted : next.outstanding = s.outstanding) (off : return_ = .outside → ¬ Keeps position) : Owns s t next position := by
    refine .same kept fun either => ?_
    rw [posted] at either
    rcases needed with keeps | outside
    · exact .inl keeps
    · exact either.imp_left fun keeps => absurd keeps (off outside)
  unfold exchange
  split
  · rename_i on
    refine ⟨.registerDisconnect return_,rfl,fun _ => ⟨on,rfl⟩,fun off => absurd trivial off,?_⟩
    exact owns _ _ rfl rfl fun outside => by rw [outside]; exact id
  · refine ⟨after return_,rfl,fun registers => ?_,fun _ => rfl,?_⟩
    · cases return_ <;> cases registers
    · exact owns _ _ rfl rfl fun outside => by rw [outside]; exact id

theorem wsaSend_leads {caller : Caller} {wsaBufs : List Buffer} (at_ : s.position t = .wsaSend caller wsaBufs)
    (errorCode : Option Int) : ∃ position, Leads s t (wsaSend s t caller wsaBufs errorCode) position := by
  have keeps : Keeps (s.position t) := by rw [at_]; trivial
  have posted : ∃ position, Leads s t ({s with
      given := s.given ++ [wsaBufs]
      outstanding := s.outstanding ++ [wsaBufs]
      accepted := s.accepted ++ [wsaBufs]}.goto t (back caller)) position := by
    refine ⟨back caller,rfl,fun registers => ?_,fun _ => rfl,.same rfl fun _ => .inl keeps⟩
    cases caller <;> cases registers
  cases errorCode with
  | none => exact posted
  | some errorCode =>
    unfold wsaSend
    dsimp only
    split
    · split
      · exact ⟨.disconnect (.handleError caller),rfl,False.elim,fun _ => rfl,.same rfl fun _ => .inl keeps⟩
      · exact ⟨.failOwner caller,rfl,False.elim,fun _ => rfl,.same rfl fun _ => .inl keeps⟩
    · exact posted

theorem leads_quietly {onto : Position Buffer} (moves : next.position = Function.update s.position t onto)
    (connected : next.connected = s.connected) (owner : next.owner = s.owner) (outstanding : next.outstanding = s.outstanding)
    (registers : ¬ Registers onto) (keeps : Keeps onto → Keeps (s.position t)) : ∃ position, Leads s t next position :=
  ⟨onto,moves,fun on => absurd on registers,fun _ => connected,.same owner fun either => by
    rw [outstanding] at either
    exact either.imp_left keeps⟩

theorem back_registers (caller : Caller) : ¬ Registers (back caller : Position Buffer) := by
  cases caller <;> exact id

theorem back_keeps (caller : Caller) : ¬ Keeps (back caller : Position Buffer) := by
  cases caller <;> exact id

theorem proceed_leads (taken : proceed s t = some next) : ∃ position, Leads s t next position := by
  unfold proceed at taken
  cases at_ : s.position t with
  | outside | wsaSend => simp [at_] at taken
  | sendConnected sendBuffer =>
    simp only [at_] at taken
    split at taken
    · cases taken
      exact leads_quietly rfl rfl rfl rfl id False.elim
    · cases sendBuffer with
      | none =>
        cases taken
        have stays : s.position = Function.update s.position t (.sendConnected none) := by rw [← at_,Function.update_eq_self]
        exact leads_quietly stays rfl rfl rfl id False.elim
      | some sendBuffer =>
        cases taken
        exact leads_quietly rfl rfl rfl rfl id False.elim
  | sendPush sendBuffer =>
    simp only [at_] at taken
    split at taken
    · split at taken
      · cases taken
        exact leads_quietly rfl rfl rfl rfl id False.elim
      · cases taken
        exact leads_quietly rfl rfl rfl rfl id False.elim
    · cases taken
  | registerConnected caller =>
    simp only [at_] at taken
    split at taken
    · cases taken
      exact leads_quietly rfl rfl rfl rfl (back_registers caller) fun keeps => absurd keeps (back_keeps caller)
    · cases taken
      exact leads_quietly rfl rfl rfl rfl id False.elim
  | registerOwner caller =>
    simp only [at_] at taken
    cases taken
    exact ⟨.registerDrain caller,rfl,False.elim,fun _ => rfl,.set rfl⟩
  | registerDrain caller =>
    simp only [at_] at taken
    split at taken
    · cases taken
      exact leads_quietly rfl rfl rfl rfl id fun _ => by rw [at_]; trivial
    · cases taken
  | registerGather caller =>
    simp only [at_] at taken
    cases taken
    exact leads_quietly rfl rfl rfl rfl id fun _ => by rw [at_]; trivial
  | failOwner caller =>
    simp only [at_] at taken
    cases taken
    exact ⟨.failClear caller,rfl,False.elim,fun _ => rfl,.cleared (by rw [at_]; trivial) id rfl⟩
  | failClear caller | processStore | processUnlock =>
    simp only [at_] at taken
    cases taken
    exact leads_quietly rfl rfl rfl rfl id False.elim
  | failStore caller =>
    simp only [at_] at taken
    cases taken
    exact leads_quietly rfl rfl rfl rfl (back_registers caller) fun keeps => absurd keeps (back_keeps caller)
  | processOwner numOfBytes =>
    simp only [at_] at taken
    cases taken
    exact ⟨.processClear numOfBytes,rfl,False.elim,fun _ => rfl,.cleared (by rw [at_]; trivial) id rfl⟩
  | processClear numOfBytes =>
    simp only [at_] at taken
    split at taken
    · cases taken
      exact leads_quietly rfl rfl rfl rfl id False.elim
    · cases taken
      exact leads_quietly rfl rfl rfl rfl id False.elim
  | processLock =>
    simp only [at_] at taken
    split at taken
    · cases taken
      exact leads_quietly rfl rfl rfl rfl id False.elim
    · cases taken
  | processEmpty =>
    simp only [at_] at taken
    split at taken
    · cases taken
      exact leads_quietly rfl rfl rfl rfl id False.elim
    · cases taken
      exact leads_quietly rfl rfl rfl rfl id False.elim
  | disconnect return_ =>
    simp only [at_] at taken
    cases taken
    refine exchange_leads return_ ?_
    cases return_ with
    | outside => exact .inr rfl
    | handleError => exact .inl (by rw [at_]; trivial)
  | registerDisconnect return_ =>
    simp only [at_] at taken
    cases taken
    cases return_ with
    | outside => exact leads_quietly rfl rfl rfl rfl id False.elim
    | handleError => exact leads_quietly rfl rfl rfl rfl id fun _ => by rw [at_]; trivial

theorem enter_leads (taken : enter s t choice = some next) : ∃ position, Leads s t next position := by
  cases choice with
  | send | disconnect =>
    cases taken
    exact leads_quietly rfl rfl rfl rfl id False.elim
  | complete index numOfBytes =>
    simp only [enter] at taken
    split at taken
    · rename_i known
      cases taken
      exact ⟨.processOwner numOfBytes,rfl,False.elim,fun _ => rfl,
        .same rfl fun _ => .inr (List.ne_nil_of_length_pos (Nat.zero_lt_of_lt known))⟩
    · cases taken
  | wsaSend | go => cases taken

theorem step_leads {event : Thread × Choice Buffer} (taken : step s event = some next) :
    ∃ position, Leads s event.1 next position := by
  obtain ⟨t,choice⟩ := event
  unfold step at taken
  split at taken
  · cases taken
  · dsimp only at taken
    split at taken
    · exact enter_leads taken
    · rename_i at_
      cases taken
      exact wsaSend_leads at_ _
    · exact proceed_leads taken
    · cases taken

-- The owner is set from before a send is posted until its completion is at hand.
structure OwnerSet (s : State Thread Buffer) : Prop where
  posted : s.outstanding ≠ [] → s.owner = true
  kept : ∀ t, Keeps (s.position t) → s.owner = true

theorem Leads.ownerSet (leads : Leads s t next position) (valid : Inv s holder) (set : OwnerSet s) : OwnerSet next := by
  have before : Keeps (s.position t) ∨ s.outstanding ≠ [] → s.owner = true := fun either => either.elim (set.kept t) set.posted
  have others (u : Thread) (apart : u ≠ t) : next.position u = s.position u := by
    rw [leads.moves,Function.update_of_ne apart]
  have mine : next.position t = position := by rw [leads.moves,Function.update_self]
  cases leads.owns with
  | same owner needed =>
    refine ⟨fun posted => owner.trans (before (needed (.inr posted))),fun u keeps => ?_⟩
    by_cases same : u = t
    · subst same
      rw [mine] at keeps
      exact owner.trans (before (needed (.inl keeps)))
    · rw [others u same] at keeps
      exact owner.trans (set.kept u keeps)
  | set owner => exact ⟨fun _ => owner,fun _ _ => owner⟩
  | cleared turn off still =>
    have held := (valid.holds t).mp turn
    refine ⟨fun posted => absurd (still.trans (valid.alone (by simp [held]))) posted,fun u keeps => ?_⟩
    by_cases same : u = t
    · subst same
      rw [mine] at keeps
      exact absurd keeps off
    · rw [others u same] at keeps
      exact absurd (Option.some.inj (((valid.holds u).mp keeps.holds).symm.trans held)) same

def Sound (s : State Thread Buffer) : Prop := ∃ holder, Inv s holder ∧ OwnerSet s

theorem Sound.step (sound : Sound s) {event : Thread × Choice Buffer} (taken : step s event = some next) : Sound next := by
  obtain ⟨holder,valid,set⟩ := sound
  obtain ⟨turn,moves⟩ := step_moves valid taken
  obtain ⟨position,leads⟩ := step_leads taken
  exact ⟨turn,moves.inv valid,leads.ownerSet valid set⟩

theorem Sound.proceed (sound : Sound s) (taken : proceed s t = some next) : Sound next := by
  obtain ⟨holder,valid,set⟩ := sound
  obtain ⟨turn,moves⟩ := @proceed_moves _ _ _ s next t holder .go valid taken
  obtain ⟨position,leads⟩ := proceed_leads taken
  exact ⟨turn,moves.inv valid,leads.ownerSet valid set⟩

theorem Sound.called (sound : Sound s) (at_ : s.position t = .outside) : Sound (s.goto t (.disconnect .outside)) := by
  obtain ⟨holder,valid,set⟩ := sound
  have taken : enter s t .disconnect = some (s.goto t (.disconnect .outside)) := rfl
  obtain ⟨turn,moves⟩ := @enter_moves _ _ _ s _ t holder _ at_ taken
  obtain ⟨position,leads⟩ := enter_leads taken
  exact ⟨turn,moves.inv valid,leads.ownerSet valid set⟩

theorem Sound.returned (sound : Sound s) {return_ : Return} (at_ : s.position t = .registerDisconnect return_) :
    Sound (s.goto t (after return_)) := by
  have taken : SessionSend.proceed s t = some (s.goto t (after return_)) := by simp only [SessionSend.proceed,at_]
  exact sound.proceed taken

omit [DecidableEq Thread] in
theorem Sound.stored (sound : Sound s) (connected : Bool) : Sound {s with connected := connected} := by
  obtain ⟨holder,valid,set⟩ := sound
  refine ⟨holder,⟨valid.holds,fun t => ?_,valid.alone,valid.idle,valid.single,valid.kept,valid.cleared,valid.order,valid.filled⟩,
    ⟨set.posted,set.kept⟩⟩
  have place := valid.places t
  cases at_ : s.position t with
  | disconnect return_ | registerDisconnect return_ =>
    rw [at_] at place
    cases return_ <;> exact place
  | _ =>
    rw [at_] at place
    exact place

omit [DecidableEq Thread] in
theorem start_sound : Sound (State.start : State Thread Buffer) :=
  ⟨none,start_inv,fun posted => absurd rfl posted,fun _ keeps => absurd keeps id⟩

end IocpChatServer.ServerCore.SessionSend
