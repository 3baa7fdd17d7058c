import IocpChatServer.GameServer.Linearization

namespace IocpChatServer.GameServer
open Std ServerCore Protocol Foundations Table TransitionSystem

-- A worker that nobody gets in the way of, from where it is to its return.
inductive Returns (worker : Nat) (session : SessionRef) : Server → Handling → Server → Prop where
  | done : Returns worker session s .idle s
  | step : call ≠ .idle → s.advance worker session call = .ok (more,next) → Returns worker session next more last →
      Returns worker session s call last

section Alone
variable {s next : Server} {worker : Nat} {session : SessionRef} {name : Bytes} {answer : Bool} {pkt : ServerPacket}
  {pkts : List ServerPacket}

theorem answering_returns (made : s.makeSendBuffer worker pkt = .ok next)
    (rest : Returns worker session (next.send session pkt) (.answering pkts) last) :
    Returns worker session s (.answering (pkt :: pkts)) last :=
  .step (by simp) (by simp only [Server.advance,made]; rfl) rest

theorem answered_returns : Returns worker session s (.answering []) s := .step (by simp) rfl .done

theorem listing_returns {created : Bool} {rooms : List RoomRef} {summaries : List RoomSummary}
    (made : s.makeSendBuffer worker (if created then .sCreateRoom .ok (summaries ++ rooms.map fun r => (s.world.rooms r).getSummary)
      else .sRoomList (summaries ++ rooms.map fun r => (s.world.rooms r).getSummary)) = .ok next) :
    Returns worker session s (.listing created rooms summaries) (next.send session
      (if created then .sCreateRoom .ok (summaries ++ rooms.map fun r => (s.world.rooms r).getSummary)
      else .sRoomList (summaries ++ rooms.map fun r => (s.world.rooms r).getSummary))) := by
  induction rooms generalizing summaries with
  | nil =>
    rw [List.map_nil,List.append_nil] at made ⊢
    exact .step (by simp) rfl (answering_returns made answered_returns)
  | cons room rooms ih =>
    have split : summaries ++ (room :: rooms).map (fun r => (s.world.rooms r).getSummary) =
        summaries ++ [(s.world.rooms room).getSummary] ++ rooms.map fun r => (s.world.rooms r).getSummary := by simp
    rw [split] at made ⊢
    exact .step (by simp) rfl (ih made)

theorem setNickname_returns (done : s.handleSetNickname worker session name = .ok (answer,next)) :
    Returns worker session s (.called (.cSetNickname name)) next := by
  have made : (s.world.makePlayer {playerId := 1,name := name}).1 = s.world.playerCount := rfl
  by_cases taken : name ∈ s.world.manager.playerNameToId
  · have added := World.makePlayer_duplicate s.world taken
    simp only [Server.handleSetNickname,made,added,if_true,bind,Except.bind] at done
    split at done
    · cases done
    · rename_i one
      split at done
      · cases done
      · rename_i two
        cases done
        exact .step (by simp) (by simp only [Server.advance,made,added,if_true]) (answering_returns one (answering_returns two answered_returns))
  · have added := World.makePlayer_enlisted s.world taken
    simp only [Server.handleSetNickname,made,added,reduceCtorEq,if_false,bind,Except.bind] at done
    split at done
    · cases done
    · rename_i found there
      split at done
      · cases done
      · rename_i one
        cases done
        refine .step (by simp) (by simp only [Server.advance,made,added,reduceCtorEq,if_false]; rfl) (.step (by simp) rfl ?_)
        refine .step (by simp) ?_ (answering_returns one answered_returns)
        simp only [Server.advance,there]

theorem requestRoomList_returns {num : UInt32} (done : s.handleRequestRoomList worker session = .ok (answer,next)) :
    Returns worker session s (.called (.cRequestRoomList num)) next := by
  simp only [Server.handleRequestRoomList,bind,Except.bind] at done
  split at done
  · cases done
  · rename_i one
    cases done
    refine .step (by simp) rfl ?_
    exact @listing_returns _ _ worker session false s.world.getAllRooms [] one

theorem createRoom_returns {maxPlayers : UInt32} (done : s.handleCreateRoom worker session name = .ok (answer,next)) :
    Returns worker session s (.called (.cCreateRoom name maxPlayers)) next := by
  have made : (s.world.makeRoom (Room.setName {} name)).1 = s.world.roomCount := rfl
  by_cases taken : name ∈ s.world.manager.roomNameToId
  · have added := World.makeRoom_duplicate s.world taken
    simp only [Server.handleCreateRoom,made,added,if_true,bind,Except.bind] at done
    split at done
    · cases done
    · rename_i one
      cases done
      exact .step (by simp) (by simp only [Server.advance,made,added,if_true]) (answering_returns one answered_returns)
  · have added := World.makeRoom_founded s.world taken
    simp only [Server.handleCreateRoom,made,added,reduceCtorEq,if_false,bind,Except.bind] at done
    split at done
    · cases done
    · rename_i one
      cases done
      refine .step (by simp) (by simp only [Server.advance,made,added,reduceCtorEq,if_false]; rfl) (.step (by simp) rfl ?_)
      exact @listing_returns _ _ worker session true _ [] one

-- The loops: Room::Enter's, Room::Leave's behind its own push, and Room::Broadcast's.
theorem sendAll_returns {room : RoomRef} {loop : RoomLoop} {players : List PlayerRef} (done : s.sendAll players pkt = .ok next)
    (rest : Returns worker session next (loop.returns room) last) :
    Returns worker session s (.pushing room loop pkt (players.map fun p => (p,false))) last := by
  induction players generalizing s with
  | nil =>
    cases done
    exact .step (by simp) rfl rest
  | cons p players ih =>
    simp only [Server.sendAll,List.foldlM_cons,bind,Except.bind] at done
    cases owner : s.lock p with
    | none =>
      rw [owner] at done
      cases done
    | some owner_ =>
      rw [owner] at done
      exact .step (by simp) (by simp only [Server.advance,owner,List.map_cons]) (ih done)

theorem sendOwner_returns {room : RoomRef} {loop : RoomLoop} {p : PlayerRef} {recipients : List (PlayerRef × Bool)}
    (rest : Returns worker session (s.sendOwner p pkt) (.pushing room loop pkt recipients) last) :
    Returns worker session s (.pushing room loop pkt ((p,true) :: recipients)) last := by
  refine .step (by simp) ?_ rest
  unfold Server.sendOwner
  cases owner : s.lock p <;> simp only [Server.advance,owner,if_true]

theorem broadcast_returns {room : RoomRef} :
    Returns worker session s (.pushing room .broadcast pkt (s.recipients room true)) (s.broadcast room pkt) := by
  unfold Server.recipients Server.broadcast
  generalize (s.world.rooms room).members = players
  induction players generalizing s with
  | nil => exact .step (by simp) rfl .done
  | cons p players ih => exact sendOwner_returns ih

theorem enter_parts {room : RoomRef} {found : Option PlayerRef} {entered : Bool} (done : s.enter worker room found = .ok (entered,next)) :
    entered = false ∧ s.beginEnter worker room found = .ok (none,next) ∨
    entered = true ∧ ∃ roomEvent middle, s.beginEnter worker room found = .ok (some roomEvent,middle) ∧
      middle.sendAll (middle.world.rooms room).members roomEvent = .ok next := by
  unfold Server.enter at done
  unfold Server.beginEnter
  by_cases full : (s.world.rooms room).isFull = true
  · rw [if_pos full] at done ⊢
    cases done
    exact .inl ⟨rfl,rfl⟩
  · rw [if_neg full] at done ⊢
    cases found with
    | none => cases done
    | some p =>
      simp only [bind,Except.bind] at done ⊢
      split at done
      · cases done
      · rename_i middle made
        split at done
        · cases done
        · rename_i after sent
          cases done
          exact .inr ⟨rfl,_,middle,rfl,sent⟩

theorem leave_parts {room : RoomRef} {found : Option PlayerRef} (done : s.leave worker room found = .ok next) :
    ∃ p roomEvent middle, s.beginLeave worker room found = .ok (p,roomEvent,middle) ∧
      (middle.sendOwner p roomEvent).sendAll ((middle.sendOwner p roomEvent).world.rooms room).members roomEvent = .ok next := by
  unfold Server.leave at done
  unfold Server.beginLeave
  cases found with
  | none => cases done
  | some p =>
    simp only [bind,Except.bind] at done ⊢
    split at done
    · cases done
    · rename_i middle made
      exact ⟨p,_,middle,rfl,done⟩

theorem joinRoom_returns {roomId : UInt64} {player : Option Protocol.Player}
    (done : s.handleJoinRoom worker session roomId (self player).id = .ok (answer,next)) :
    Returns worker session s (.called (.cJoinRoom roomId player)) next := by
  simp only [Server.handleJoinRoom] at done
  cases found : s.world.getRoom roomId with
  | none =>
    simp only [found,bind,Except.bind] at done
    repeat' split at done
    all_goals cases done
  | some room =>
    simp only [found,bind,Except.bind,pure,Except.pure] at done
    split at done
    · cases done
    · rename_i result entered
      split at done
      · cases done
      · rename_i one
        split at done
        · cases done
        · rename_i two
          split at done
          · cases done
          · cases done
          · rename_i there known
            cases there
            cases done
            refine .step (by simp) (by simp only [Server.advance,found]; rfl) (.step (by simp) (by simp only [Server.advance,known]; rfl) ?_)
            rw [known] at entered
            obtain ⟨entered_,middle⟩ := result
            rcases enter_parts entered with ⟨rfl,begun⟩ | ⟨rfl,roomEvent,pushing,begun,pushed⟩
            · simp only [if_true] at one two
              refine .step (by simp) (by simp only [Server.advance,begun,bind,Except.bind]; rfl) ?_
              exact .step (by simp) (by simp only [Server.advance,bind,Except.bind,one,two]; rfl) (.step (by simp) rfl .done)
            · simp only [reduceCtorEq,if_false] at one two
              refine .step (by simp) (by simp only [Server.advance,begun,bind,Except.bind]; rfl) (sendAll_returns pushed ?_)
              exact .step (by simp [RoomLoop.returns]) (by simp only [Server.advance,RoomLoop.returns,bind,Except.bind,one,two]; rfl)
                (.step (by simp) rfl .done)

theorem chatRoom_returns {msg : Bytes} {player : Option Protocol.Player}
    (done : s.handleChatRoom worker msg (self player) = .ok (answer,next)) :
    Returns worker session s (.called (.cChatRoom msg player)) next := by
  simp only [Server.handleChatRoom,bind,Except.bind] at done
  split at done
  · cases done
  · rename_i read
    split at done
    · cases done
    · rename_i room
      split at done
      · cases done
      · rename_i one
        cases done
        refine .step (by simp) (by simp only [Server.advance,read,bind,Except.bind]; rfl) (.step (by simp) ?_ broadcast_returns)
        simp only [Server.advance,World.chat,one,bind,Except.bind]
        rfl

theorem leaveRoom_returns {roomId : UInt64} {player : Option Protocol.Player}
    (done : s.handleLeaveRoom worker (self player).id = .ok (answer,next)) :
    Returns worker session s (.called (.cLeaveRoom player roomId)) next := by
  simp only [Server.handleLeaveRoom,bind,Except.bind] at done
  split at done
  · cases done
  · rename_i read
    split at done
    · cases done
      exact .step (by simp) (by simp only [Server.advance,read,bind,Except.bind]; rfl) .done
    · rename_i room
      split at done
      · cases done
      · rename_i left
        split at done
        · cases done
        · rename_i found
          cases done
          refine .step (by simp) (by simp only [Server.advance,read,bind,Except.bind]; rfl) (.step (by simp) rfl ?_)
          obtain ⟨p,roomEvent,middle,begun,pushed⟩ := leave_parts left
          refine .step (by simp) (by simp only [Server.advance,begun,bind,Except.bind]; rfl) (sendOwner_returns ?_)
          rw [show middle.recipients room false = (middle.sendOwner p roomEvent).recipients room false by rw [Server.sendOwner_sent]; rfl]
          refine sendAll_returns pushed ?_
          refine .step (by simp [RoomLoop.returns]) (by simp only [RoomLoop.returns,Server.advance,found]; rfl) ?_
          exact .step (by simp) rfl .done

theorem handlePacket_returns {packet : ClientPacket} (done : s.handlePacket worker session packet = .ok (answer,next)) :
    Returns worker session s (.called packet) next := by
  cases packet with
  | cSetNickname => exact setNickname_returns done
  | cRequestRoomList => exact requestRoomList_returns done
  | cCreateRoom => exact createRoom_returns done
  | cJoinRoom => exact joinRoom_returns done
  | cChatRoom => exact chatRoom_returns done
  | cLeaveRoom => exact leaveRoom_returns done

end Alone

theorem asks_outside {call : Handling} {room : RoomRef} (asks : call.asks = some room) : call.holds = none := by
  cases call with
  | entering | chatting | exiting => rfl
  | idle | called | named | owned | roomAdded | listing | answering | joining | nowhere | pushing | entered | seating | leaving | left
  | unseating => cases asks

namespace Workers
variable {c : Workers} {s next : Server} {worker : Nat} {session : SessionRef} {call : Handling} {events : List Event}

def alone (server : Server) (session : SessionRef) (call : Handling) : Workers :=
  ⟨server,Function.update (fun _ => .idle) session call,fun room => if call.holds = some room then some session else none⟩

theorem alone_idle : alone s session .idle = ⟨s,fun _ => .idle,fun _ => none⟩ := by
  simp [alone,Handling.holds]

theorem alone_becomes {later : Server} {more : Handling} :
    (alone s session call).becomes later session more = alone later session more := by
  unfold alone becomes
  congr 1
  · exact Function.update_idem ..
  · funext room
    by_cases held : call.holds = some room <;> simp [held]

theorem returns_runs (returns : Returns worker session s call next) :
    ∃ steps, Runs (Enabled step) (alone s session call) steps ⟨next,fun _ => .idle,fun _ => none⟩ ∧ ∀ other, received other steps = [] := by
  induction returns with
  | done => exact ⟨[],alone_idle ▸ .nil,fun _ => rfl⟩
  | @step call after more last s busy advanced _ ih =>
    obtain ⟨steps,path,quiet⟩ := ih
    refine ⟨.advance worker session :: steps,.cons ?_ path,quiet⟩
    have mine : (alone s session call).call session = call := by simp [alone]
    have ready : ¬(call = .idle ∨ ∃ room ∈ call.asks, (alone s session call).lock room ≠ none) := by
      rintro (idle | ⟨room,asked,locked⟩)
      · exact busy idle
      · exact locked (by simp [alone,asks_outside asked])
    simp only [Enabled,step,mine,if_neg ready]
    rw [show (alone s session call).server = s from rfl,advanced]
    exact congrArg some alone_becomes

-- Workers that take turns: every run of whole handlers is one of theirs.
theorem whole_handlers_run (path : Runs (Enabled Server.step) Server.start events s) :
    ∃ steps, Runs (Enabled step) start steps ⟨s,fun _ => .idle,fun _ => none⟩ ∧
      ∀ session, received session steps = Server.handled session events := by
  induction path with
  | nil => exact ⟨[],.nil,fun _ => rfl⟩
  | @step earlier middle event next _ taken ih =>
    obtain ⟨steps,before,packets⟩ := ih
    have plain (event : Event) (step : WorkerEvent)
        (goes : Workers.step ⟨middle,fun _ => .idle,fun _ => none⟩ step = some ⟨next,fun _ => .idle,fun _ => none⟩)
        (quiet : ∀ session, received session [step] = []) (quietThere : ∀ session, Server.handled session [event] = []) :
        ∃ steps, Runs (Enabled Workers.step) start steps ⟨next,fun _ => .idle,fun _ => none⟩ ∧
          ∀ session, received session steps = Server.handled session (earlier ++ [event]) := by
      refine ⟨steps ++ [step],before.append (.single goes),fun session => ?_⟩
      have same := packets session
      simp only [received,Server.handled,List.filterMap_append] at same quiet quietThere ⊢
      rw [same,quiet,quietThere]
    cases event with
    | connect worker session =>
      exact plain _ (.connect worker session) (Option.map_eq_some_iff.mpr ⟨next,taken,rfl⟩) (fun _ => rfl) fun _ => rfl
    | disconnect session =>
      refine plain _ (.disconnect session) ?_ (fun _ => rfl) fun _ => rfl
      simp only [Workers.step,if_true]
      exact Option.map_eq_some_iff.mpr ⟨next,taken,rfl⟩
    | destroy session =>
      refine plain _ (.destroy session) ?_ (fun _ => rfl) fun _ => rfl
      simp only [Workers.step,if_true]
      exact Option.map_eq_some_iff.mpr ⟨next,taken,rfl⟩
    | packet worker session pkt =>
      have connected := (Server.step_session taken).1
      cases done : middle.handlePacket worker session pkt with
      | error fault => simp [Enabled,Server.step,done,connected,Except.map,Except.toOption] at taken
      | ok result =>
        obtain ⟨answer,after⟩ := result
        simp only [Enabled,Server.step,done,connected,if_true,Except.map,Except.toOption] at taken
        cases taken
        have called : Runs (Enabled Workers.step) ⟨middle,fun _ => .idle,fun _ => none⟩ [.receive session pkt]
            (alone middle session (.called pkt)) := by
          refine .single ?_
          simp only [Enabled,Workers.step,connected,and_self,if_true]
          rw [← @alone_idle middle session,alone_becomes]
        obtain ⟨more,goes,quiet⟩ := returns_runs (handlePacket_returns done)
        refine ⟨steps ++ ([.receive session pkt] ++ more),before.append (called.append goes),fun other => ?_⟩
        have same := packets other
        have none := quiet other
        simp only [received,Server.handled,List.filterMap_append] at same none ⊢
        rw [same,none,List.append_nil]
        rfl

theorem whole_handlers_run_hall : ∃ s steps, Runs (Enabled Server.step) Server.start
      [.connect 0 0,.packet 1 0 (.cSetNickname (ascii "ann")),.packet 1 0 (.cCreateRoom (ascii "hall") 4)] s ∧
    Runs (Enabled step) start steps ⟨s,fun _ => .idle,fun _ => none⟩ ∧
    received 0 steps = [.cSetNickname (ascii "ann"),.cCreateRoom (ascii "hall") 4] := by
  obtain ⟨s,path⟩ : ∃ s, Runs (Enabled Server.step) Server.start
    [.connect 0 0,.packet 1 0 (.cSetNickname (ascii "ann")),.packet 1 0 (.cCreateRoom (ascii "hall") 4)] s := ⟨_,execute_runs rfl⟩
  obtain ⟨steps,goes,packets⟩ := whole_handlers_run path
  exact ⟨s,steps,path,goes,packets 0⟩

end Workers
end IocpChatServer.GameServer
