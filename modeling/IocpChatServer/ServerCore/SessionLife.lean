import Mathlib.Data.Finset.Card
import IocpChatServer.ServerCore.SendEvent

namespace IocpChatServer.ServerCore.SessionLife
open Foundations TransitionSystem SessionSend

-- Where a thread is in the completion of a connect, a recv or a disconnect. As for the sends,
-- each position is one access to what the threads share. `recvError` and `disconnecting` are
-- calls of Disconnect, from HandleError in RegisterRecv and from the Process functions.
inductive Place where
  | outside
  | connectStore (failed : Bool)
  | addSession
  | onConnected
  | recvConnected
  | recvOwner
  | wsaRecv
  | recvError
  | recvFailOwner
  | processRecv (numOfBytes : Nat)
  | onRecv
  | disconnecting
  | processDisconnect
  | onDisconnected
  | releaseSession
  deriving DecidableEq, Repr

inductive Stage where
  | owner | disconnectEx | failOwner
  deriving DecidableEq, Repr

inductive Milestone where
  | added | disconnectEx | onDisconnected
  deriving DecidableEq, Repr

-- A session: `send` has `_connected`, the sends and the calls of Disconnect, with the owner of
-- the send event. `connecting` is the accept or connect completion that runs ProcessConnect.
-- `history` records AddSession, each DisconnectEx accepted and each OnDisconnected.
structure Life (Thread Buffer : Type _) where
  send : SessionSend.State Thread Buffer
  connecting : Bool
  recvOwner : Bool
  recvOutstanding : Nat
  disconnectOwner : Bool
  disconnectOutstanding : Nat
  place : Thread → Place
  stage : Thread → Stage
  history : List Milestone

-- What the code does not decide: besides what happens to the sends, the completions, how
-- WSARecv and DisconnectEx come back, and whether the received bytes are taken.
inductive Choice (Buffer : Type _) where
  | send (choice : SessionSend.Choice Buffer)
  | connect (failed : Bool)
  | completeRecv (numOfBytes : Nat)
  | completeDisconnect
  | wsaRecv (errorCode : Option Int)
  | disconnectEx (errorCode : Option Int)
  | onRecv (taken : Bool)
  | go
  deriving DecidableEq, Repr

inductive Effect where
  | none | addSession | releaseSession | nullOwner
  deriving DecidableEq, Repr

def failsAtOnce : Option Int → Bool
  | some errorCode => errorCode ≠ wsaIoPending
  | none => false

-- HandleError calls Disconnect for these two.
def resets : Option Int → Bool
  | some errorCode => errorCode = wsaeConnReset ∨ errorCode = wsaeConnAborted
  | none => false

variable {Thread Buffer : Type _} [DecidableEq Thread]

namespace Life

def start : Life Thread Buffer :=
  ⟨{State.start with connected := false},true,false,0,false,0,fun _ => .outside,fun _ => .owner,[]⟩

def goto (s : Life Thread Buffer) (t : Thread) (place : Place) : Life Thread Buffer :=
  {s with place := Function.update s.place t place}

def setStage (s : Life Thread Buffer) (t : Thread) (stage : Stage) : Life Thread Buffer :=
  {s with stage := Function.update s.stage t stage}

def storeConnected (s : Life Thread Buffer) (connected : Bool) : Life Thread Buffer :=
  {s with send := {s.send with connected := connected}}

def disconnect (s : Life Thread Buffer) (t : Thread) : Life Thread Buffer :=
  {s with send := s.send.goto t (.disconnect .outside)}

def idle (s : Life Thread Buffer) (t : Thread) : Bool :=
  match s.send.position t with
  | .outside => true
  | _ => false

end Life

-- The sends, with RegisterDisconnect written out. Dispatch takes the owner of the event: a
-- completion is handled from then on.
def stepSend (s : Life Thread Buffer) (t : Thread) (choice : SessionSend.Choice Buffer) : Option (Effect × Life Thread Buffer) :=
  if Registers (s.send.position t) then
    match s.stage t,choice with
    | .owner,.go => some (.none,{s with disconnectOwner := true}.setStage t .disconnectEx)
    | .failOwner,.go => (SessionSend.step s.send (t,.go)).map fun send =>
        (.none,{s with send := send,disconnectOwner := false}.setStage t .owner)
    | _,_ => none
  else (SessionSend.step s.send (t,choice)).map fun send =>
    match choice with
    | .complete _ _ => if s.send.owner = false then (.nullOwner,s) else (.none,{s with send := send})
    | _ => (.none,{s with send := send})

def disconnectEx (s : Life Thread Buffer) (t : Thread) (errorCode : Option Int) : Option (Effect × Life Thread Buffer) :=
  if Registers (s.send.position t) ∧ s.stage t = .disconnectEx then
    if failsAtOnce errorCode then some (.none,s.setStage t .failOwner)
    else (SessionSend.step s.send (t,.go)).map fun send => (.none,{s with
      send := send
      disconnectOutstanding := s.disconnectOutstanding + 1
      history := s.history ++ [Milestone.disconnectEx]}.setStage t .owner)
  else none

-- ProcessConnect, ProcessRecv with RegisterRecv, and ProcessDisconnect. A thread in a callback
-- may go through Send and Disconnect before it goes on; OnSend's calls are another thread's.
def process (s : Life Thread Buffer) (t : Thread) (choice : Choice Buffer) : Option (Effect × Life Thread Buffer) :=
  match s.place t,choice with
  | .outside,.connect failed =>
    if s.connecting then some (.none,{s with connecting := false}.goto t (.connectStore failed)) else none
  | .outside,.completeRecv numOfBytes =>
    if s.recvOutstanding = 0 then none
    else if s.recvOwner = false then some (.nullOwner,s)
    else some (.none,{s with recvOutstanding := s.recvOutstanding - 1}.goto t (.processRecv numOfBytes))
  | .outside,.completeDisconnect =>
    if s.disconnectOutstanding = 0 then none
    else if s.disconnectOwner = false then some (.nullOwner,s)
    else some (.none,{s with disconnectOutstanding := s.disconnectOutstanding - 1}.goto t .processDisconnect)
  | .connectStore true,.go => some (.none,((s.storeConnected false).disconnect t).goto t .disconnecting)
  | .connectStore false,.go => some (.none,(s.storeConnected true).goto t .addSession)
  | .addSession,.go => some (.addSession,{s with history := s.history ++ [Milestone.added]}.goto t .onConnected)
  | .onConnected,.go => some (.none,s.goto t .recvConnected)
  | .recvConnected,.go =>
    if s.send.connected = false then some (.none,s.goto t .outside) else some (.none,s.goto t .recvOwner)
  | .recvOwner,.go => some (.none,{s with recvOwner := true}.goto t .wsaRecv)
  | .wsaRecv,.wsaRecv errorCode =>
    if failsAtOnce errorCode then
      if resets errorCode then some (.none,(s.disconnect t).goto t .recvError) else some (.none,s.goto t .recvFailOwner)
    else some (.none,{s with recvOutstanding := s.recvOutstanding + 1}.goto t .outside)
  | .recvError,.go => some (.none,s.goto t .recvFailOwner)
  | .recvFailOwner,.go => some (.none,{s with recvOwner := false}.goto t .outside)
  | .processRecv numOfBytes,.go =>
    let cleared := {s with recvOwner := false}
    if numOfBytes = 0 then some (.none,(cleared.disconnect t).goto t .disconnecting) else some (.none,cleared.goto t .onRecv)
  | .onRecv,.onRecv taken =>
    if taken then some (.none,s.goto t .recvConnected) else some (.none,(s.disconnect t).goto t .disconnecting)
  | .disconnecting,.go => some (.none,s.goto t .outside)
  | .processDisconnect,.go => some (.none,{s with disconnectOwner := false}.goto t .onDisconnected)
  | .onDisconnected,.go => some (.none,{s with history := s.history ++ [Milestone.onDisconnected]}.goto t .releaseSession)
  | .releaseSession,.go => some (.releaseSession,s.goto t .outside)
  | _,_ => none

def stepLife (s : Life Thread Buffer) (t : Thread) : Choice Buffer → Option (Effect × Life Thread Buffer)
  | .send choice => stepSend s t choice
  | .disconnectEx errorCode => disconnectEx s t errorCode
  | choice => if s.idle t then process s t choice else none

def Receiving : Place → Prop
  | .outside | .processDisconnect | .onDisconnected | .releaseSession => False
  | _ => True

def Disconnected : Place → Prop
  | .processDisconnect | .onDisconnected | .releaseSession => True
  | _ => False

def Early : Place → Prop
  | .connectStore _ | .addSession => True
  | _ => False

def RecvOwned : Place → Prop
  | .wsaRecv | .recvError | .recvFailOwner | .processRecv _ => True
  | _ => False

def Failing : Place → Prop
  | .recvError | .recvFailOwner | .disconnecting => True
  | _ => False

inductive Does (s : Life Thread Buffer) (t : Thread) : Choice Buffer → Effect → Life Thread Buffer → Prop where
  | sends (off : ¬ Registers (s.send.position t)) (taken : SessionSend.step s.send (t,choice) = some send) :
      Does s t (.send choice) .none {s with send := send}
  | sendsNull (posted : s.send.outstanding ≠ []) (unset : s.send.owner = false) : Does s t (.send choice) .nullOwner s
  | registers (at_ : Registers (s.send.position t)) (stage : s.stage t = .owner) :
      Does s t (.send .go) .none ({s with disconnectOwner := true}.setStage t .disconnectEx)
  | refused (at_ : Registers (s.send.position t)) (stage : s.stage t = .disconnectEx) (fails : failsAtOnce errorCode = true) :
      Does s t (.disconnectEx errorCode) .none (s.setStage t .failOwner)
  | abandoned (at_ : s.send.position t = .registerDisconnect return_) (stage : s.stage t = .failOwner) :
      Does s t (.send .go) .none ({s with send := s.send.goto t (after return_),disconnectOwner := false}.setStage t .owner)
  | posted (at_ : s.send.position t = .registerDisconnect return_) (stage : s.stage t = .disconnectEx) :
      Does s t (.disconnectEx errorCode) .none ({s with
        send := s.send.goto t (after return_)
        disconnectOutstanding := s.disconnectOutstanding + 1
        history := s.history ++ [Milestone.disconnectEx]}.setStage t .owner)
  | connects (free : s.place t = .outside) (pending : s.connecting = true) :
      Does s t (.connect failed) .none ({s with connecting := false}.goto t (.connectStore failed))
  | recvCompleted (free : s.place t = .outside) (pending : 0 < s.recvOutstanding) (set : s.recvOwner = true) :
      Does s t (.completeRecv numOfBytes) .none
        ({s with recvOutstanding := s.recvOutstanding - 1}.goto t (.processRecv numOfBytes))
  | recvNull (pending : 0 < s.recvOutstanding) (unset : s.recvOwner = false) :
      Does s t (.completeRecv numOfBytes) .nullOwner s
  | disconnectCompleted (free : s.place t = .outside) (pending : 0 < s.disconnectOutstanding) (set : s.disconnectOwner = true) :
      Does s t .completeDisconnect .none
        ({s with disconnectOutstanding := s.disconnectOutstanding - 1}.goto t .processDisconnect)
  | disconnectNull (pending : 0 < s.disconnectOutstanding) (unset : s.disconnectOwner = false) :
      Does s t .completeDisconnect .nullOwner s
  | connectFailed (idle : s.idle t = true) (at_ : s.place t = .connectStore true) :
      Does s t .go .none (((s.storeConnected false).disconnect t).goto t .disconnecting)
  | connected (idle : s.idle t = true) (at_ : s.place t = .connectStore false) :
      Does s t .go .none ((s.storeConnected true).goto t .addSession)
  | added (idle : s.idle t = true) (at_ : s.place t = .addSession) :
      Does s t .go .addSession ({s with history := s.history ++ [Milestone.added]}.goto t .onConnected)
  | walks (place : Place) (receiving : Receiving (s.place t)) (late : ¬ Early (s.place t)) (goes : Receiving place) (lateToo : ¬ Early place)
      (going : ¬ Failing place) (recvOwner : Bool) (owned : RecvOwned place → recvOwner = true) :
      Does s t choice .none ({s with recvOwner := recvOwner}.goto t place)
  | calls (idle : s.idle t = true) (receiving : Receiving (s.place t)) (late : ¬ Early (s.place t)) (recvOwner : Bool)
      (to_ : place = .disconnecting ∨ place = .recvError ∧ recvOwner = s.recvOwner ∧ RecvOwned (s.place t)) :
      Does s t choice .none (({s with recvOwner := recvOwner}.disconnect t).goto t place)
  | recvRefused (at_ : s.place t = .wsaRecv) (fails : failsAtOnce errorCode = true) (other : resets errorCode = false) :
      Does s t (.wsaRecv errorCode) .none (s.goto t .recvFailOwner)
  | handled (idle : s.idle t = true) (at_ : s.place t = .recvError) : Does s t .go .none (s.goto t .recvFailOwner)
  | recvPosted (at_ : s.place t = .wsaRecv) :
      Does s t (.wsaRecv errorCode) .none ({s with recvOutstanding := s.recvOutstanding + 1}.goto t .outside)
  | leaves (idle : s.idle t = true) (recvOwner : Bool) (at_ : s.place t = .recvConnected ∧ s.send.connected = false ∨
      s.place t = .recvFailOwner ∨ s.place t = .disconnecting) :
      Does s t .go .none ({s with recvOwner := recvOwner}.goto t .outside)
  | disconnects (at_ : s.place t = .processDisconnect) :
      Does s t .go .none ({s with disconnectOwner := false}.goto t .onDisconnected)
  | onDisconnected (at_ : s.place t = .onDisconnected) :
      Does s t .go .none ({s with history := s.history ++ [Milestone.onDisconnected]}.goto t .releaseSession)
  | released (at_ : s.place t = .releaseSession) : Does s t .go .releaseSession (s.goto t .outside)

variable {s next : Life Thread Buffer} {t : Thread} {choice : Choice Buffer} {effect : Effect}

theorem registers_returns {send next : SessionSend.State Thread Buffer} (at_ : Registers (send.position t))
    (taken : SessionSend.step send (t,.go) = some next) :
    ∃ return_, send.position t = .registerDisconnect return_ ∧ next = send.goto t (after return_) := by
  cases position : send.position t with
  | registerDisconnect return_ =>
    refine ⟨return_,rfl,?_⟩
    simp only [SessionSend.step,position] at taken
    split at taken
    · cases taken
    · simp only [proceed,position] at taken
      exact (Option.some.inj taken).symm
  | _ =>
    rw [position] at at_
    exact absurd at_ id

theorem complete_outstanding {send next : SessionSend.State Thread Buffer} {index numOfBytes : Nat}
    (taken : SessionSend.step send (t,.complete index numOfBytes) = some next) : send.outstanding ≠ [] := by
  simp only [SessionSend.step] at taken
  split at taken
  · cases taken
  · split at taken
    · simp only [enter] at taken
      split at taken
      · rename_i known
        exact List.ne_nil_of_length_pos (Nat.zero_lt_of_lt known)
      · cases taken
    · rename_i impossible
      cases impossible
    · rename_i impossible _
      cases impossible
    · cases taken

theorem stepSend_does {choice : SessionSend.Choice Buffer} (taken : stepSend s t choice = some (effect,next)) :
    Does s t (.send choice) effect next := by
  unfold stepSend at taken
  split at taken
  · rename_i at_
    split at taken
    · rename_i stage
      cases taken
      exact .registers at_ stage
    · rename_i stage
      obtain ⟨send,went,same⟩ := Option.map_eq_some_iff.mp taken
      obtain ⟨return_,at_,rfl⟩ := registers_returns at_ went
      cases same
      exact .abandoned at_ stage
    · cases taken
  · rename_i off
    obtain ⟨send,went,same⟩ := Option.map_eq_some_iff.mp taken
    split at same
    · split at same
      · rename_i unset
        cases same
        exact .sendsNull (complete_outstanding went) unset
      · cases same
        exact .sends off went
    · cases same
      exact .sends off went

theorem disconnectEx_does {errorCode : Option Int} (taken : disconnectEx s t errorCode = some (effect,next)) :
    Does s t (.disconnectEx errorCode) effect next := by
  unfold disconnectEx at taken
  split at taken
  · rename_i ready
    obtain ⟨at_,stage⟩ := ready
    split at taken
    · rename_i fails
      cases taken
      exact .refused at_ stage fails
    · obtain ⟨send,went,same⟩ := Option.map_eq_some_iff.mp taken
      obtain ⟨return_,at_,rfl⟩ := registers_returns at_ went
      cases same
      exact .posted at_ stage
  · cases taken

theorem process_does (idle : s.idle t = true) (taken : process s t choice = some (effect,next)) :
    Does s t choice effect next := by
  unfold process at taken
  split at taken
  · rename_i free
    split at taken
    · rename_i pending
      cases taken
      exact .connects free pending
    · cases taken
  · rename_i free
    split at taken
    · cases taken
    · rename_i pending
      split at taken
      · rename_i unset
        cases taken
        exact .recvNull (Nat.pos_of_ne_zero pending) unset
      · rename_i set
        cases taken
        exact .recvCompleted free (Nat.pos_of_ne_zero pending) (by simpa using set)
  · rename_i free
    split at taken
    · cases taken
    · rename_i pending
      split at taken
      · rename_i unset
        cases taken
        exact .disconnectNull (Nat.pos_of_ne_zero pending) unset
      · rename_i set
        cases taken
        exact .disconnectCompleted free (Nat.pos_of_ne_zero pending) (by simpa using set)
  · rename_i at_
    cases taken
    exact .connectFailed idle at_
  · rename_i at_
    cases taken
    exact .connected idle at_
  · rename_i at_
    cases taken
    exact .added idle at_
  · rename_i at_
    cases taken
    exact .walks .recvConnected (by rw [at_]; trivial) (by rw [at_]; exact id) trivial id id s.recvOwner False.elim
  · rename_i at_
    split at taken
    · rename_i off
      cases taken
      exact .leaves idle s.recvOwner (.inl ⟨at_,off⟩)
    · cases taken
      exact .walks .recvOwner (by rw [at_]; trivial) (by rw [at_]; exact id) trivial id id s.recvOwner False.elim
  · rename_i at_
    cases taken
    exact .walks .wsaRecv (by rw [at_]; trivial) (by rw [at_]; exact id) trivial id id true fun _ => rfl
  · rename_i at_
    split at taken
    · rename_i fails
      split at taken
      · cases taken
        exact .calls idle (by rw [at_]; trivial) (by rw [at_]; exact id) s.recvOwner (.inr ⟨rfl,rfl,by rw [at_]; trivial⟩)
      · rename_i other
        cases taken
        exact .recvRefused at_ fails (by simpa using other)
    · cases taken
      exact .recvPosted at_
  · rename_i at_
    cases taken
    exact .handled idle at_
  · rename_i at_
    cases taken
    exact .leaves idle false (.inr (.inl at_))
  · rename_i at_
    split at taken
    · cases taken
      exact .calls idle (by rw [at_]; trivial) (by rw [at_]; exact id) false (.inl rfl)
    · cases taken
      exact .walks .onRecv (by rw [at_]; trivial) (by rw [at_]; exact id) trivial id id false False.elim
  · rename_i at_
    split at taken
    · cases taken
      exact .walks .recvConnected (by rw [at_]; trivial) (by rw [at_]; exact id) trivial id id s.recvOwner False.elim
    · cases taken
      exact .calls idle (by rw [at_]; trivial) (by rw [at_]; exact id) s.recvOwner (.inl rfl)
  · rename_i at_
    cases taken
    exact .leaves idle s.recvOwner (.inr (.inr at_))
  · rename_i at_
    cases taken
    exact .disconnects at_
  · rename_i at_
    cases taken
    exact .onDisconnected at_
  · rename_i at_
    cases taken
    exact .released at_
  · cases taken

theorem stepLife_does (taken : stepLife s t choice = some (effect,next)) : Does s t choice effect next := by
  unfold stepLife at taken
  split at taken
  · exact stepSend_does taken
  · exact disconnectEx_does taken
  · split at taken
    · rename_i idle
      exact process_does idle taken
    · cases taken

inductive Crash where
  | nullOwner | releaseAssert
  deriving DecidableEq, Repr

-- The Service: `sessionCount` is an int32, and there is no room for 2^31 sessions.
structure Service (Session Thread Buffer : Type _) where
  session : Session → Life Thread Buffer
  sessions : Finset Session
  sessionCount : Int
  crashed : Option Crash

namespace Service
variable {Session : Type _} [DecidableEq Session]

def start : Service Session Thread Buffer := ⟨fun _ => .start,∅,0,none⟩

def step (s : Service Session Thread Buffer) (event : Session × Thread × Choice Buffer) : Option (Service Session Thread Buffer) :=
  if s.crashed ≠ none then none
  else match stepLife (s.session event.1) event.2.1 event.2.2 with
  | none => none
  | some (effect,life) =>
    let moved := {s with session := Function.update s.session event.1 life}
    match effect with
    | .none => some moved
    | .addSession => some {moved with sessions := insert event.1 s.sessions,sessionCount := s.sessionCount + 1}
    | .releaseSession =>
      if event.1 ∈ s.sessions then some {moved with sessions := s.sessions.erase event.1,sessionCount := s.sessionCount - 1}
      else some {s with crashed := some .releaseAssert}
    | .nullOwner => some {s with crashed := some .nullOwner}

end Service
end IocpChatServer.ServerCore.SessionLife
