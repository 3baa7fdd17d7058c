import IocpChatServer.GameServer.CallsUnderWay

namespace IocpChatServer.GameServer
open Std ServerCore Protocol Foundations Table TransitionSystem

def newsTo (sent : List (SessionRef × ServerPacket)) (roomId : UInt64) (session : SessionRef) : List ServerPacket :=
  (sent.filter fun entry => entry.1 = session ∧ entry.2.newsOf = some roomId).map (·.2)

-- What a worker in the room's section has still to push to a session.
def Handling.owes (w : World) (session : SessionRef) : Handling → List ServerPacket
  | .pushing _ _ sendBuffer recipients =>
    (recipients.filter fun entry => (w.players entry.1).ownerSession = some session).map fun _ => sendBuffer
  | .idle | .called _ | .named _ _ | .owned _ | .roomAdded | .listing _ _ _ | .answering _ | .joining _ _ _ | .entering _ _ _ _
  | .nowhere _ _ | .entered _ _ _ | .seating _ _ | .chatting _ _ _ | .leaving _ _ _ | .exiting _ _ _ _ | .left _ | .unseating _ => []

namespace Workers
variable (c : Workers)

-- Whose packet the worker has that is in the section of the room with this id.
def teller (roomId : UInt64) : Option SessionRef := (c.server.world.getRoom roomId).bind c.lock

def untold (roomId : UInt64) (session : SessionRef) : List ServerPacket :=
  (c.teller roomId).elim [] fun holder => (c.call holder).owes c.server.world session

-- `sent` is what one handler after the other has pushed, all of a section at once. Of that a
-- session lacks what the worker that is there has still to push, or what it was too late for.
structure Told (sent : List (SessionRef × ServerPacket)) : Prop where
  locked : ∀ room session, c.lock room = some session ↔ (c.call session).holds = some room
  present : ∀ p session, (c.server.world.players p).ownerSession = some session → c.server.session session ≠ .absent
  silent : ∀ session, c.server.session session = .absent → ∀ roomId, newsTo sent roomId session = []
  told : ∀ roomId session, ∃ rest, newsTo sent roomId session = newsTo c.server.sent roomId session ++ rest ∧
    (c.server.session session = .connected → rest = c.untold roomId session)

end Workers

section News
variable {s : Server} {sent more : List (SessionRef × ServerPacket)} {roomId : UInt64} {session other : SessionRef} {message : ServerPacket}
  {p : PlayerRef} {players : List PlayerRef}

theorem newsTo_append : newsTo (sent ++ more) roomId session = newsTo sent roomId session ++ newsTo more roomId session := by
  simp [newsTo]

theorem newsTo_roomNews : newsTo (roomNews sent) roomId session = newsTo sent roomId session := by
  unfold newsTo roomNews
  rw [List.filter_filter]
  congr 1
  refine List.filter_congr fun entry _ => ?_
  obtain ⟨receiver,message⟩ := entry
  cases message <;> simp [ServerPacket.newsOf,ServerPacket.isRoomNews]

theorem newsTo_same (same : roomNews sent = roomNews more) : newsTo sent roomId session = newsTo more roomId session := by
  rw [← newsTo_roomNews,same,newsTo_roomNews]

theorem toOwner_owned (owned : (s.world.players p).ownerSession = some other) : s.toOwner p message = s.delivery other message := by
  unfold Server.toOwner Server.lock
  rw [owned]
  by_cases gone : s.session other = .destroyed
  · simp [Option.filter,gone,Server.delivery]
  · simp [Option.filter,gone]

theorem toOwner_connected (about : message.newsOf = some roomId) (up : s.session session = .connected) :
    newsTo (s.toOwner p message) roomId session = if (s.world.players p).ownerSession = some session then [message] else [] := by
  cases owned : (s.world.players p).ownerSession with
  | none =>
    unfold Server.toOwner Server.lock
    rw [owned]
    rfl
  | some owner =>
    rw [toOwner_owned owned,Server.delivery]
    by_cases same : owner = session
    · subst same
      simp [newsTo,up,about]
    · split <;> simp [newsTo,same]

theorem toOwner_elsewhere (about : message.newsOf ≠ some roomId) : newsTo (s.toOwner p message) roomId session = [] := by
  unfold newsTo
  rw [List.map_eq_nil_iff,List.filter_eq_nil_iff]
  rintro ⟨receiver,got⟩ member
  simp [Server.toOwner_message member,about]

theorem toOwner_down (down : s.session session ≠ .connected) : newsTo (s.toOwner p message) roomId session = [] := by
  unfold Server.toOwner Server.delivery
  split
  · split
    · rename_i owner _ up
      have other : owner ≠ session := fun same => down (same ▸ up)
      simp [newsTo,other]
    · rfl
  · rfl

theorem toOwners_cons : s.toOwners (p :: players) message = s.toOwner p message ++ s.toOwners players message := rfl

theorem toOwners_connected {recipients : List (PlayerRef × Bool)} (about : message.newsOf = some roomId)
    (up : s.session session = .connected) :
    newsTo (s.toOwners (recipients.map (·.1)) message) roomId session =
      (recipients.filter fun entry => (s.world.players entry.1).ownerSession = some session).map fun _ => message := by
  induction recipients with
  | nil => rfl
  | cons entry rest ih =>
    rw [List.map_cons,toOwners_cons,newsTo_append,ih,toOwner_connected about up]
    by_cases mine : (s.world.players entry.1).ownerSession = some session <;> simp [mine]

theorem toOwners_elsewhere (about : message.newsOf ≠ some roomId) : newsTo (s.toOwners players message) roomId session = [] := by
  induction players with
  | nil => rfl
  | cons p players ih => rw [toOwners_cons,newsTo_append,ih,toOwner_elsewhere about,List.append_nil]

theorem toOwners_down (down : s.session session ≠ .connected) : newsTo (s.toOwners players message) roomId session = [] := by
  induction players with
  | nil => rfl
  | cons p players ih => rw [toOwners_cons,newsTo_append,ih,toOwner_down down,List.append_nil]

end News

theorem Handling.Sound.holds {w : World} {session : SessionRef} {call : Handling} {room : RoomRef} (sound : call.Sound w session)
    (holds : call.holds = some room) : ∃ loop sendBuffer recipients, call = .pushing room loop sendBuffer recipients ∧
      w.Tells room sendBuffer recipients := by
  cases call with
  | pushing there loop sendBuffer recipients =>
    cases holds
    refine ⟨loop,sendBuffer,recipients,rfl,?_⟩
    cases loop with
    | enter | leave => exact sound.1
    | broadcast => exact sound
  | idle | called | named | owned | roomAdded | listing | answering | joining | entering | nowhere | entered | seating | chatting
  | leaving | exiting | left | unseating => cases holds

theorem Handling.Sound.owes_kept {w next : World} {session other : SessionRef} {call : Handling} {others : PlayerRef → Prop}
    (sound : call.Sound w session) (keeps : Undisturbed w next others) : call.owes next other = call.owes w other := by
  cases call with
  | pushing room loop sendBuffer recipients =>
    obtain ⟨_,_,_,same,tells⟩ := sound.holds rfl
    cases same
    refine congrArg (List.map _) (List.filter_congr fun entry member => ?_)
    obtain ⟨owner,id,owns⟩ := tells.owned entry member
    rw [owns.2,(keeps.owned owner id entry.1 owns).2]
  | idle | called | named | owned | roomAdded | listing | answering | joining | entering | nowhere | entered | seating | chatting
  | leaving | exiting | left | unseating => rfl

theorem Handling.owes_nobody {w : World} {session : SessionRef} (nobody : ∀ p, (w.players p).ownerSession ≠ some session)
    (call : Handling) : call.owes w session = [] := by
  cases call with
  | pushing room loop sendBuffer recipients => simp [Handling.owes,nobody]
  | idle | called | named | owned | roomAdded | listing | answering | joining | entering | nowhere | entered | seating | chatting
  | leaving | exiting | left | unseating => rfl

namespace Workers
variable {c : Workers} {server : Server} {session other : SessionRef} {call : Handling} {sent news : List (SessionRef × ServerPacket)}
  {room : RoomRef} {roomId : UInt64} {others : PlayerRef → Prop}

theorem becomes_locked (locked : ∀ room other, c.lock room = some other ↔ (c.call other).holds = some room)
    (free : ∀ room, call.holds = some room → c.lock room = none ∨ c.lock room = some session) (room : RoomRef) (other : SessionRef) :
    (c.becomes server session call).lock room = some other ↔ ((c.becomes server session call).call other).holds = some room := by
  by_cases same : other = session
  · subst same
    simp only [becomes,Function.update_self]
    split
    · rename_i holds
      exact ⟨fun _ => holds,fun _ => rfl⟩
    · rename_i holds
      refine ⟨fun has => absurd has ?_,fun has => absurd has holds⟩
      split
      · exact fun none => by cases none
      · rename_i others
        exact others
  · simp only [becomes,Function.update_of_ne same,← locked]
    split
    · rename_i holds
      refine ⟨fun mine => absurd (Option.some.inj mine).symm same,fun theirs => ?_⟩
      rcases free room holds with unlocked | mine
      · rw [unlocked] at theirs
        cases theirs
      · rw [mine] at theirs
        exact absurd (Option.some.inj theirs).symm same
    · split
      · rename_i mine
        rw [mine]
        exact iff_of_false (Option.some_ne_none other).symm fun theirs => same (Option.some.inj theirs).symm
      · rfl

theorem untold_elsewhere (sound : ∀ session, (c.call session).Sound c.server.world session)
    (keeps : Undisturbed c.server.world server.world others) (tellers : (c.becomes server session call).teller roomId = c.teller roomId)
    (apart : c.teller roomId ≠ some session) :
    (c.becomes server session call).untold roomId other = c.untold roomId other := by
  unfold untold
  rw [tellers]
  cases tells : c.teller roomId with
  | none => rfl
  | some holder =>
    have different : holder ≠ session := fun same => apart (by rw [tells,same])
    simp only [Option.elim_some,becomes,Function.update_of_ne different]
    exact (sound holder).owes_kept keeps

theorem Told.teller_in (told : c.Told sent) (sound : ∀ session, (c.call session).Sound c.server.world session)
    (tells : c.teller roomId = some session) : ∃ room loop sendBuffer recipients, c.server.world.getRoom roomId = some room ∧
      c.call session = .pushing room loop sendBuffer recipients ∧ c.server.world.Tells room sendBuffer recipients := by
  obtain ⟨room,listed,locked⟩ := Option.bind_eq_some_iff.mp tells
  obtain ⟨loop,sendBuffer,recipients,there,tells⟩ := (sound session).holds ((told.locked room session).mp locked)
  exact ⟨room,loop,sendBuffer,recipients,listed,there,tells⟩

theorem Told.still (told : c.Told sent) (sound : ∀ session, (c.call session).Sound c.server.world session)
    (there : roomNews news = roomNews sent) (here : roomNews server.sent = roomNews c.server.sent)
    (sessions : server.session = c.server.session) (keeps : Undisturbed c.server.world server.world others)
    (rooms : ∀ roomId room, server.world.getRoom roomId = some room → c.server.world.getRoom roomId = some room ∨ c.lock room = none)
    (owners : ∀ p owner, (server.world.players p).ownerSession = some owner → (c.server.world.players p).ownerSession = some owner ∨ owner = session)
    (outside : (c.call session).holds = none ∧ call.holds = none) (up : c.server.session session = .connected) :
    (c.becomes server session call).Told news := by
  have unlocked (room : RoomRef) : c.lock room ≠ some session := fun mine => by
    rw [told.locked,outside.1] at mine
    cases mine
  have locks : (c.becomes server session call).lock = c.lock := by
    funext room
    simp only [becomes,outside.2,reduceCtorEq,if_false,unlocked]
  have tellers (roomId : UInt64) : (c.becomes server session call).teller roomId = c.teller roomId := by
    unfold teller
    rw [locks]
    cases before : c.server.world.getRoom roomId with
    | some room => rw [show (c.becomes server session call).server.world.getRoom roomId = some room from (keeps.listed roomId room before).1]
    | none =>
      cases after : server.world.getRoom roomId with
      | none => rw [show (c.becomes server session call).server.world.getRoom roomId = none from after]
      | some room =>
        rcases rooms roomId room after with old | free
        · rw [before] at old
          cases old
        · rw [show (c.becomes server session call).server.world.getRoom roomId = some room from after]
          exact free
  refine ⟨becomes_locked told.locked fun room holds => ?_,fun p owner owns => ?_,fun other absent roomId => ?_,fun roomId other => ?_⟩
  · rw [outside.2] at holds
    cases holds
  · change server.session owner ≠ .absent
    rw [sessions]
    rcases owners p owner owns with old | rfl
    · exact told.present p owner old
    · rw [up]
      exact SessionState.noConfusion
  · rw [newsTo_same there]
    exact told.silent other (sessions ▸ absent) roomId
  · obtain ⟨rest,same,owed⟩ := told.told roomId other
    refine ⟨rest,?_,fun alive => ?_⟩
    · rw [newsTo_same there,same]
      exact congrArg (· ++ rest) (newsTo_same here).symm
    · have apart : c.teller roomId ≠ some session := fun tells => by
        obtain ⟨room,_,_,_,_,inside,_⟩ := told.teller_in sound tells
        rw [inside] at outside
        cases outside.1
      rw [untold_elsewhere sound keeps (tellers roomId) apart]
      exact owed (sessions ▸ alive)

theorem teller_elsewhere (registry : server.world.manager = c.server.world.manager)
    (alone : ∀ other, c.server.world.getRoom other = some room → other = roomId) (mine : ∀ r, c.lock r = some session → r = room)
    (next : ∀ r, call.holds = some r → r = room) {elsewhere : UInt64} (different : elsewhere ≠ roomId) :
    (c.becomes server session call).teller elsewhere = c.teller elsewhere ∧ c.teller elsewhere ≠ some session := by
  have same : (c.becomes server session call).server.world.getRoom elsewhere = c.server.world.getRoom elsewhere := by
    unfold World.getRoom
    exact congrArg (·.roomIdToRoom[elsewhere]?) registry
  unfold teller
  rw [same]
  cases found : c.server.world.getRoom elsewhere with
  | none => exact ⟨rfl,(Option.some_ne_none _).symm⟩
  | some r =>
    have apart : r ≠ room := fun is => different (alone elsewhere (is ▸ found))
    have unlocked : c.lock r ≠ some session := fun has => apart (mine r has)
    refine ⟨?_,unlocked⟩
    change (if call.holds = some r then some session else if c.lock r = some session then none else c.lock r) = c.lock r
    rw [if_neg fun holds => apart (next r holds),if_neg unlocked]

theorem Told.inside (told : c.Told sent) (sound : ∀ session, (c.call session).Sound c.server.world session)
    (keeps : Undisturbed c.server.world server.world others) (registry : server.world.manager = c.server.world.manager)
    (players : server.world.players = c.server.world.players) (sessions : server.session = c.server.session)
    (alone : ∀ other, c.server.world.getRoom other = some room → other = roomId)
    (mine : ∀ r, c.lock r = some session → r = room) (next : ∀ r, call.holds = some r → r = room)
    (free : call.holds = some room → c.lock room = none ∨ c.lock room = some session)
    (elsewhere : ∀ other session, other ≠ roomId → newsTo news other session = newsTo sent other session ∧
      newsTo server.sent other session = newsTo c.server.sent other session)
    (silent : ∀ other, c.server.session other = .absent → newsTo news roomId other = newsTo sent roomId other)
    (here : ∀ other rest, newsTo sent roomId other = newsTo c.server.sent roomId other ++ rest →
      (c.server.session other = .connected → rest = c.untold roomId other) →
      ∃ more, newsTo news roomId other = newsTo server.sent roomId other ++ more ∧
        (c.server.session other = .connected → more = (c.becomes server session call).untold roomId other)) :
    (c.becomes server session call).Told news := by
  refine ⟨becomes_locked told.locked fun r holds => ?_,fun p owner owns => ?_,fun other absent r => ?_,fun r other => ?_⟩
  · cases next r holds
    exact free holds
  · change server.session owner ≠ .absent
    rw [sessions]
    exact told.present p owner (players ▸ owns)
  · have absent : c.server.session other = .absent := sessions ▸ absent
    by_cases same : r = roomId
    · rw [same,silent other absent]
      exact told.silent other absent roomId
    · rw [(elsewhere r other same).1]
      exact told.silent other absent r
  · obtain ⟨rest,split,owed⟩ := told.told r other
    change ∃ rest, newsTo news r other = newsTo server.sent r other ++ rest ∧ (server.session other = .connected → _)
    rw [sessions]
    by_cases same : r = roomId
    · subst same
      exact here other rest split owed
    · obtain ⟨tellers,apart⟩ := teller_elsewhere registry alone mine next same
      obtain ⟨there,pushed⟩ := elsewhere r other same
      rw [there,pushed,untold_elsewhere sound keeps tellers apart]
      exact ⟨rest,split,owed⟩

-- Into the section: what one handler after the other pushes at once is all still to be pushed.
theorem Told.begins {loop : RoomLoop} {sendBuffer : ServerPacket} {recipients : List (PlayerRef × Bool)} (told : c.Told sent)
    (sound : ∀ session, (c.call session).Sound c.server.world session) (keeps : Undisturbed c.server.world server.world others)
    (registry : server.world.manager = c.server.world.manager) (players : server.world.players = c.server.world.players)
    (sessions : server.session = c.server.session) (alone : ∀ other, c.server.world.getRoom other = some room → other = roomId)
    (outside : (c.call session).holds = none) (free : c.lock room = none) (about : sendBuffer.newsOf = some roomId)
    (listed : c.server.world.getRoom roomId = some room) (pushed : server.sent = c.server.sent)
    (there : roomNews news = roomNews sent ++ roomNews (c.server.toOwners (recipients.map (·.1)) sendBuffer)) :
    (c.becomes server session (.pushing room loop sendBuffer recipients)).Told news := by
  have newsThere (other : UInt64) (receiver : SessionRef) : newsTo news other receiver =
      newsTo sent other receiver ++ newsTo (c.server.toOwners (recipients.map (·.1)) sendBuffer) other receiver := by
    rw [← newsTo_roomNews,there,newsTo_append,newsTo_roomNews,newsTo_roomNews]
  refine told.inside sound keeps registry players sessions alone (fun r mine => ?_) (fun r holds => ?_)
    (fun _ => .inl free) (fun other receiver different => ⟨?_,by rw [pushed]⟩) (fun receiver absent => ?_)
    fun receiver rest split owed => ⟨rest ++ newsTo (c.server.toOwners (recipients.map (·.1)) sendBuffer) roomId receiver,?_,fun up => ?_⟩
  · rw [told.locked,outside] at mine
    cases mine
  · cases holds
    rfl
  · have elsewhere : sendBuffer.newsOf ≠ some other := fun same => different (Option.some.inj (same.symm.trans about))
    rw [newsThere,toOwners_elsewhere elsewhere,List.append_nil]
  · rw [newsThere,toOwners_down (by rw [absent]; exact SessionState.noConfusion),List.append_nil]
  · rw [newsThere,split,pushed,List.append_assoc]
  · have nobody : c.untold roomId receiver = [] := by
      unfold untold teller
      rw [listed,Option.bind_some,free]
      rfl
    have telling : (c.becomes server session (.pushing room loop sendBuffer recipients)).teller roomId = some session := by
      have found : server.world.getRoom roomId = some room := (keeps.listed roomId room listed).1
      unfold teller
      rw [show (c.becomes server session _).server.world.getRoom roomId = some room from found]
      simp [becomes,Handling.holds]
    rw [owed up,nobody,List.nil_append,toOwners_connected about up,untold,telling]
    simp [becomes,Handling.owes,players]

theorem Told.pushes {loop : RoomLoop} {sendBuffer : ServerPacket} {p : PlayerRef} {checked : Bool} {recipients : List (PlayerRef × Bool)}
    (told : c.Told sent) (sound : ∀ session, (c.call session).Sound c.server.world session) (world : server.world = c.server.world)
    (sessions : server.session = c.server.session) (alone : ∀ other, c.server.world.getRoom other = some room → other = roomId)
    (inside : c.call session = .pushing room loop sendBuffer ((p,checked) :: recipients)) (about : sendBuffer.newsOf = some roomId)
    (listed : c.server.world.getRoom roomId = some room) (pushed : server.sent = c.server.sent ++ c.server.toOwner p sendBuffer) :
    (c.becomes server session (.pushing room loop sendBuffer recipients)).Told sent := by
  have locked : c.lock room = some session := (told.locked room session).mpr (by rw [inside]; rfl)
  refine told.inside sound (undisturbed world) (by rw [world]) (by rw [world]) sessions alone
    (fun r mine => ?_) (fun r holds => ?_) (fun _ => .inr locked) (fun other receiver different => ⟨rfl,?_⟩) (fun _ _ => rfl)
    fun receiver rest split owed => ?_
  · rw [told.locked,inside] at mine
    cases mine
    rfl
  · cases holds
    rfl
  · have elsewhere : sendBuffer.newsOf ≠ some other := fun same => different (Option.some.inj (same.symm.trans about))
    rw [pushed,newsTo_append,toOwner_elsewhere elsewhere,List.append_nil]
  · by_cases up : c.server.session receiver = .connected
    · have before : c.untold roomId receiver = newsTo (c.server.toOwner p sendBuffer) roomId receiver ++
          (c.becomes server session (.pushing room loop sendBuffer recipients)).untold roomId receiver := by
        unfold untold teller
        rw [show (c.becomes server session _).server.world.getRoom roomId = some room by rw [becomes,world]; exact listed,listed,
          toOwner_connected about up]
        simp only [Option.bind_some,locked,becomes,Handling.holds,if_true,Option.elim_some,inside,Function.update_self,Handling.owes,
          world,List.filter_cons]
        by_cases mine : (c.server.world.players p).ownerSession = some receiver <;> simp [mine]
      refine ⟨_,?_,fun _ => rfl⟩
      rw [split,owed up,before,pushed,newsTo_append,List.append_assoc]
    · refine ⟨rest,?_,fun alive => absurd alive up⟩
      rw [pushed,newsTo_append,toOwner_down up,List.append_nil]
      exact split

theorem Told.releases {loop : RoomLoop} {sendBuffer : ServerPacket} (told : c.Told sent)
    (sound : ∀ session, (c.call session).Sound c.server.world session)
    (alone : ∀ other, c.server.world.getRoom other = some room → other = roomId)
    (inside : c.call session = .pushing room loop sendBuffer []) (listed : c.server.world.getRoom roomId = some room)
    (outside : call.holds = none) : (c.becomes c.server session call).Told sent := by
  have locked : c.lock room = some session := (told.locked room session).mpr (by rw [inside]; rfl)
  refine told.inside sound (undisturbed rfl) rfl rfl rfl alone
    (fun r mine => ?_) (fun r holds => ?_) (fun _ => .inr locked) (fun _ _ _ => ⟨rfl,rfl⟩) (fun _ _ => rfl)
    fun receiver rest split owed => ⟨rest,split,fun up => ?_⟩
  · rw [told.locked,inside] at mine
    cases mine
    rfl
  · rw [outside] at holds
    cases holds
  · rw [owed up]
    unfold untold teller
    rw [show (c.becomes c.server session call).server.world.getRoom roomId = some room from listed,listed]
    simp [locked,becomes,outside,inside,Handling.owes]

theorem Told.sessions (told : c.Told sent) (there : roomNews news = roomNews sent) (here : roomNews server.sent = roomNews c.server.sent)
    (rooms : server.world.getRoom = c.server.world.getRoom) (players : server.world.players = c.server.world.players)
    (comes : ∀ session, server.session session = .connected → c.server.session session = .connected ∨ c.server.session session = .absent)
    (goes : ∀ session, server.session session = .absent → c.server.session session = .absent) :
    ({c with server := server} : Workers).Told news := by
  refine ⟨told.locked,fun p owner owns absent => ?_,fun session absent roomId => ?_,fun roomId session => ?_⟩
  · exact told.present p owner (players ▸ owns) (goes owner absent)
  · rw [newsTo_same there]
    exact told.silent session (goes session absent) roomId
  · have same : ({c with server := server} : Workers).untold roomId session = c.untold roomId session := by
      unfold untold teller
      simp only [rooms]
      cases (c.server.world.getRoom roomId).bind c.lock with
      | none => rfl
      | some holder =>
        simp only [Option.elim_some]
        cases c.call holder <;> simp [Handling.owes,players]
    obtain ⟨rest,split,owed⟩ := told.told roomId session
    rw [newsTo_same there,newsTo_same here,same]
    refine ⟨rest,split,fun up => ?_⟩
    rcases comes session up with already | new
    · exact owed already
    · -- Nothing has gone to it before, and nobody has anything for it.
      have silent := told.silent session new roomId
      rw [split] at silent
      rw [(List.append_eq_nil_iff.mp silent).2]
      unfold untold
      cases c.teller roomId with
      | none => rfl
      | some holder => exact (Handling.owes_nobody (fun p owns => told.present p session owns new) _).symm

end Workers
end IocpChatServer.GameServer
