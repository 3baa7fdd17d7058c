import IocpChatServer.GameServer.Registry

namespace IocpChatServer.GameServer
open Std ServerCore Protocol Foundations Table Wire TransitionSystem

-- ByteSizeLong in terms of lengths, ids and counts. The maximum of a listed room takes two bytes.
def Room.summarySize (r : Room) : Nat := numberSize r.id.toNat + textSize r.name.length + numberSize r.players.size + 2

def Room.eventSize (r : Room) (p : Player) : Nat :=
  2 + submessageSize r.summarySize + numberSize p.playerId.toNat + textSize p.name.length

def Room.chatSize (r : Room) (self : Protocol.Player) (msg : Bytes) : Nat := submessageSize
  (numberSize r.id.toNat + numberSize self.id.toNat + textSize self.name.length + textSize msg.length)

namespace World

def listSize (w : World) : Nat := (w.getAllRooms.map fun r => submessageSize (w.rooms r).summarySize).sum

def nicknameSize (w : World) (name : Bytes) : Nat :=
  submessageSize (numberSize w.manager.playerId.toNat + textSize name.length)

def Servable (w : World) : ClientPacket → Prop
  | .cSetNickname name => name ∈ w.manager.playerNameToId ∨ w.nicknameSize name ≤ SendThread.maxPayload
  | .cRequestRoomList _ => w.listSize ≤ SendThread.maxPayload
  | .cCreateRoom name _ => name ∈ w.manager.roomNameToId ∨
      submessageSize (Room.summarySize ⟨{},name,w.manager.roomId,16⟩) + w.listSize ≤ SendThread.maxPayload
  | .cJoinRoom roomId player => ∀ room ∈ w.getRoom roomId, ∀ p ∈ w.getPlayer (self player).id,
      (w.rooms room).isFull = true ∨
      Room.eventSize ((w.entered room p).rooms room) (w.players p) ≤ SendThread.maxPayload
  | .cChatRoom msg player => ∀ p ∈ w.getPlayer (self player).id, ∀ room ∈ w.roomOf p,
      (w.rooms room).chatSize (self player) msg ≤ SendThread.maxPayload
  | .cLeaveRoom player _ => ∀ p ∈ w.getPlayer (self player).id, ∀ room ∈ w.roomOf p,
      Room.eventSize ((w.left room p).rooms room) (w.players p) ≤ SendThread.maxPayload

variable {w : World} {r room : RoomRef} {p : PlayerRef} {id roomId : UInt64} {name : Bytes}

theorem fits_exact {pkt : ServerPacket} : pkt.Fits ↔ pkt.byteSizeLong ≤ SendThread.maxPayload := by
  unfold ServerPacket.Fits SendThread.maxPayload SendBufferChunk.chunkSize PacketHeader.sizeof
  omega

theorem Listed.summary_size (listed : Listed w r id) :
    (w.rooms r).getSummary.serialize.length = (w.rooms r).summarySize := by
  have count : (w.rooms r).getPlayerCount.toNat = (w.rooms r).players.size := by
    have size := listed.size
    simp only [Room.getPlayerCount,UInt64.toNat_ofNat']
    omega
  simp only [RoomSummary.serialize,Room.getSummary,List.length_append,number_size,text_size,count,listed.maximum]
  rfl

theorem Listed.event_size {type : RoomEventType} (listed : Listed w r id) (shown : numberSize type.toNat = 2) :
    (w.roomEvent type r p).byteSizeLong = (w.rooms r).eventSize (w.players p) := by
  simp only [ServerPacket.byteSizeLong,ServerPacket.serialize,roomEvent,List.length_append,number_size,submessage_size,
    text_size,listed.summary_size,shown]
  rfl

theorem nickname_size : (w.nicknameReply name).byteSizeLong = w.nicknameSize name := by
  simp [ServerPacket.byteSizeLong,ServerPacket.serialize,nicknameReply,Protocol.Player.serialize,nicknameSize,
    ErrorCode.toNat,numberSize]

theorem chat_size {self : Protocol.Player} {msg : Bytes} :
    (w.chat room self msg).byteSizeLong = (w.rooms room).chatSize self msg := by
  have noTime : numberSize 0 = 0 := rfl
  simp [ServerPacket.byteSizeLong,ServerPacket.serialize,chat,ChatMessage.serialize,Room.chatSize,noTime,Nat.add_assoc]

theorem Valid.summaries_size (valid : Valid w) :
    (w.summaries.map fun m => submessageSize m.serialize.length).sum = w.listSize := by
  unfold summaries listSize
  rw [List.map_map]
  congr 1
  refine List.map_congr_left fun r member => ?_
  obtain ⟨id,found⟩ := entries_exact.mp member
  simp only [Function.comp_def,(valid.rooms id r found).summary_size]

theorem Valid.founded_summaries (valid : Valid w) :
    (w.founded name).summaries.Perm (⟨w.manager.roomId,name,0,16⟩ :: w.summaries) := by
  have added := ((@insert_fresh _ _ _ _ _ _ _ w.roomCount _ _ _ valid.fresh_room).map (·.2)).map fun r =>
    ((w.founded name).rooms r).getSummary
  have new : ((w.founded name).rooms w.roomCount).getSummary = ⟨w.manager.roomId,name,0,16⟩ := by
    simp [founded,Room.getSummary,Room.getPlayerCount]
  have old : w.getAllRooms.map (fun r => ((w.founded name).rooms r).getSummary) = w.summaries := by
    refine List.map_congr_left fun r member => ?_
    obtain ⟨id,found⟩ := entries_exact.mp member
    have other : r ≠ w.roomCount := Nat.ne_of_lt (valid.rooms id r found).made
    simp [founded,other]
  rw [List.map_cons,List.map_cons,new] at added
  exact old ▸ added

theorem Valid.list_size (valid : Valid w) : (ServerPacket.sRoomList w.summaries).byteSizeLong = w.listSize := by
  rw [← valid.summaries_size]
  exact submessages_size 1 RoomSummary.serialize w.summaries

theorem Valid.founded_size (valid : Valid w) : (w.foundedReply name).byteSizeLong =
    submessageSize (Room.summarySize ⟨{},name,w.manager.roomId,16⟩) + w.listSize := by
  have all := submessages_size 2 RoomSummary.serialize (w.founded name).summaries
  rw [((valid.founded_summaries).map _).sum_nat,List.map_cons,List.sum_cons,valid.summaries_size] at all
  have new : (RoomSummary.serialize ⟨w.manager.roomId,name,0,16⟩).length = Room.summarySize ⟨{},name,w.manager.roomId,16⟩ := by
    simp only [RoomSummary.serialize,List.length_append,number_size,text_size]
    rfl
  rw [new] at all
  exact all

theorem Valid.joined_size (valid : Valid w) (found : w.getRoom roomId = some room) (known : w.getPlayer id = some p)
    (notFull : (w.rooms room).isFull = false) :
    (w.joinedEvent room p).byteSizeLong = ((w.entered room p).rooms room).eventSize (w.players p) :=
  Listed.event_size ((entered_valid valid found known notFull).rooms _ _ found) rfl

theorem Valid.left_size (valid : Valid w) (found : w.roomOf p = some room) :
    (w.leftEvent room p).byteSizeLong = ((w.left room p).rooms room).eventSize (w.players p) :=
  Listed.event_size ((left_valid valid (roomOf_found found) p).rooms _ _ (roomOf_found found)) rfl

end World

namespace Server
variable {s : Server} {worker : Nat} {session : SessionRef} {pkt : ClientPacket} {events : List Event}

theorem handled_servable {result : Except Fault (Bool × Server)} (valid : s.world.Valid)
    (handles : Handles s session pkt result) :
    (result ≠ .error .assertion ∧ result ≠ .error .overrun) ↔ s.world.Servable pkt := by
  have refused (size : Nat) : ¬ ((.error (SendThread.refusal size) : Except Fault (Bool × Server)) ≠ .error .assertion ∧
      (.error (SendThread.refusal size) : Except Fault (Bool × Server)) ≠ .error .overrun) := by
    unfold SendThread.refusal
    split <;> simp
  cases handles with
  | nicknameTaken taken => simp [World.Servable,taken]
  | nicknameRefused free large =>
    rw [World.fits_exact,World.nickname_size] at large
    exact iff_of_false (refused _) (by simpa [World.Servable,free] using large)
  | named free fits =>
    rw [World.fits_exact,World.nickname_size] at fits
    simpa [World.Servable,free] using fits
  | listRefused large =>
    rw [World.fits_exact,valid.list_size] at large
    exact iff_of_false (refused _) large
  | listed fits =>
    rw [World.fits_exact,valid.list_size] at fits
    simpa [World.Servable] using fits
  | roomTaken taken => simp [World.Servable,taken]
  | foundingRefused free large =>
    rw [World.fits_exact,valid.founded_size] at large
    exact iff_of_false (refused _) (by simpa [World.Servable,free] using large)
  | founded free fits =>
    rw [World.fits_exact,valid.founded_size] at fits
    simpa [World.Servable,free] using fits
  | joinsNowhere nowhere => simp [World.Servable,nowhere]
  | nobodyJoins found nobody => simp [World.Servable,nobody]
  | rejected found known full => simp [World.Servable,found,known,full]
  | joinRefused found known notFull large =>
    rw [World.fits_exact,valid.joined_size found known notFull] at large
    exact iff_of_false (refused _) (by simpa [World.Servable,found,known,notFull] using large)
  | joinExpired found known notFull fits | joined found known notFull fits =>
    rw [World.fits_exact,valid.joined_size found known notFull] at fits
    simpa [World.Servable,found,known,notFull] using fits
  | nobodyChats nobody | nobodyLeaves nobody => simp [World.Servable,nobody]
  | chatsNowhere known nowhere | leavesNowhere known nowhere => simp [World.Servable,known,nowhere]
  | chatRefused known found large =>
    rw [World.fits_exact,World.chat_size] at large
    exact iff_of_false (refused _) (by simpa [World.Servable,known,found] using large)
  | chatted known found fits =>
    rw [World.fits_exact,World.chat_size] at fits
    simpa [World.Servable,known,found] using fits
  | leaveRefused known found large =>
    rw [World.fits_exact,valid.left_size found] at large
    exact iff_of_false (refused _) (by simpa [World.Servable,known,found] using large)
  | leaveExpired known found fits | left known found fits =>
    rw [World.fits_exact,valid.left_size found] at fits
    simpa [World.Servable,known,found] using fits

-- In a reachable state everything a packet makes the server build fits, exactly for these packets.
theorem replies_fit_exact (path : Runs (Enabled step) start events s) :
    (s.handlePacket worker session pkt ≠ .error .assertion ∧ s.handlePacket worker session pkt ≠ .error .overrun) ↔
      s.world.Servable pkt := handled_servable (runs_valid path) (handlePacket_handles pkt)

theorem replies_fit_exact_short : ∃ s, Runs (Enabled step) start [.connect 0 0] s ∧
    s.handlePacket 0 0 (.cSetNickname (ascii "ann")) ≠ .error .assertion ∧
    s.handlePacket 0 0 (.cSetNickname (ascii "ann")) ≠ .error .overrun := by
  obtain ⟨s,path,fresh,_⟩ := start_connected
  refine ⟨s,path,(replies_fit_exact path).mpr (.inr ?_)⟩
  rw [fresh]
  decide

-- A nickname of 6000 letters, which a frame of 65535 bytes has ample room for.
theorem replies_fit_long_nickname : ¬ ∀ events s worker session nickname, Runs (Enabled step) start events s →
    s.session session = .connected → nickname.length ≤ 6000 →
    s.handlePacket worker session (.cSetNickname nickname) ≠ .error .assertion ∧
    s.handlePacket worker session (.cSetNickname nickname) ≠ .error .overrun := by
  intro always
  obtain ⟨s,path,fresh,connected⟩ := start_connected
  have servable := (handled_servable (runs_valid path) (handlePacket_handles _)).mp
    (always _ s 0 0 (List.replicate 6000 97) path connected (Nat.le_of_eq List.length_replicate))
  rcases servable with taken | short
  · simp [fresh,World.addSession] at taken
  · have inner := textSize_long 6000
    have outer := submessageSize_long (numberSize s.world.manager.playerId.toNat + textSize 6000)
    simp only [World.nicknameSize,List.length_replicate,SendThread.maxPayload,SendBufferChunk.chunkSize,
      PacketHeader.sizeof] at short
    omega

end Server
end IocpChatServer.GameServer
