import IocpChatServer.GameServer.Parsing

namespace IocpChatServer.GameServer
open Foundations Wire Reader Protobuf

namespace Protocol

def Player.Text (m : Player) : Prop := isStructurallyValidUTF8 m.name = true
def RoomSummary.Text (m : RoomSummary) : Prop := isStructurallyValidUTF8 m.name = true
def ChatMessage.Text (m : ChatMessage) : Prop := isStructurallyValidUTF8 m.nickname = true ∧ isStructurallyValidUTF8 m.msg = true

def ClientPacket.Text : ClientPacket → Prop
  | .cSetNickname nickname => isStructurallyValidUTF8 nickname = true
  | .cRequestRoomList _ => True
  | .cCreateRoom name _ => isStructurallyValidUTF8 name = true
  | .cJoinRoom _ self => ∀ m ∈ self, m.Text
  | .cChatRoom msg self => isStructurallyValidUTF8 msg = true ∧ ∀ m ∈ self, m.Text
  | .cLeaveRoom self _ => ∀ m ∈ self, m.Text

def ServerPacket.Text : ServerPacket → Prop
  | .sNicknamePrompt prompt => isStructurallyValidUTF8 prompt = true
  | .sNicknameResult _ self => ∀ m ∈ self, m.Text
  | .sRoomList rooms => ∀ m ∈ rooms, m.Text
  | .sCreateRoom _ rooms => ∀ m ∈ rooms, m.Text
  | .sEnterRoom _ => True
  | .sRoomEvent _ room _ nickname => room.Text ∧ isStructurallyValidUTF8 nickname = true
  | .sChatRoom chat => chat.Text

-- What is written of a message is read as this message, and only if its strings are UTF-8.
def RoundTrips {τ : Type} (switch : UInt32 → Option (FieldCase τ)) (empty : τ) (serialize : τ → List UInt8) (Text : τ → Prop) : Prop :=
  ∀ depth m got, (serialize m).length ≤ maxSize → (internalParse switch depth (serialize m) empty = some got ↔ Text m ∧ got = m)

theorem player_roundTrips : RoundTrips Player.switch .empty Player.serialize Player.Text := by
  intro depth m got short
  have name := textSize_long m.name.length
  simp only [Player.serialize,List.length_append,number_size,text_size] at short
  rw [internalParse_exact,← List.append_nil (Player.serialize m)]
  simp only [Player.serialize,List.append_assoc]
  rw [number_front (by decide) rfl _ rfl,text_front (by decide) rfl _ (by omega) rfl,fields_end]
  exact Iff.rfl

theorem roomSummary_roundTrips : RoundTrips RoomSummary.switch .empty RoomSummary.serialize RoomSummary.Text := by
  intro depth m got short
  have name := textSize_long m.name.length
  simp only [RoomSummary.serialize,List.length_append,number_size,text_size] at short
  rw [internalParse_exact,← List.append_nil (RoomSummary.serialize m)]
  simp only [RoomSummary.serialize,List.append_assoc]
  rw [number_front (by decide) rfl _ rfl,text_front (by decide) rfl _ (by omega) rfl,number_front (by decide) rfl _ rfl,
    number_front (by decide) rfl _ rfl,fields_end]
  exact Iff.rfl

theorem chatMessage_roundTrips : RoundTrips ChatMessage.switch .empty ChatMessage.serialize ChatMessage.Text := by
  intro depth m got short
  have nickname := textSize_long m.nickname.length
  have msg := textSize_long m.msg.length
  simp only [ChatMessage.serialize,List.length_append,number_size,text_size] at short
  rw [internalParse_exact,← List.append_nil (ChatMessage.serialize m)]
  simp only [ChatMessage.serialize,List.append_assoc]
  rw [number_front (by decide) rfl _ rfl,number_front (by decide) rfl _ rfl,text_front (by decide) rfl _ (by omega) rfl,
    text_front (by decide) rfl _ (by omega) rfl,number_front (by decide) rfl _ rfl,fields_end]
  exact and_assoc.symm

section Sub
variable {σ τ : Type} {switch : UInt32 → Option (FieldCase σ)} {sub : UInt32 → Option (FieldCase τ)} {empty : τ}
  {serialize : τ → List UInt8} {Text : τ → Prop} {depth number : Nat} {msg last : σ} {rest : List UInt8}

theorem mutable_front {get : σ → Option τ} {set : Option τ → σ → σ} (trips : RoundTrips sub empty serialize Text) (small : number < 16)
    (known : switch (UInt32.ofNat (number * 8 + 2)) = some (mutableMessage sub empty get set)) (absent : get msg = none) (m : τ)
    (short : (serialize m).length ≤ maxSize) : Fields switch (depth + 1) msg last (submessage number (serialize m) ++ rest) ↔
      Text m ∧ Fields switch (depth + 1) (set (some m) msg) last rest := by
  rw [submessage_front small known (serialize m) short]
  simp only [absent,Option.getD_none,Option.map_eq_some_iff,trips depth m _ short]
  constructor
  · rintro ⟨next,⟨got,⟨text,rfl⟩,rfl⟩,more⟩
    exact ⟨text,more⟩
  · rintro ⟨text,more⟩
    exact ⟨_,⟨m,⟨text,rfl⟩,rfl⟩,more⟩

theorem optional_front {get : σ → Option τ} {set : Option τ → σ → σ} (trips : RoundTrips sub empty serialize Text) (small : number < 16)
    (known : switch (UInt32.ofNat (number * 8 + 2)) = some (mutableMessage sub empty get set)) (absent : get msg = none)
    (unset : set none msg = msg) (m : Option τ) (short : ∀ x ∈ m, (serialize x).length ≤ maxSize) :
    Fields switch (depth + 1) msg last ((m.map fun x => submessage number (serialize x)).getD [] ++ rest) ↔
      (∀ x ∈ m, Text x) ∧ Fields switch (depth + 1) (set m msg) last rest := by
  cases m with
  | none =>
    rw [unset]
    simp
  | some m =>
    simp only [Option.map_some,Option.getD_some,mutable_front trips small known absent m (short m rfl)]
    simp

theorem repeated_front {get : σ → List τ} {set : List τ → σ → σ} (trips : RoundTrips sub empty serialize Text) (small : number < 16)
    (known : switch (UInt32.ofNat (number * 8 + 2)) = some (addMessage sub empty get set)) (get_set : ∀ l s, get (set l s) = l)
    (set_set : ∀ l k s, set l (set k s) = set l s) (set_get : ∀ s, set (get s) s = s) (ms : List τ)
    (short : ∀ m ∈ ms, (serialize m).length ≤ maxSize) :
    Fields switch (depth + 1) msg last ((ms.flatMap fun m => submessage number (serialize m)) ++ rest) ↔
      (∀ m ∈ ms, Text m) ∧ Fields switch (depth + 1) (set (get msg ++ ms) msg) last rest := by
  induction ms generalizing msg with
  | nil => simp [set_get]
  | cons m ms ih =>
    have first := short m List.mem_cons_self
    simp only [List.flatMap_cons,List.append_assoc]
    rw [submessage_front small known (serialize m) first]
    simp only [Option.map_eq_some_iff,trips depth m _ first]
    constructor
    · rintro ⟨next,⟨got,⟨text,rfl⟩,rfl⟩,more⟩
      have others := (ih fun x member => short x (List.mem_cons_of_mem _ member)).mp more
      rw [get_set,set_set,List.append_assoc] at others
      exact ⟨List.forall_mem_cons.mpr ⟨text,others.1⟩,others.2⟩
    · rintro ⟨texts,more⟩
      obtain ⟨text,texts⟩ := List.forall_mem_cons.mp texts
      refine ⟨_,⟨m,⟨text,rfl⟩,rfl⟩,(ih fun x member => short x (List.mem_cons_of_mem _ member)).mpr ⟨texts,?_⟩⟩
      rw [get_set,set_set,List.append_assoc]
      exact more

end Sub

section Packets
variable {depth : Nat}

theorem setNickname_fields (m : CSetNickname) (short : (text 1 m.nickname).length ≤ maxSize) (got : CSetNickname) :
    Fields CSetNickname.switch depth {} got (text 1 m.nickname) ↔ isStructurallyValidUTF8 m.nickname = true ∧ got = m := by
  have nickname := textSize_long m.nickname.length
  simp only [text_size] at short
  rw [← List.append_nil (text 1 m.nickname),text_front (by decide) rfl _ (by omega) rfl,fields_end]

theorem requestRoomList_fields (m got : CRequestRoomList) :
    Fields CRequestRoomList.switch depth {} got (number 1 m.num.toNat) ↔ got = m := by
  rw [← List.append_nil (number 1 m.num.toNat),← UInt32.toNat_toUInt64,number_front (by decide) rfl _ rfl,fields_end,
    UInt32.toUInt32_toUInt64]

theorem createRoom_fields (m : CCreateRoom) (short : (text 1 m.name ++ number 2 m.maxPlayers.toNat).length ≤ maxSize)
    (got : CCreateRoom) : Fields CCreateRoom.switch depth {} got (text 1 m.name ++ number 2 m.maxPlayers.toNat) ↔
      isStructurallyValidUTF8 m.name = true ∧ got = m := by
  have name := textSize_long m.name.length
  simp only [List.length_append,number_size,text_size] at short
  rw [← List.append_nil (number 2 m.maxPlayers.toNat),← UInt32.toNat_toUInt64,text_front (by decide) rfl _ (by omega) rfl,
    number_front (by decide) rfl _ rfl,fields_end,UInt32.toUInt32_toUInt64]

theorem ofSelf_short {field : Nat} {self : Option Player} {most : Nat} (short : (ClientPacket.ofSelf field self).length ≤ most) :
    ∀ m ∈ self, m.serialize.length ≤ most := by
  intro m present
  rw [Option.mem_def.mp present] at short
  have long := submessageSize_long m.serialize.length
  have size := submessage_size field m.serialize
  simp only [ClientPacket.ofSelf,Option.map_some,Option.getD_some] at short
  omega

theorem joinRoom_fields (m : CJoinRoom) (short : (number 1 m.roomId.toNat ++ ClientPacket.ofSelf 2 m.self).length ≤ maxSize)
    (got : CJoinRoom) : Fields CJoinRoom.switch (depth + 1) {} got (number 1 m.roomId.toNat ++ ClientPacket.ofSelf 2 m.self) ↔
      (∀ x ∈ m.self, x.Text) ∧ got = m := by
  rw [List.length_append] at short
  have self := ofSelf_short (Nat.le_trans (Nat.le_add_left _ _) short)
  rw [← List.append_nil (ClientPacket.ofSelf 2 m.self),number_front (by decide) rfl _ rfl,ClientPacket.ofSelf,
    optional_front player_roundTrips (by decide) rfl rfl rfl _ self,fields_end]

theorem chatRoom_fields (m : CChatRoom) (short : (text 1 m.msg ++ ClientPacket.ofSelf 2 m.self).length ≤ maxSize)
    (got : CChatRoom) : Fields CChatRoom.switch (depth + 1) {} got (text 1 m.msg ++ ClientPacket.ofSelf 2 m.self) ↔
      (isStructurallyValidUTF8 m.msg = true ∧ ∀ x ∈ m.self, x.Text) ∧ got = m := by
  have msg := textSize_long m.msg.length
  simp only [List.length_append,text_size] at short
  have self := ofSelf_short (Nat.le_trans (Nat.le_add_left _ _) short)
  rw [← List.append_nil (ClientPacket.ofSelf 2 m.self),text_front (by decide) rfl _ (by omega) rfl,ClientPacket.ofSelf,
    optional_front player_roundTrips (by decide) rfl rfl rfl _ self,fields_end,and_assoc]

theorem leaveRoom_fields (m : CLeaveRoom) (short : (ClientPacket.ofSelf 1 m.self ++ number 2 m.roomId.toNat).length ≤ maxSize)
    (got : CLeaveRoom) : Fields CLeaveRoom.switch (depth + 1) {} got (ClientPacket.ofSelf 1 m.self ++ number 2 m.roomId.toNat) ↔
      (∀ x ∈ m.self, x.Text) ∧ got = m := by
  rw [List.length_append] at short
  have self := ofSelf_short (Nat.le_trans (Nat.le_add_right _ _) short)
  rw [← List.append_nil (number 2 m.roomId.toNat),ClientPacket.ofSelf,
    optional_front player_roundTrips (by decide) rfl rfl rfl _ self,number_front (by decide) rfl _ rfl,fields_end]

theorem nicknamePrompt_fields (m : SNicknamePrompt) (short : (text 1 m.prompt).length ≤ maxSize) (got : SNicknamePrompt) :
    Fields SNicknamePrompt.switch depth {} got (text 1 m.prompt) ↔ isStructurallyValidUTF8 m.prompt = true ∧ got = m := by
  have prompt := textSize_long m.prompt.length
  simp only [text_size] at short
  rw [← List.append_nil (text 1 m.prompt),text_front (by decide) rfl _ (by omega) rfl,fields_end]

theorem errorCode_number (error : ErrorCode) : number 1 error.toNat = number 1 (UInt64.ofNat error.toNat).toNat := by cases error <;> rfl

theorem errorCode_kept (error : ErrorCode) : (UInt64.ofNat error.toNat).toUInt32 = UInt32.ofNat error.toNat := by cases error <;> rfl

theorem roomEventType_number (type : RoomEventType) : number 1 type.toNat = number 1 (UInt64.ofNat type.toNat).toNat := by
  cases type <;> rfl

theorem roomEventType_kept (type : RoomEventType) : (UInt64.ofNat type.toNat).toUInt32 = UInt32.ofNat type.toNat := by
  cases type <;> rfl

theorem nicknameResult_fields (error : ErrorCode) (self : Option Player)
    (short : (number 1 error.toNat ++ (self.map fun m => submessage 2 m.serialize).getD []).length ≤ maxSize) (got : SNicknameResult) :
    Fields SNicknameResult.switch (depth + 1) {} got (number 1 error.toNat ++ (self.map fun m => submessage 2 m.serialize).getD []) ↔
      (∀ m ∈ self, m.Text) ∧ got = ⟨UInt32.ofNat error.toNat,self⟩ := by
  rw [List.length_append] at short
  have inside := @ofSelf_short 2 self _ (Nat.le_trans (Nat.le_add_left _ _) short)
  rw [← List.append_nil (Option.getD _ _),errorCode_number,number_front (by decide) rfl _ rfl,
    optional_front player_roundTrips (by decide) rfl rfl rfl _ inside,fields_end,errorCode_kept]

theorem rooms_short {field : Nat} {rooms : List RoomSummary} {most : Nat}
    (short : (rooms.flatMap fun m => submessage field m.serialize).length ≤ most) : ∀ m ∈ rooms, m.serialize.length ≤ most := by
  intro m member
  have long := submessageSize_long m.serialize.length
  have part : (submessage field m.serialize).length ≤ (rooms.flatMap fun m => submessage field m.serialize).length := by
    rw [List.flatMap_def]
    exact List.Sublist.length_le (List.sublist_flatten_of_mem (List.mem_map_of_mem member))
  rw [submessage_size] at part
  omega

theorem roomList_fields (rooms : List RoomSummary) (short : (rooms.flatMap fun m => submessage 1 m.serialize).length ≤ maxSize)
    (got : SRoomList) : Fields SRoomList.switch (depth + 1) {} got (rooms.flatMap fun m => submessage 1 m.serialize) ↔
      (∀ m ∈ rooms, m.Text) ∧ got = ⟨rooms⟩ := by
  rw [← List.append_nil (List.flatMap _ rooms),repeated_front roomSummary_roundTrips (by decide) rfl ?_ ?_ ?_ rooms (rooms_short short),
    fields_end,List.nil_append]
  all_goals intros
  all_goals rfl

theorem sCreateRoom_fields (error : ErrorCode) (rooms : List RoomSummary)
    (short : (number 1 error.toNat ++ rooms.flatMap fun m => submessage 2 m.serialize).length ≤ maxSize) (got : SCreateRoom) :
    Fields SCreateRoom.switch (depth + 1) {} got (number 1 error.toNat ++ rooms.flatMap fun m => submessage 2 m.serialize) ↔
      (∀ m ∈ rooms, m.Text) ∧ got = ⟨UInt32.ofNat error.toNat,rooms⟩ := by
  rw [List.length_append] at short
  have inside := rooms_short (Nat.le_trans (Nat.le_add_left _ _) short)
  rw [← List.append_nil (List.flatMap _ rooms),errorCode_number,number_front (by decide) rfl _ rfl,
    repeated_front roomSummary_roundTrips (by decide) rfl ?_ ?_ ?_ rooms inside,fields_end,errorCode_kept,List.nil_append]
  all_goals intros
  all_goals rfl

theorem enterRoom_fields (error : ErrorCode) (got : SEnterRoom) :
    Fields SEnterRoom.switch depth {} got (number 1 error.toNat) ↔ got = ⟨UInt32.ofNat error.toNat,none⟩ := by
  rw [← List.append_nil (number 1 _),errorCode_number,number_front (by decide) rfl _ rfl,fields_end,errorCode_kept]

theorem roomEvent_fields (type : RoomEventType) (room : RoomSummary) (playerId : UInt64) (nickname : Bytes)
    (short : (ServerPacket.sRoomEvent type room playerId nickname).serialize.length ≤ maxSize) (got : SRoomEvent) :
    Fields SRoomEvent.switch (depth + 1) {} got (ServerPacket.sRoomEvent type room playerId nickname).serialize ↔
      (room.Text ∧ isStructurallyValidUTF8 nickname = true) ∧ got = ⟨UInt32.ofNat type.toNat,some room,playerId,nickname⟩ := by
  have inside := submessageSize_long room.serialize.length
  have name := textSize_long nickname.length
  simp only [ServerPacket.serialize,List.length_append,number_size,submessage_size,text_size] at short
  rw [ServerPacket.serialize,← List.append_nil (text 4 nickname)]
  simp only [List.append_assoc]
  rw [roomEventType_number,number_front (by decide) rfl _ rfl,
    mutable_front roomSummary_roundTrips (by decide) rfl rfl room (by omega),number_front (by decide) rfl _ rfl,
    text_front (by decide) rfl _ (by omega) rfl,fields_end,roomEventType_kept,and_assoc]

theorem sChatRoom_fields (chat : ChatMessage) (short : (submessage 1 chat.serialize).length ≤ maxSize) (got : SChatRoom) :
    Fields SChatRoom.switch (depth + 1) {} got (submessage 1 chat.serialize) ↔ chat.Text ∧ got = ⟨some chat⟩ := by
  have inside := submessageSize_long chat.serialize.length
  rw [submessage_size] at short
  rw [← List.append_nil (submessage 1 chat.serialize),mutable_front chatMessage_roundTrips (by decide) rfl rfl chat (by omega),fields_end]

end Packets

-- A message read from anywhere has text for its strings.
section Read
variable {σ τ : Type} {sub : UInt32 → Option (FieldCase τ)} {empty : τ} {Inside : τ → Prop} {Good : σ → Prop}

end Read
end Protocol

open Protocol

theorem parsed_exact {σ Packet : Type} {switch : UInt32 → Option (FieldCase σ)} {data : Bytes} {empty m : σ} {wrap : σ → Packet}
    {Text : Prop} {got : Packet} (fields : ∀ got, Fields switch defaultRecursionLimit empty got data ↔ Text ∧ got = m) :
    (parseFromArray switch data empty).map wrap = some got ↔ Text ∧ got = wrap m := by
  simp only [parseFromArray,Option.map_eq_some_iff,internalParse_exact,fields]
  constructor
  · rintro ⟨_,⟨text,rfl⟩,rfl⟩
    exact ⟨text,rfl⟩
  · rintro ⟨text,rfl⟩
    exact ⟨m,⟨text,rfl⟩,rfl⟩

theorem parsePacket_exact (pkt : ClientPacket) (short : pkt.serialize.length ≤ maxSize) (got : ClientPacket) :
    ClientPacketHandler.parsePacket pkt.pktId pkt.serialize = some got ↔ pkt.Text ∧ got = pkt := by
  cases pkt with
  | cSetNickname nickname => exact parsed_exact (setNickname_fields ⟨nickname⟩ short)
  | cRequestRoomList num => exact parsed_exact fun got => (requestRoomList_fields ⟨num⟩ got).trans (Iff.of_eq (true_and _).symm)
  | cCreateRoom name maxPlayers => exact parsed_exact (createRoom_fields ⟨name,maxPlayers⟩ short)
  | cJoinRoom roomId self => exact parsed_exact (joinRoom_fields ⟨roomId,self⟩ short)
  | cChatRoom msg self => exact parsed_exact (chatRoom_fields ⟨msg,self⟩ short)
  | cLeaveRoom self roomId => exact parsed_exact (leaveRoom_fields ⟨self,roomId⟩ short)

theorem parsed_unknown {σ Packet : Type} {switch : UInt32 → Option (FieldCase σ)} {empty : σ} {wrap : σ → Packet} {tag : UInt32}
    {front header body rest : Bytes} (parsed : (parseFromArray switch front empty).map wrap ≠ none) (written : Tag tag header)
    (nobody : switch tag = none) (unknown : Unknown defaultRecursionLimit tag body) :
    (parseFromArray switch (front ++ (header ++ body ++ rest)) empty).map wrap =
    (parseFromArray switch (front ++ rest) empty).map wrap := by
  obtain ⟨_,some_⟩ := Option.ne_none_iff_exists'.mp parsed
  obtain ⟨next,inner,_⟩ := Option.map_eq_some_iff.mp some_
  rw [parseFromArray,parseFromArray,internalParse_unknown inner written nobody unknown]

theorem PacketHandler.parse_unknown {handler : PacketHandler} {tag : UInt32} {front header body rest : Bytes}
    (parsed : handler.parse front ≠ none) (written : Tag tag header) (new : 3 ≤ fieldNumber tag)
    (unknown : Unknown defaultRecursionLimit tag body) :
    handler.parse (front ++ (header ++ body ++ rest)) = handler.parse (front ++ rest) := by
  have past (known : UInt32) (low : fieldNumber known < 3) : tag ≠ known := fun same => by
    rw [same] at new
    exact absurd low (Nat.not_lt.mpr new)
  cases handler with
  | handleInvalid => exact absurd rfl parsed
  | handleCSetNickname =>
    refine parsed_unknown parsed written ?_ unknown
    unfold CSetNickname.switch
    split <;> first | rfl | exact absurd rfl (past _ (by decide))
  | handleCRequestRoomList =>
    refine parsed_unknown parsed written ?_ unknown
    unfold CRequestRoomList.switch
    split <;> first | rfl | exact absurd rfl (past _ (by decide))
  | handleCCreateRoom =>
    refine parsed_unknown parsed written ?_ unknown
    unfold CCreateRoom.switch
    split <;> first | rfl | exact absurd rfl (past _ (by decide))
  | handleCJoinRoom =>
    refine parsed_unknown parsed written ?_ unknown
    unfold CJoinRoom.switch
    split <;> first | rfl | exact absurd rfl (past _ (by decide))
  | handleCChatRoom =>
    refine parsed_unknown parsed written ?_ unknown
    unfold CChatRoom.switch
    split <;> first | rfl | exact absurd rfl (past _ (by decide))
  | handleCLeaveRoom =>
    refine parsed_unknown parsed written ?_ unknown
    unfold CLeaveRoom.switch
    split <;> first | rfl | exact absurd rfl (past _ (by decide))

end IocpChatServer.GameServer
