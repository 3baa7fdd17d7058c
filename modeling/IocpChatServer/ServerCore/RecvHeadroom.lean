import IocpChatServer.ServerCore.SessionRecv

namespace IocpChatServer.ServerCore
open Foundations Memory Framing

namespace RecvSession

-- The session is up with less than the longest frame unread, no compaction has copied onto
-- itself, and the WSARecv that is posted has room for BUFFER_SIZE bytes.
structure Headroom (s : RecvSession) : Prop where
  connected : s.connected = true
  unread : s.recvBuffer.dataSize < 65535
  apart : s.overlapped = false
  posted : ∃ posted, s.recvPosted = some posted ∧ bufferSize ≤ posted.len

def KeepsHeadroom (pieces : List (List BYTE)) : Prop :=
  ∀ k ≤ pieces.length, ∃ s, start.receive (pieces.take k) = some s ∧ Headroom s

def sizes (pieces : List (List BYTE)) : List Nat := pieces.map List.length

variable {frames pieces : List (List BYTE)} {bytes : List BYTE} {k : Nat}

theorem sizes_next (at_ : pieces[k]? = some bytes) : sizes (pieces.take (k+1)) = sizes (pieces.take k) ++ [bytes.length] := by
  simp [sizes,take_next at_]

theorem sizes_sum : (sizes (pieces.take k)).sum = received pieces k := by
  simp [sizes,received,List.length_flatten]

-- What a session has not read is what the completions had room for beyond whole frames: `spare`
-- is computed from the frames and the sizes, not read off the session.
theorem receive_behind (wf : ∀ f ∈ frames, WellFormed f) (split : pieces.flatten <+: frames.flatten)
    (fits : Completions pieces) (within : k ≤ pieces.length) :
    ∃ s, start.receive (pieces.take k) = some s ∧
      Behind (undealt frames (sizes (pieces.take k))) (spare frames (sizes (pieces.take k))) s ∧
      (spare frames (sizes (pieces.take k)) < bufferSize → s.overlapped = false ∧ bufferSize ≤ s.recvBuffer.freeSize) := by
  induction k with
  | zero => exact ⟨start,rfl,⟨rfl,rfl,rfl,rfl,rfl,Nat.zero_le _⟩,fun _ => ⟨rfl,by decide⟩⟩
  | succ k ih =>
    obtain ⟨s,ran,behind,room⟩ := ih (by omega)
    obtain ⟨bytes,at_⟩ : ∃ bytes, pieces[k]? = some bytes := ⟨_,List.getElem?_eq_getElem (by omega)⟩
    obtain ⟨some_,free⟩ := fits k bytes at_
    obtain ⟨bounded,fresh⟩ := next_piece split at_
    have dealt := spare_dealt frames (sizes (pieces.take k))
    rw [sizes_sum] at dealt
    rw [← sizes_sum,undealt_stream] at fresh
    obtain ⟨next,completed,_,later,light⟩ := complete_behind (fun f member => wf f (undealt_mem member)) behind some_ (free s ran)
      (by omega) fresh
    refine ⟨next,by simp [take_next at_,receive_append,ran,receive,completed],?_⟩
    rw [sizes_next at_,undealt_append,spare_append]
    simp only [undealt,spare,Nat.add_zero]
    refine ⟨later,fun small => ?_⟩
    obtain ⟨apart,enough⟩ := light small
    exact ⟨apart.trans (room (by omega)).1,enough⟩

theorem Behind.dataSize {rest : List (List BYTE)} {unread : Nat} {s : RecvSession} (behind : Behind rest unread s) :
    s.recvBuffer.dataSize = unread := by
  rw [← RecvBuffer.queued_length,behind.queued,List.length_take]
  exact Nat.min_eq_left behind.within

theorem spare_take (frames : List (List BYTE)) (pieces : List (List BYTE)) (k : Nat) :
    spare frames (sizes (pieces.take k)) ≤ spare frames (sizes pieces) := by
  conv_rhs => rw [← List.take_append_drop k pieces]
  simp only [sizes,List.map_append,spare_append]
  exact Nat.le_add_right _ _

-- OnRecv looks at no more unread bytes than the completion brought, so what one completion
-- leaves over no later one makes up for: the headroom is kept exactly while all of it together
-- is shorter than the longest frame.
theorem headroom_spare (wf : ∀ f ∈ frames, WellFormed f) (split : pieces.flatten <+: frames.flatten)
    (fits : Completions pieces) (keeps : KeepsHeadroom pieces) : spare frames (sizes pieces) < 65535 := by
  obtain ⟨s,ran,headroom⟩ := keeps pieces.length (Nat.le_refl _)
  obtain ⟨again,ranToo,behind,_⟩ := receive_behind wf split fits (Nat.le_refl pieces.length)
  cases ran.symm.trans ranToo
  have unread := headroom.unread
  rwa [behind.dataSize,List.take_length] at unread

theorem headroom_exact (wf : ∀ f ∈ frames, WellFormed f) (split : pieces.flatten <+: frames.flatten)
    (fits : Completions pieces) : KeepsHeadroom pieces ↔ spare frames (sizes pieces) < 65535 := by
  constructor
  · exact headroom_spare wf split fits
  · intro small k within
    obtain ⟨s,ran,behind,light⟩ := receive_behind wf split fits within
    have less := Nat.lt_of_le_of_lt (spare_take frames pieces k) small
    obtain ⟨apart,free⟩ := light (Nat.lt_trans less (by decide))
    exact ⟨s,ran,behind.connected,behind.dataSize ▸ less,apart,_,behind.posted,free⟩

theorem headroom_exact_hello : KeepsHeadroom helloPieces ∧ spare [hello] (sizes helloPieces) = 4 := by
  have wf : ∀ f ∈ [hello], WellFormed f := by decide
  have split : helloPieces.flatten <+: [hello].flatten := List.prefix_refl _
  exact ⟨(headroom_exact wf split helloPieces_completions).mpr (by decide),by decide⟩

def zeroFrame (payload : Nat) : List BYTE :=
  (PacketHeader.mk (UInt16.ofNat (payload + PacketHeader.sizeof)) 1001).toBytes ++ List.replicate payload 0

theorem zeroFrame_length (payload : Nat) : (zeroFrame payload).length = payload + PacketHeader.sizeof := by
  simp [zeroFrame,Nat.add_comm]

theorem zeroFrame_wellFormed {payload : Nat} (short : payload + PacketHeader.sizeof < 2^16) : WellFormed (zeroFrame payload) := by
  refine ⟨by rw [zeroFrame_length]; exact Nat.le_add_left _ _,?_⟩
  rw [zeroFrame_length,zeroFrame,PacketHeader.ofBytes_toBytes]
  exact Nat.mod_eq_of_lt short

-- All of a frame but its last byte in one completion, and the last byte in the next.
def lateByte (f : List BYTE) : List (List BYTE) := [f.take (f.length - 1),f.drop (f.length - 1)]

variable {f : List BYTE}

theorem lateByte_sizes (long : 0 < f.length) : sizes (lateByte f) = [f.length - 1,1] := by
  simp only [sizes,lateByte,List.map_cons,List.map_nil,List.length_take,List.length_drop,List.cons.injEq,and_true]
  omega

theorem lateByte_spare (long : 1 < f.length) : spare [f] [f.length - 1,1] = f.length := by
  have first : ¬ f.length ≤ f.length - 1 := by omega
  have last : ¬ f.length ≤ 1 := by omega
  simp only [spare,waiting,missing,arrived,if_neg first,if_neg last,List.length_nil,List.drop_zero,List.flatten_nil]
  omega

theorem lateByte_completions (wf : WellFormed f) : Completions (lateByte f) := by
  have header := wf.header
  have short := wf.short
  have long : 1 < f.length := Nat.lt_of_lt_of_le (by decide) header
  have size : (f.take (f.length - 1)).length = f.length - 1 := by
    rw [List.length_take]
    omega
  have alone : Completions [f.take (f.length - 1)] := by
    intro k bytes at_
    match k,at_ with
    | 0,at_ =>
      cases at_
      refine ⟨fun none => ?_,fun s ran => ?_⟩
      · rw [none] at size
        simp only [List.length_nil] at size
        omega
      · cases ran
        exact Nat.le_trans (Nat.le_trans (Nat.le_of_eq size) (by omega : f.length - 1 ≤ 65535)) (by decide)
  intro k bytes at_
  match k,at_ with
  | 0,at_ => exact alone 0 bytes at_
  | 1,at_ =>
    cases at_
    refine ⟨fun none => ?_,fun s ran => ?_⟩
    · have length := congrArg List.length none
      simp only [List.length_drop,List.length_nil] at length
      omega
    · have split : [f.take (f.length - 1)].flatten <+: [f].flatten := by simp [List.take_prefix]
      obtain ⟨again,ranToo,_,light⟩ := receive_behind (fun g member => List.mem_singleton.mp member ▸ wf) split alone (Nat.le_refl 1)
      cases ran.symm.trans ranToo
      have less : spare [f] (sizes ([f.take (f.length - 1)].take 1)) < bufferSize := by
        have first : ¬ f.length ≤ f.length - 1 := by omega
        simp only [List.take_succ_cons,List.take_zero,sizes,List.map_cons,List.map_nil,size,spare,waiting,arrived,if_neg first,
          List.flatten_nil,List.length_nil]
        unfold bufferSize
        omega
      have free := (light less).2
      rw [List.length_drop]
      unfold bufferSize at free
      omega

-- The longest frame, its last byte late: after it all of the 65535 bytes are unread.
theorem headroom_lost : ¬ ∀ frames pieces : List (List BYTE), (∀ f ∈ frames, WellFormed f) → pieces.flatten <+: frames.flatten →
    Completions pieces → KeepsHeadroom pieces := by
  intro always
  have wf : WellFormed (zeroFrame 65531) := zeroFrame_wellFormed (by decide)
  have length : (zeroFrame 65531).length = 65535 := zeroFrame_length 65531
  have all : ∀ f ∈ [zeroFrame 65531], WellFormed f := fun f member => List.mem_singleton.mp member ▸ wf
  have split : (lateByte (zeroFrame 65531)).flatten <+: [zeroFrame 65531].flatten := by simp [lateByte]
  have fits := lateByte_completions wf
  have small := headroom_spare all split fits (always _ _ all split fits)
  rw [lateByte_sizes (by omega),lateByte_spare (by omega),length] at small
  exact absurd small (Nat.lt_irrefl _)

end RecvSession
end IocpChatServer.ServerCore
