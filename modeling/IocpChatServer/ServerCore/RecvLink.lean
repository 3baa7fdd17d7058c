import IocpChatServer.ServerCore.SessionRecv

namespace IocpChatServer.ServerCore.RecvSession
open Foundations Framing

-- A completion brings some of what is on its way, as much as the posted WSARecv has room for.
def Receivable (s : RecvSession) (link : List BYTE) (count : Nat) : Prop :=
  0 < count ∧ count ≤ link.length ∧ ∃ posted ∈ s.recvPosted, count ≤ posted.len

instance (s : RecvSession) (link : List BYTE) (count : Nat) : Decidable (s.Receivable link count) :=
  inferInstanceAs (Decidable (_ ∧ _ ∧ _))

-- The session after it, and the buffers of its OnRecvPacket calls. There is no going on after a
-- memcpy of overlapping ranges.
def take (s : RecvSession) (link : List BYTE) (count : Nat) : Option (RecvSession × List (List BYTE)) :=
  if s.Receivable link count then
    (s.complete (link.take count)).bind fun next =>
      if next.overlapped then none else some (next,next.packets.drop s.packets.length)
  else none

-- The frames that have not been handed over: some of their bytes are in the receive buffer, the
-- others are on their way.
def Carries (frames : List (List BYTE)) (s : RecvSession) (link : List BYTE) : Prop :=
  ∃ unread, Behind frames unread s ∧ link = frames.flatten.drop unread

variable {s next : RecvSession} {frames given : List (List BYTE)} {link : List BYTE} {count : Nat}

theorem start_carries : Carries [] start [] := ⟨0,⟨rfl,rfl,rfl,rfl,rfl,Nat.le_refl 0⟩,rfl⟩

theorem Carries.push (carries : Carries frames s link) (more : List (List BYTE)) :
    Carries (frames ++ more) s (link ++ more.flatten) := by
  obtain ⟨unread,⟨connected,posted,capacity,room,queued,within⟩,rfl⟩ := carries
  refine ⟨unread,⟨connected,posted,capacity,room,?_,?_⟩,?_⟩
  · rw [queued,List.flatten_append,List.take_append_of_le_length within]
  · rw [List.flatten_append,List.length_append]
    exact Nat.le_add_right_of_le within
  · rw [List.flatten_append,List.drop_append_of_le_length within]

theorem Carries.take (carries : Carries frames s link) (wf : ∀ f ∈ frames, WellFormed f)
    (taken : s.take link count = some (next,given)) :
    ∃ rest, frames = given ++ rest ∧ Carries rest next (link.drop count) := by
  obtain ⟨unread,behind,rfl⟩ := carries
  unfold RecvSession.take at taken
  split at taken
  · rename_i receivable
    obtain ⟨positive,within,posted,waits,room⟩ := receivable
    obtain ⟨after,completed,taken⟩ := Option.bind_eq_some_iff.mp taken
    split at taken
    · cases taken
    · cases taken
      cases behind.posted.symm.trans waits
      have size : ((frames.flatten.drop unread).take count).length = count := by rw [List.length_take,Nat.min_eq_left within]
      rw [List.length_drop] at within
      have inside := behind.within
      obtain ⟨later,completedToo,packets,left,_⟩ := @complete_behind ((frames.flatten.drop unread).take count) s frames unread wf behind
        (by rw [← List.length_pos_iff,size]; exact positive) (by rwa [size]) (by rw [size]; omega) (by rw [size])
      cases completed.symm.trans completedToo
      rw [size] at packets left
      refine ⟨missing frames count,?_,_,left,?_⟩
      · rw [packets,List.drop_left,arrived_missing]
      · have seen := arrived_seen frames count
        have past : unread + count = (arrived frames count).flatten.length + (unread + waiting frames count) := by omega
        rw [List.drop_drop,past]
        conv_lhs => rw [stream_parts frames count,← List.drop_drop,List.drop_left]
  · cases taken

end IocpChatServer.ServerCore.RecvSession
