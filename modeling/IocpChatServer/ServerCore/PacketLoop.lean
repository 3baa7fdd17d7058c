import IocpChatServer.ServerCore.PacketSession

namespace IocpChatServer.ServerCore.PacketSession
open Foundations Memory Framing

def headerAt (buffer : Nat → BYTE) (pos : Nat) : PacketHeader := PacketHeader.ofBytes (slice buffer pos PacketHeader.sizeof)

def sizeAt (buffer : Nat → BYTE) (pos : Nat) : Nat := (headerAt buffer pos).size.toNat

def Frames (buffer : Nat → BYTE) (n : Nat) : Nat → Prop := Boundary PacketHeader.sizeof (sizeAt buffer) n

variable {buffer : Nat → BYTE} {n pos : Nat} {s next : Parse}

theorem body_exact (small : n < 2^31) (here : s.processLen = pos) (within : pos ≤ n) :
    onRecvBody buffer n s = some next ↔ pos + PacketHeader.sizeof ≤ n ∧ pos + sizeAt buffer pos ≤ n ∧
      next = ⟨(pos + sizeAt buffer pos : Nat),s.packets ++ [slice buffer pos (sizeAt buffer pos)]⟩ := by
  have remaining : toSizeT ((n : Int) - pos) = n - pos := by rw [toSizeT_small] <;> omega
  simp only [onRecvBody,here,remaining,Int.toNat_natCast]
  change (if n - pos < PacketHeader.sizeof then none else if (n : Int) - pos < (sizeAt buffer pos : Nat) then none
    else some (⟨(pos + sizeAt buffer pos : Nat),s.packets ++ [slice buffer pos (sizeAt buffer pos)]⟩ : Parse)) = some next ↔ _
  split
  · constructor
    · intro none
      cases none
    · intro parts
      omega
  · split
    · constructor
      · intro none
        cases none
      · intro parts
        omega
    · constructor
      · intro same
        exact ⟨by omega,by omega,(Option.some.inj same).symm⟩
      · intro parts
        rw [parts.2.2]

theorem rounds_frames (small : n < 2^31) (path : Loop.Rounds (onRecvBody buffer n) ⟨0,[]⟩ s) :
    ∃ pos, s.processLen = (pos : Nat) ∧ Frames buffer n pos := by
  induction path with
  | start => exact ⟨0,rfl,.first⟩
  | round _ went ih =>
    obtain ⟨pos,here,boundary⟩ := ih
    obtain ⟨enough,whole,rfl⟩ := (body_exact small here boundary.within).mp went
    exact ⟨pos + sizeAt buffer pos,rfl,.next boundary enough whole⟩

theorem frames_rounds (small : n < 2^31) (boundary : Frames buffer n pos) :
    ∃ s, Loop.Rounds (onRecvBody buffer n) ⟨0,[]⟩ s ∧ s.processLen = pos := by
  induction boundary with
  | first => exact ⟨⟨0,[]⟩,.start,rfl⟩
  | @next pos earlier enough whole ih =>
    obtain ⟨s,path,here⟩ := ih
    exact ⟨_,path.round ((body_exact small here earlier.within).mpr ⟨enough,whole,rfl⟩),rfl⟩

theorem meets_frames (small : n < 2^31) {header : PacketHeader} :
    Meets buffer n header ↔ ∃ pos, Frames buffer n pos ∧ pos + PacketHeader.sizeof ≤ n ∧ header = headerAt buffer pos := by
  constructor
  · intro meets
    obtain ⟨s,path,enough,read⟩ := meets
    obtain ⟨pos,here,boundary⟩ := rounds_frames small path
    have within := boundary.within
    rw [here,toSizeT_small (by omega) (by omega)] at enough
    rw [here,Int.toNat_natCast] at read
    exact ⟨pos,boundary,by omega,read⟩
  · intro at_
    obtain ⟨pos,boundary,enough,read⟩ := at_
    obtain ⟨s,path,here⟩ := frames_rounds small boundary
    refine ⟨s,path,?_,?_⟩
    · rw [here,toSizeT_small (by omega) (by omega)]
      omega
    · rw [here,Int.toNat_natCast]
      exact read

theorem onRecv_nonzero (small : n < 2^31) (ends : ∃ parse, Loop.Leaves (onRecvBody buffer n) ⟨0,[]⟩ parse) :
    ∀ pos, Frames buffer n pos → pos + PacketHeader.sizeof ≤ n → sizeAt buffer pos ≠ 0 := by
  obtain ⟨parse,leaves⟩ := ends
  have nonzero := (onRecv_exact small).mp ⟨parse,onRecv_leaves.mpr leaves⟩
  intro pos boundary enough
  exact nonzero (headerAt buffer pos) ((meets_frames small).mpr ⟨pos,boundary,enough,rfl⟩)

theorem onRecv_ends (small : n < 2^31) : (∃ parse, Loop.Leaves (onRecvBody buffer n) ⟨0,[]⟩ parse) ↔
    ∀ pos, Frames buffer n pos → pos + PacketHeader.sizeof ≤ n → sizeAt buffer pos ≠ 0 := by
  constructor
  · exact onRecv_nonzero small
  · intro nonzero
    have done : ∃ parse, onRecv buffer n = some parse := by
      refine (onRecv_exact small).mpr fun header meets => ?_
      obtain ⟨pos,boundary,enough,rfl⟩ := (meets_frames small).mp meets
      exact nonzero pos boundary enough
    obtain ⟨parse,parsed⟩ := done
    exact ⟨parse,onRecv_leaves.mp parsed⟩

-- One frame of five bytes, then the beginning of another.
def underway : List BYTE := [5,0,0xE9,3,7,9,0]

theorem underway_frames (boundary : Frames (underway.getD · 0) 7 pos) : pos = 0 ∨ pos = 5 := by
  induction boundary with
  | first => exact .inl rfl
  | next _ enough _ ih =>
    rcases ih with rfl | rfl
    · exact .inr rfl
    · exact absurd enough (by decide)

theorem onRecv_ends_underway : ∃ parse, Loop.Leaves (onRecvBody (underway.getD · 0) 7) ⟨0,[]⟩ parse := by
  refine (onRecv_ends (by decide)).mpr fun pos boundary enough => ?_
  rcases underway_frames boundary with rfl | rfl
  · decide
  · exact absurd enough (by decide)

-- Four bytes of zeros.
theorem onRecv_stuck : ¬ ∀ (buffer : Nat → BYTE) (n : Nat), n < 2^31 → ∃ parse, Loop.Leaves (onRecvBody buffer n) ⟨0,[]⟩ parse := by
  intro always
  exact onRecv_nonzero (by decide) (always (fun _ => 0) 4 (by decide)) 0 .first (Nat.le_refl 4) rfl

end IocpChatServer.ServerCore.PacketSession
