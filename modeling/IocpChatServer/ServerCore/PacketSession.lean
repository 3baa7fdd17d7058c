import IocpChatServer.Foundations.Loop
import IocpChatServer.Foundations.Framing
import IocpChatServer.ServerCore.RecvBuffer

namespace IocpChatServer.ServerCore
open Foundations Memory Framing

-- Two bytes of a uint16, in the byte order of the machine the server is built for.
def word (low high : BYTE) : UInt16 := UInt16.ofNat (low.toNat + 256 * high.toNat)
def lowByte (w : UInt16) : BYTE := UInt8.ofNat (w.toNat % 256)
def highByte (w : UInt16) : BYTE := UInt8.ofNat (w.toNat / 256)

theorem word_toNat (low high : BYTE) : (word low high).toNat = low.toNat + 256 * high.toNat := by
  have lowBound := low.toNat_lt
  have highBound := high.toNat_lt
  simp only [word,UInt16.toNat_ofNat']
  omega

theorem word_bytes (w : UInt16) : word (lowByte w) (highByte w) = w := by
  apply UInt16.toNat_inj.mp
  have bound := w.toNat_lt
  rw [word_toNat]
  simp only [lowByte,highByte,UInt8.toNat_ofNat']
  omega

structure PacketHeader where
  size : UInt16
  id : UInt16
  deriving DecidableEq, Repr

namespace PacketHeader

def sizeof : Nat := 4

def ofBytes (bytes : List BYTE) : PacketHeader :=
  {size := word (bytes.getD 0 0) (bytes.getD 1 0),id := word (bytes.getD 2 0) (bytes.getD 3 0)}

def toBytes (h : PacketHeader) : List BYTE :=
  [lowByte h.size,highByte h.size,lowByte h.id,highByte h.id]

@[simp] theorem toBytes_length (h : PacketHeader) : h.toBytes.length = sizeof := rfl

theorem ofBytes_toBytes (h : PacketHeader) (rest : List BYTE) : ofBytes (h.toBytes ++ rest) = h := by
  simp [ofBytes,toBytes,word_bytes]

theorem ofBytes_take (bytes : List BYTE) : ofBytes (bytes.take sizeof) = ofBytes bytes := by
  simp [ofBytes,sizeof,List.getD_eq_getElem?_getD]

end PacketHeader

-- A frame as the sender lays it out: its own length in its first two bytes.
structure WellFormed (frame : List BYTE) : Prop where
  header : PacketHeader.sizeof ≤ frame.length
  size : (PacketHeader.ofBytes frame).size.toNat = frame.length

instance (frame : List BYTE) : Decidable (WellFormed frame) :=
  decidable_of_iff (PacketHeader.sizeof ≤ frame.length ∧
    (PacketHeader.ofBytes frame).size.toNat = frame.length)
    ⟨fun both => ⟨both.1,both.2⟩,fun wf => ⟨wf.header,wf.size⟩⟩

theorem WellFormed.short (wf : WellFormed frame) : frame.length ≤ 65535 := by
  have bound := (PacketHeader.ofBytes frame).size.toNat_lt
  have size := wf.size
  omega

namespace PacketSession

-- int32 meets sizeof, a size_t, and is converted to it.
def toSizeT (n : Int) : Nat := (n % 2^64).toNat

theorem toSizeT_small {n : Int} (least : 0 ≤ n) (small : n < 2^31) : toSizeT n = n.toNat := by
  unfold toSizeT
  omega

-- `processLen` and the OnRecvPacket calls made so far, by the bytes each call was given.
structure Parse where
  processLen : Int
  packets : List (List BYTE)
  deriving DecidableEq, Repr

def onRecvBody (buffer : Nat → BYTE) (len : Int) (s : Parse) : Option Parse :=
  let dataSize := len - s.processLen
  if toSizeT dataSize < PacketHeader.sizeof then none
  else
    let header := PacketHeader.ofBytes (slice buffer s.processLen.toNat PacketHeader.sizeof)
    if dataSize < header.size.toNat then none
    else some {
      processLen := s.processLen + header.size.toNat
      packets := s.packets ++ [slice buffer s.processLen.toNat header.size.toNat]}

-- `none` is a call that never returns; `onRecv_leaves` says the fuel hides nothing.
def onRecv (buffer : Nat → BYTE) (len : Int) : Option Parse :=
  Loop.iterate (onRecvBody buffer len) (len.toNat + 1) ⟨0,[]⟩

variable {buffer : Nat → BYTE} {len : Int} {s next r : Parse}

theorem body_parts (round : onRecvBody buffer len s = some next) :
    ∃ header, header = PacketHeader.ofBytes (slice buffer s.processLen.toNat PacketHeader.sizeof) ∧
      PacketHeader.sizeof ≤ toSizeT (len - s.processLen) ∧
      (header.size.toNat : Int) ≤ len - s.processLen ∧
      next = ⟨s.processLen + header.size.toNat,
        s.packets ++ [slice buffer s.processLen.toNat header.size.toNat]⟩ := by
  simp only [onRecvBody] at round
  split at round
  · cases round
  · rename_i enough
    split at round
    · cases round
    · rename_i whole
      exact ⟨_,rfl,Nat.le_of_not_lt enough,Int.not_lt.mp whole,(Option.some.inj round).symm⟩

-- A header of size 0 sends the loop round at the same place for ever.
theorem stuck_never_leaves (stuck : onRecvBody buffer len s = some next)
    (still : next.processLen = s.processLen) (fuel : Nat) :
    Loop.iterate (onRecvBody buffer len) fuel s = none := by
  induction fuel generalizing s next with
  | zero => rfl
  | succ fuel ih =>
    obtain ⟨header,read,enough,whole,rfl⟩ := body_parts stuck
    rw [Loop.iterate_round stuck]
    simp only at still
    have again : onRecvBody buffer len ⟨s.processLen + header.size.toNat,
        s.packets ++ [slice buffer s.processLen.toNat header.size.toNat]⟩ =
        some ⟨s.processLen + header.size.toNat,s.packets ++
          [slice buffer s.processLen.toNat header.size.toNat] ++
          [slice buffer s.processLen.toNat header.size.toNat]⟩ := by
      simp only [onRecvBody,still,← read]
      rw [if_neg (Nat.not_lt.mpr enough),if_neg (Int.not_lt.mpr whole)]
    exact ih again rfl

theorem iterate_enough (done : Loop.iterate (onRecvBody buffer len) fuel s = some r) :
    Loop.iterate (onRecvBody buffer len) ((len - s.processLen).toNat + 1) s = some r := by
  induction fuel generalizing s with
  | zero => cases done
  | succ fuel ih =>
    cases round : onRecvBody buffer len s with
    | none => simpa [Loop.iterate,round] using done
    | some next =>
      by_cases still : next.processLen = s.processLen
      · rw [stuck_never_leaves round still] at done
        cases done
      · rw [Loop.iterate_round round] at done ⊢
        obtain ⟨header,_,_,whole,rfl⟩ := body_parts round
        exact Loop.iterate_more (ih done) (by simp only at still ⊢; omega)

theorem onRecv_leaves : onRecv buffer len = some r ↔ Loop.Leaves (onRecvBody buffer len) ⟨0,[]⟩ r := by
  constructor
  · exact fun done => ⟨_,done⟩
  · intro given
    obtain ⟨fuel,done⟩ := given
    simpa [onRecv] using iterate_enough done

-- The loop on a stream of well-formed frames: `earlier` is behind it, `f` is next.
variable {f : List BYTE} {earlier frames : List (List BYTE)} {p n : Nat}

theorem body_delivers (wf : WellFormed f) (small : n < 2^31) (fits : p + f.length ≤ n)
    (ahead : slice buffer p f.length = f) :
    onRecvBody buffer n ⟨p,earlier⟩ = some ⟨(p + f.length : Nat),earlier ++ [f]⟩ := by
  have long := wf.header
  have size := wf.size
  have header : PacketHeader.ofBytes (slice buffer p PacketHeader.sizeof) = PacketHeader.ofBytes f := by
    rw [← slice_take long,ahead,PacketHeader.ofBytes_take]
  have remaining : toSizeT (n - p) = n - p := by rw [toSizeT_small] <;> omega
  simp only [onRecvBody,Int.toNat_natCast,header,size,ahead,remaining]
  rw [if_neg (by omega),if_neg (by omega)]
  rfl

theorem body_waits (wf : WellFormed f) (small : n < 2^31) (least : p ≤ n) (short : n < p + f.length)
    (ahead : slice buffer p (n - p) = f.take (n - p)) : onRecvBody buffer n ⟨p,earlier⟩ = none := by
  have size := wf.size
  have remaining : toSizeT (n - p) = n - p := by rw [toSizeT_small] <;> omega
  simp only [onRecvBody,Int.toNat_natCast,remaining]
  split
  · rfl
  · rename_i enough
    have within : PacketHeader.sizeof ≤ n - p := Nat.le_of_not_lt enough
    have header : PacketHeader.ofBytes (slice buffer p PacketHeader.sizeof) = PacketHeader.ofBytes f := by
      rw [← slice_take within,ahead,List.take_take,Nat.min_eq_left within,PacketHeader.ofBytes_take]
    rw [header,size,if_pos (by omega)]

theorem body_ends : onRecvBody buffer n ⟨n,earlier⟩ = none := by
  have nothing : toSizeT ((n : Int) - n) = 0 := by rw [Int.sub_self]; rfl
  simp only [onRecvBody,nothing]
  rfl

theorem leaves_frames (wf : ∀ f ∈ frames, WellFormed f) (small : n < 2^31) (least : p ≤ n)
    (within : n ≤ p + frames.flatten.length)
    (ahead : slice buffer p (n - p) = frames.flatten.take (n - p)) :
    Loop.Leaves (onRecvBody buffer n) ⟨p,earlier⟩
      ⟨(p + (arrived frames (n - p)).flatten.length : Nat),earlier ++ arrived frames (n - p)⟩ := by
  induction frames generalizing p earlier with
  | nil =>
    simp only [List.flatten_nil,List.length_nil,Nat.add_zero] at within
    have ended : p = n := Nat.le_antisymm least within
    subst ended
    exact ⟨1,by simpa [arrived] using Loop.iterate_leave body_ends⟩
  | cons f rest ih =>
    have head := wf f List.mem_cons_self
    have long := head.header
    simp only [List.flatten_cons,List.length_append] at within
    by_cases fits : f.length ≤ n - p
    · have next : slice buffer p f.length = f := by
        rw [← slice_take fits,ahead,List.flatten_cons,List.take_take,Nat.min_eq_left fits]
        simp
      have after : slice buffer (p + f.length) (n - (p + f.length)) =
          rest.flatten.take (n - (p + f.length)) := by
        have dropped := congrArg (List.drop f.length) ahead
        rw [slice_drop fits,List.flatten_cons,List.drop_take,List.drop_left] at dropped
        rwa [Nat.sub_add_eq]
      obtain ⟨fuel,done⟩ := @ih (earlier ++ [f]) (p + f.length)
        (fun g member => wf g (List.mem_cons_of_mem f member)) (by omega) (by omega) after
      refine ⟨fuel+1,?_⟩
      rw [Loop.iterate_round (body_delivers head small (by omega) next),done,arrived,if_pos fits]
      simp [Nat.sub_add_eq,Nat.add_assoc]
    · have part : slice buffer p (n - p) = f.take (n - p) := by
        rw [ahead,List.flatten_cons,List.take_append_of_le_length (by omega)]
      refine ⟨1,?_⟩
      rw [Loop.iterate_leave (body_waits head small least (by omega) part),arrived,if_neg fits]
      simp

theorem onRecv_frames (wf : ∀ f ∈ frames, WellFormed f) (small : n < 2^31)
    (within : n ≤ frames.flatten.length) (content : slice buffer 0 n = frames.flatten.take n) :
    onRecv buffer n = some ⟨((arrived frames n).flatten.length : Nat),arrived frames n⟩ := by
  have left := @leaves_frames buffer [] frames 0 n wf small (Nat.zero_le n) (by omega) (by simpa using content)
  simpa using onRecv_leaves.mpr left

def Meets (buffer : Nat → BYTE) (len : Int) (header : PacketHeader) : Prop :=
  ∃ s, Loop.Rounds (onRecvBody buffer len) ⟨0,[]⟩ s ∧ PacketHeader.sizeof ≤ toSizeT (len - s.processLen) ∧
    header = PacketHeader.ofBytes (slice buffer s.processLen.toNat PacketHeader.sizeof)

def OwnSize (stream : List BYTE) (packets : List (List BYTE)) : Prop :=
  ∀ earlier packet later, packets = earlier ++ packet :: later →
    earlier.flatten.length + PacketHeader.sizeof ≤ stream.length ∧
      (PacketHeader.ofBytes (stream.drop earlier.flatten.length)).size.toNat = packet.length

variable {stream more : List BYTE} {packets others : List (List BYTE)} {packet : List BYTE}

theorem ofBytes_longer (long : PacketHeader.sizeof ≤ stream.length) :
    PacketHeader.ofBytes (stream ++ more) = PacketHeader.ofBytes stream := by
  rw [← PacketHeader.ofBytes_take,List.take_append_of_le_length long,PacketHeader.ofBytes_take]

theorem ownSize_nil : OwnSize stream [] := by
  intro earlier packet later none
  simp at none

theorem OwnSize.longer (sized : OwnSize stream packets) : OwnSize (stream ++ more) packets := by
  intro earlier packet later split
  obtain ⟨within,size⟩ := sized earlier packet later split
  refine ⟨by rw [List.length_append]; omega,?_⟩
  rw [List.drop_append_of_le_length (by omega),ofBytes_longer (by rw [List.length_drop]; omega)]
  exact size

theorem OwnSize.append (sized : OwnSize stream packets) (rest : OwnSize (stream.drop packets.flatten.length) others) :
    OwnSize stream (packets ++ others) := by
  intro earlier packet later split
  rcases List.append_eq_append_iff.mp split with ⟨middle,rfl,rest_⟩ | ⟨middle,rfl,rest_⟩
  · obtain ⟨within,size⟩ := rest middle packet later rest_
    rw [List.length_drop] at within
    rw [List.drop_drop] at size
    have positive : PacketHeader.sizeof ≠ 0 := by decide
    rw [List.flatten_append,List.length_append]
    exact ⟨by omega,size⟩
  · cases middle with
    | nil =>
      obtain ⟨within,size⟩ := rest [] packet later rest_.symm
      rw [List.length_drop] at within
      have positive : PacketHeader.sizeof ≠ 0 := by decide
      simp only [List.append_nil,List.flatten_nil,List.length_nil,List.drop_zero] at within size ⊢
      exact ⟨by omega,size⟩
    | cons head tail =>
      obtain ⟨rfl,_⟩ := List.cons.inj rest_
      exact sized earlier packet tail rfl

theorem ownSize_one (long : PacketHeader.sizeof ≤ stream.length)
    (size : (PacketHeader.ofBytes stream).size.toNat = packet.length) : OwnSize stream [packet] := by
  intro earlier other later split
  cases earlier with
  | nil =>
    obtain ⟨rfl,_⟩ := List.cons.inj split
    exact ⟨by simpa using long,size⟩
  | cons => simp at split

-- Where the loop stands after any round, whatever the bytes are.
structure Walk (buffer : Nat → BYTE) (n : Nat) (s : Parse) : Prop where
  least : 0 ≤ s.processLen
  within : s.processLen ≤ n
  cut : s.packets.flatten = slice buffer 0 s.processLen.toNat
  sized : OwnSize (slice buffer 0 n) s.packets

theorem start_walk (buffer : Nat → BYTE) (n : Nat) : Walk buffer n ⟨0,[]⟩ :=
  ⟨Int.le_refl 0,Int.natCast_nonneg n,rfl,ownSize_nil⟩

theorem body_walk (small : n < 2^31) (walk : Walk buffer n s) (round : onRecvBody buffer n s = some next) :
    Walk buffer n next := by
  obtain ⟨header,read,enough,whole,rfl⟩ := body_parts round
  obtain ⟨least,within,cut,sized⟩ := walk
  obtain ⟨p,here⟩ := Int.eq_ofNat_of_zero_le least
  rw [here] at within enough whole cut read ⊢
  rw [toSizeT_small (by omega) (by omega)] at enough
  simp only [Int.toNat_natCast] at cut read ⊢
  have length : s.packets.flatten.length = p := by rw [cut,slice_length]
  refine ⟨by dsimp only; omega,by dsimp only; omega,?_,sized.append ?_⟩
  · have sum : ((p : Int) + header.size.toNat).toNat = p + header.size.toNat := by omega
    rw [List.flatten_append,cut,sum,slice_add,Nat.zero_add]
    simp
  · rw [length,slice_drop (by omega)]
    refine ownSize_one (by rw [slice_length]; omega) ?_
    rw [Nat.zero_add,← PacketHeader.ofBytes_take,slice_take (by omega),← read,slice_length]

theorem onRecv_walk (small : n < 2^31) (done : onRecv buffer n = some r) : Walk buffer n r :=
  (Loop.iterate_rounds done).1.invariant (fun _ _ walk round => body_walk small walk round) (start_walk buffer n)

theorem onRecv_exact (small : n < 2^31) :
    (∃ parse, onRecv buffer n = some parse) ↔ ∀ header, Meets buffer n header → header.size.toNat ≠ 0 := by
  constructor
  · rintro ⟨parse,done⟩ header ⟨s,path,enough,read⟩ zero
    have walk := path.invariant (fun _ _ walk round => body_walk small walk round) (start_walk buffer n)
    obtain ⟨next,round⟩ : ∃ next, onRecvBody buffer n s = some next := by
      have within := walk.within
      simp only [onRecvBody,← read,zero]
      rw [if_neg (Nat.not_lt.mpr enough),if_neg (by omega)]
      exact ⟨_,rfl⟩
    have still : next.processLen = s.processLen := by
      obtain ⟨header',again,_,_,rfl⟩ := body_parts round
      rw [again,← read,zero]
      exact Int.add_zero _
    obtain ⟨fuel,left⟩ := path.leaves (onRecv_leaves.mp done)
    rw [stuck_never_leaves round still] at left
    cases left
  · intro nonzero
    refine (Loop.leaves_variant (fun s : Parse => (n - s.processLen).toNat) fun s next path round => ?_).imp
      fun parse left => onRecv_leaves.mpr left
    have walk := path.invariant (fun _ _ walk round => body_walk small walk round) (start_walk buffer n)
    have within := walk.within
    obtain ⟨header,read,enough,whole,rfl⟩ := body_parts round
    have positive := nonzero header ⟨s,path,enough,read⟩
    dsimp only
    omega

end PacketSession
end IocpChatServer.ServerCore
