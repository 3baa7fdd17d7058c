import IocpChatServer.ServerCore.BufferWriter

namespace IocpChatServer.ServerCore
open Foundations Memory Cursor

structure BufferReader where
  buffer : Watched BYTE
  size : UInt32
  pos : UInt32

-- The reader after a call, the memory behind its dest, and its answer; operator>> has none and counts as true.
structure Fetched where
  reader : BufferReader
  dest : Nat → BYTE
  ok : Bool

namespace BufferReader

def make (buffer : Nat → BYTE) (size : UInt32) (pos : UInt32) : BufferReader := {buffer := {cells := buffer},size := size,pos := pos}

def freeSize (b : BufferReader) : UInt32 := b.size - b.pos

def peek (b : BufferReader) (dest : Nat → BYTE) (len : UInt32) : Fetched :=
  if b.freeSize < len then ⟨b,dest,false⟩
  else
    let (bytes,buffer) := b.buffer.get b.pos.toNat len.toNat
    ⟨{b with buffer := buffer},store dest 0 bytes,true⟩

def peekValue (b : BufferReader) (t : DataType) (dest : Nat → BYTE) : Fetched := b.peek dest t.sizeof.toUInt32

def read (b : BufferReader) (dest : Nat → BYTE) (len : UInt32) : Fetched :=
  let peeked := b.peek dest len
  if peeked.ok = false then peeked
  else {peeked with reader := {peeked.reader with pos := peeked.reader.pos + len}}

def readValue (b : BufferReader) (t : DataType) (dest : Nat → BYTE) : Fetched := b.read dest t.sizeof.toUInt32

-- operator>>
def extract (b : BufferReader) (t : DataType) (dest : Nat → BYTE) : Fetched :=
  let (bytes,buffer) := b.buffer.get b.pos.toNat t.sizeof.toNat
  ⟨{b with buffer := buffer,pos := b.pos + t.sizeof.toUInt32},store dest 0 bytes,true⟩

inductive Call where
  | peek (dest : Nat → BYTE) (len : UInt32)
  | peekValue (t : DataType) (dest : Nat → BYTE)
  | read (dest : Nat → BYTE) (len : UInt32)
  | readValue (t : DataType) (dest : Nat → BYTE)
  | extract (t : DataType) (dest : Nat → BYTE)

def fetch (b : BufferReader) : Call → Fetched
  | .peek dest len => b.peek dest len
  | .peekValue t dest => b.peekValue t dest
  | .read dest len => b.read dest len
  | .readValue t dest => b.readValue t dest
  | .extract t dest => b.extract t dest

def Inside (b : BufferReader) : Prop := Cursor.Inside b.size b.pos b.freeSize b.buffer.touched

variable {b : BufferReader} {t : DataType} {dest : Nat → BYTE} {len : UInt32}

theorem make_inside {buffer : Nat → BYTE} {size pos : UInt32} (within : pos ≤ size) : (make buffer size pos).Inside :=
  inside_of_within within fun _ member => absurd member List.not_mem_nil

theorem peek_fits (within : b.pos ≤ b.size) (fits : b.pos.toNat + len.toNat ≤ b.size.toNat) :
    b.peek dest len = ⟨{b with buffer := (b.buffer.get b.pos.toNat len.toNat).2},
      store dest 0 (slice b.buffer.cells b.pos.toNat len.toNat),true⟩ := by
  exact if_neg fun short => (short_iff within).1 short fits

theorem peek_full (within : b.pos ≤ b.size) (full : ¬ b.pos.toNat + len.toNat ≤ b.size.toNat) : b.peek dest len = ⟨b,dest,false⟩ := by
  exact if_pos ((short_iff within).2 full)

theorem read_fits (within : b.pos ≤ b.size) (fits : b.pos.toNat + len.toNat ≤ b.size.toNat) :
    b.read dest len = ⟨{b with buffer := (b.buffer.get b.pos.toNat len.toNat).2,pos := b.pos + len},
      store dest 0 (slice b.buffer.cells b.pos.toNat len.toNat),true⟩ := by
  simp only [read,peek_fits within fits]
  rfl

theorem read_full (within : b.pos ≤ b.size) (full : ¬ b.pos.toNat + len.toNat ≤ b.size.toNat) : b.read dest len = ⟨b,dest,false⟩ := by
  simp only [read,peek_full within full,if_true]

theorem peek_inside (inside : b.Inside) : (b.peek dest len).reader.Inside := by
  by_cases fits : b.pos.toNat + len.toNat ≤ b.size.toNat
  · rw [peek_fits inside.within fits]
    exact ⟨inside.within,inside.free,(Cursor.Inside.advance inside fits).touches⟩
  · rw [peek_full inside.within fits]
    exact inside

theorem read_inside (inside : b.Inside) : (b.read dest len).reader.Inside := by
  by_cases fits : b.pos.toNat + len.toNat ≤ b.size.toNat
  · rw [read_fits inside.within fits]
    exact Cursor.Inside.advance inside fits
  · rw [read_full inside.within fits]
    exact inside

theorem extract_inside (inside : b.Inside) (fits : b.pos.toNat + t.sizeof.toNat ≤ b.size.toNat) : (b.extract t dest).reader.Inside := by
  have same : t.sizeof.toUInt32.toNat = t.sizeof.toNat := cut_toNat (Nat.le_trans (Nat.le_add_left _ _) fits)
  have advanced := Cursor.Inside.advance inside (same ▸ fits)
  rw [same] at advanced
  exact advanced

theorem extract_outside (inside : b.Inside) (full : ¬ b.pos.toNat + t.sizeof.toNat ≤ b.size.toNat) : ¬ (b.extract t dest).reader.Inside := by
  intro after
  have touched : (b.pos.toNat,t.sizeof.toNat) ∈ (b.extract t dest).reader.buffer.touched := by
    simp [extract,Watched.get]
  exact full (after.fits touched (UInt32.le_iff_toNat_le.1 inside.within))

end BufferReader
end IocpChatServer.ServerCore
