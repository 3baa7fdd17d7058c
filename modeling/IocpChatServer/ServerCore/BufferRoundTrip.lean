import IocpChatServer.ServerCore.BufferFill
import IocpChatServer.ServerCore.BufferReader

namespace IocpChatServer.ServerCore.BufferRoundTrip
open Foundations Memory Cursor Known TransitionSystem BufferFill

def shapeOf : BufferReader.Call → Shape
  | .peek _ len => .block len
  | .peekValue t _ => .value t
  | .read _ len => .block len
  | .readValue t _ => .value t
  | .extract t _ => .value t

def moves : BufferReader.Call → Bool
  | .peek _ _ | .peekValue _ _ => false
  | .read _ _ | .readValue _ _ | .extract _ _ => true

def answer (fetched : Fetched) : Shape → Option Item
  | .value t => if fetched.ok then some (.value t (t.value (slice fetched.dest 0 t.sizeof.toNat))) else none
  | .block len => if fetched.ok then some (.block (slice fetched.dest 0 len.toNat)) else none

def readAll : List BufferReader.Call → BufferReader → List (Option Item) × BufferReader
  | [],b => ([],b)
  | call :: later,b =>
    let (answers,last) := readAll later (b.fetch call).reader
    (answer (b.fetch call) (shapeOf call) :: answers,last)

-- Each call that moves brings the next item, and a Peek in between that asks for the next item brings it too.
def Answers : List BufferReader.Call → List Item → List (Option Item) → Prop
  | [],[],[] => True
  | call :: later,items,brought :: answers =>
    if moves call then ∃ item rest, items = item :: rest ∧ brought = some item ∧ Answers later rest answers
    else (∀ item ∈ items.head?, shapeOf call = item.shape → brought = some item) ∧ Answers later items answers
  | _,_,_ => False

variable {size : UInt32} {actions : List Action} {b : BufferReader} {items : List Item} {item : Item} {call : BufferReader.Call}
  {dest : Nat → BYTE} {t : DataType}

structure Ready (b : BufferReader) (items : List Item) : Prop where
  room : b.pos.toNat + (items.flatMap Item.bytes).length ≤ b.size.toNat
  ahead : slice b.buffer.cells b.pos.toNat (items.flatMap Item.bytes).length = items.flatMap Item.bytes

theorem Ready.within (ready : Ready b items) : b.pos ≤ b.size :=
  UInt32.le_iff_toNat_le.2 (Nat.le_trans (Nat.le_add_right _ _) ready.room)

theorem Ready.head (ready : Ready b (item :: items)) : b.pos.toNat + item.bytes.length ≤ b.size.toNat ∧
    slice b.buffer.cells b.pos.toNat item.bytes.length = item.bytes := by
  obtain ⟨room,ahead⟩ := ready
  simp only [List.flatMap_cons,List.length_append] at room ahead
  rw [slice_add] at ahead
  exact ⟨by omega,(List.append_inj ahead slice_length).1⟩

theorem Ready.tail {next : BufferReader} (ready : Ready b (item :: items)) (size_ : next.size = b.size)
    (cells : next.buffer.cells = b.buffer.cells) (pos : next.pos.toNat = b.pos.toNat + item.bytes.length) : Ready next items := by
  obtain ⟨room,ahead⟩ := ready
  simp only [List.flatMap_cons,List.length_append] at room ahead
  rw [slice_add] at ahead
  exact ⟨by rw [pos,size_]; omega,by rw [cells,pos]; exact (List.append_inj ahead slice_length).2⟩

structure Brings (b : BufferReader) (call : BufferReader.Call) (item : Item) : Prop where
  ok : (b.fetch call).ok = true
  dest : slice (b.fetch call).dest 0 item.bytes.length = item.bytes
  pos : (b.fetch call).reader.pos.toNat = b.pos.toNat + if moves call then item.bytes.length else 0

theorem shape_len (room : item.bytes.length ≤ size.toNat) : item.shape.len.toNat = item.bytes.length := by
  have bound := size.toNat_lt
  cases item with
  | value t v =>
    have same : (Item.value t v).bytes.length = t.sizeof.toNat := t.bytes_length v
    rw [same] at room ⊢
    exact cut_toNat room
  | block bytes => exact UInt32.toNat_ofNat_of_lt' (Nat.lt_of_le_of_lt room bound)

theorem peek_brings {len : UInt32} (ready : Ready b (item :: items)) (same : len.toNat = item.bytes.length) :
    b.peek dest len = ⟨{b with buffer := (b.buffer.get b.pos.toNat item.bytes.length).2},store dest 0 item.bytes,true⟩ := by
  rw [BufferReader.peek_fits ready.within (same ▸ ready.head.1),same,ready.head.2]

theorem read_brings {len : UInt32} (ready : Ready b (item :: items)) (same : len.toNat = item.bytes.length) :
    b.read dest len = ⟨{b with buffer := (b.buffer.get b.pos.toNat item.bytes.length).2,pos := b.pos + len},store dest 0 item.bytes,true⟩ := by
  rw [BufferReader.read_fits ready.within (same ▸ ready.head.1),same,ready.head.2]

theorem extract_brings {v : t.Value} (ready : Ready b (.value t v :: items)) :
    b.extract t dest = ⟨{b with buffer := (b.buffer.get b.pos.toNat (t.bytes v).length).2,pos := b.pos + t.sizeof.toUInt32},
      store dest 0 (t.bytes v),true⟩ := by
  have ahead : slice b.buffer.cells b.pos.toNat t.sizeof.toNat = t.bytes v := t.bytes_length v ▸ ready.head.2
  simp only [BufferReader.extract,Watched.get,ahead,t.bytes_length]

theorem brings_of {next : BufferReader} (brought : b.fetch call = ⟨next,store dest 0 item.bytes,true⟩)
    (pos : next.pos.toNat = b.pos.toNat + if moves call then item.bytes.length else 0) : Brings b call item where
  ok := by rw [brought]
  dest := by
    rw [brought]
    show slice (store dest 0 item.bytes) 0 item.bytes.length = item.bytes
    exact slice_store
  pos := by rw [brought]; exact pos

theorem call_brings (ready : Ready b (item :: items)) (asks : shapeOf call = item.shape) : Brings b call item := by
  have room := ready.head.1
  have len : (shapeOf call).len.toNat = item.bytes.length := asks ▸ shape_len (Nat.le_trans (Nat.le_add_left _ _) room)
  have advance : (b.pos + (shapeOf call).len).toNat = b.pos.toNat + item.bytes.length := by
    have fits : b.pos.toNat + (shapeOf call).len.toNat ≤ b.size.toNat := len ▸ room
    rw [advance_toNat fits,len]
  cases call with
  | peek dest bound => exact brings_of (peek_brings ready len) rfl
  | peekValue t dest => exact brings_of (peek_brings ready len) rfl
  | read dest bound => exact brings_of (read_brings ready len) advance
  | readValue t dest => exact brings_of (read_brings ready len) advance
  | extract t dest =>
    cases item with
    | block bytes => cases asks
    | value other v =>
      cases asks
      exact brings_of (extract_brings ready) advance

theorem answer_brings (brings : Brings b call item) (asks : shapeOf call = item.shape) (room : item.bytes.length ≤ b.size.toNat) :
    answer (b.fetch call) (shapeOf call) = some item := by
  have len := shape_len room
  have dest := brings.dest
  rw [asks]
  cases item with
  | value t v =>
    have dest : slice (b.fetch call).dest 0 t.sizeof.toNat = t.bytes v := t.bytes_length v ▸ dest
    simp only [Item.shape,answer,brings.ok,if_true,dest,t.value_bytes]
  | block bytes =>
    have dest : slice (b.fetch call).dest 0 (UInt32.ofNat bytes.length).toNat = bytes := by
      have len : (UInt32.ofNat bytes.length).toNat = bytes.length := len
      rw [len]
      exact dest
    simp only [Item.shape,answer,brings.ok,if_true,dest]

theorem peek_keeps {len : UInt32} : (b.peek dest len).reader.buffer.cells = b.buffer.cells ∧ (b.peek dest len).reader.size = b.size ∧
    (b.peek dest len).reader.pos = b.pos := by
  unfold BufferReader.peek
  split <;> exact ⟨rfl,rfl,rfl⟩

theorem read_keeps {len : UInt32} : (b.read dest len).reader.buffer.cells = b.buffer.cells ∧ (b.read dest len).reader.size = b.size := by
  have peeked := @peek_keeps b dest len
  unfold BufferReader.read
  dsimp only
  split <;> exact ⟨peeked.1,peeked.2.1⟩

theorem fetch_keeps : (b.fetch call).reader.buffer.cells = b.buffer.cells ∧ (b.fetch call).reader.size = b.size := by
  cases call with
  | peek dest len => exact ⟨peek_keeps.1,peek_keeps.2.1⟩
  | peekValue t dest => exact ⟨peek_keeps.1,peek_keeps.2.1⟩
  | read dest len => exact read_keeps
  | readValue t dest => exact read_keeps
  | extract t dest => exact ⟨rfl,rfl⟩

theorem fetch_peeks (peeks : moves call = false) : (b.fetch call).reader.pos = b.pos := by
  cases call with
  | peek dest len => exact peek_keeps.2.2
  | peekValue t dest => exact peek_keeps.2.2
  | read dest len => cases peeks
  | readValue t dest => cases peeks
  | extract t dest => cases peeks

theorem Ready.peek (ready : Ready b items) (peeks : moves call = false) : Ready (b.fetch call).reader items := by
  have cells : (b.fetch call).reader.buffer.cells = b.buffer.cells := fetch_keeps.1
  have size_ : (b.fetch call).reader.size = b.size := fetch_keeps.2
  exact ⟨by rw [fetch_peeks peeks,size_]; exact ready.room,by rw [cells,fetch_peeks peeks]; exact ready.ahead⟩

theorem readAll_answers {calls : List BufferReader.Call} (ready : Ready b items)
    (order : (calls.filter moves).map shapeOf = items.map Item.shape) : Answers calls items (readAll calls b).1 ∧
      (readAll calls b).2.pos.toNat = b.pos.toNat + (items.flatMap Item.bytes).length := by
  induction calls generalizing b items with
  | nil =>
    have none_ : items = [] := by simpa using order.symm
    subst none_
    exact ⟨trivial,rfl⟩
  | cons call calls ih =>
    have brings_head : ∀ item rest, items = item :: rest → shapeOf call = item.shape →
        Brings b call item ∧ answer (b.fetch call) (shapeOf call) = some item := by
      rintro item rest rfl asks
      have brings := call_brings ready asks
      exact ⟨brings,answer_brings brings asks (Nat.le_trans (Nat.le_add_left _ _) ready.head.1)⟩
    cases goes : moves call with
    | false =>
      rw [List.filter_cons_of_neg (by simp [goes])] at order
      obtain ⟨later,pos⟩ := ih (ready.peek goes) order
      refine ⟨?_,by rw [readAll,pos,fetch_peeks goes]⟩
      simp only [readAll,Answers,goes]
      refine ⟨fun item next asks => ?_,later⟩
      cases items with
      | nil => cases next
      | cons head rest =>
        cases next
        exact (brings_head item rest rfl asks).2
    | true =>
      rw [List.filter_cons_of_pos goes,List.map_cons] at order
      cases items with
      | nil => cases order
      | cons item rest =>
        obtain ⟨asks,order⟩ := List.cons.inj order
        obtain ⟨brings,brought⟩ := brings_head item rest rfl asks
        have moved : (b.fetch call).reader.pos.toNat = b.pos.toNat + item.bytes.length := by simpa [goes] using brings.pos
        obtain ⟨later,pos⟩ := ih (ready.tail fetch_keeps.2 fetch_keeps.1 moved) order
        refine ⟨?_,?_⟩
        · simp only [readAll,Answers,goes]
          exact ⟨item,rest,rfl,brought,later⟩
        · rw [readAll,pos,moved,List.flatMap_cons,List.length_append,Nat.add_assoc]

-- What has been written, in whatever way, is read.
theorem reader_undoes_writer {readerSize : UInt32} {calls : List BufferReader.Call} (buffer : Nat → BYTE) (filled : Filled actions)
    (fits : ((contents actions).flatMap Item.bytes).length ≤ size.toNat)
    (order : (calls.filter moves).map shapeOf = (contents actions).map Item.shape) :
    ∃ s, execute Writing.after {writer := .make buffer size 0} actions = some s ∧ (s.writer.writeSize ≤ readerSize →
      Answers calls (contents actions) (readAll calls (.make s.writer.buffer.cells readerSize 0)).1 ∧
        (readAll calls (.make s.writer.buffer.cells readerSize 0)).2.pos = s.writer.writeSize) := by
  obtain ⟨fields,drafted,whole⟩ := filled
  have length : (cellsOf fields).length = ((contents actions).flatMap Item.bytes).length := by rw [whole,List.length_map]
  obtain ⟨s,done,holds⟩ := (holds_make buffer).run drafted (length ▸ fits)
  refine ⟨s,done,fun enough => ?_⟩
  have written : s.writer.writeSize.toNat = ((contents actions).flatMap Item.bytes).length := holds.pos.trans length
  have ready : Ready (.make s.writer.buffer.cells readerSize 0) (contents actions) := by
    refine ⟨?_,sees_slice (whole ▸ holds.sees)⟩
    have enough := UInt32.le_iff_toNat_le.1 enough
    rw [written] at enough
    exact Nat.le_trans (Nat.le_of_eq (Nat.zero_add _)) enough
  obtain ⟨answers,pos⟩ := readAll_answers ready order
  refine ⟨answers,UInt32.toNat_inj.1 ?_⟩
  rw [pos,written]
  exact Nat.zero_add _

-- A length that is reserved first and known last, with a peek at what follows it.
def lengthFirst : List Action :=
  [.reserve (.array 2) 1 [⟨[3,0],rfl⟩],.insert (.array 1) ⟨[9],rfl⟩,.write (fun i => if i = 0 then 4 else 5) 2,
    .fill 0 0 [1,1],.fill 0 0 [3,0]]

def lengthFirstRead : List BufferReader.Call :=
  [.peekValue (.array 1) fun _ => 0,.extract (.array 2) fun _ => 0,.peekValue (.array 1) fun _ => 0,.readValue (.array 1) fun _ => 0,
    .read (fun _ => 0) 2]

theorem reader_undoes_length_first : Filled lengthFirst ∧ ((contents lengthFirst).flatMap Item.bytes).length ≤ (8 : UInt32).toNat ∧
    (lengthFirstRead.filter moves).map shapeOf = (contents lengthFirst).map Item.shape ∧
      ∃ s, execute Writing.after {writer := .make (fun _ => 255) 8 0} lengthFirst = some s ∧ (s.writer.writeSize ≤ 5 →
        Answers lengthFirstRead (contents lengthFirst) (readAll lengthFirstRead (.make s.writer.buffer.cells 5 0)).1 ∧
          (readAll lengthFirstRead (.make s.writer.buffer.cells 5 0)).2.pos = s.writer.writeSize) := by
  have filled : Filled lengthFirst := ⟨_,rfl,rfl⟩
  have fits : ((contents lengthFirst).flatMap Item.bytes).length ≤ (8 : UInt32).toNat := by decide
  have order : (lengthFirstRead.filter moves).map shapeOf = (contents lengthFirst).map Item.shape := rfl
  exact ⟨filled,fits,order,reader_undoes_writer (fun _ => 255) filled fits order⟩

end IocpChatServer.ServerCore.BufferRoundTrip
