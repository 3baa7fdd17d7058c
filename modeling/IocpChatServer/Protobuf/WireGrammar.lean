import IocpChatServer.Protobuf.ParseContext

namespace IocpChatServer.Protobuf
open Foundations Wire Reader

-- What the bytes of a message may look like, apart from how they are read.
def Tag (tag : UInt32) (front : List UInt8) : Prop := ∃ n, Groups 5 n front ∧ tag = UInt32.ofNat n

def Varint (value : UInt64) (front : List UInt8) : Prop := ∃ n, Groups 10 n front ∧ value = UInt64.ofNat n

def Delimited (inside front : List UInt8) : Prop :=
  ∃ size, front = size ++ inside ∧ Groups 5 inside.length size ∧ inside.length ≤ maxSize

inductive Plain (tag : UInt32) : List UInt8 → Prop where
  | varint {value : UInt64} {body : List UInt8} : wireType tag = 0 → Varint value body → Plain tag body
  | fixed64 {body : List UInt8} : wireType tag = 1 → body.length = 8 → Plain tag body
  | lengthDelimited {inside body : List UInt8} : wireType tag = 2 → Delimited inside body → Plain tag body
  | fixed32 {body : List UInt8} : wireType tag = 5 → body.length = 4 → Plain tag body

-- The inside of the group `start` and the tag that ends it, with room for so many groups inside.
inductive Group : Nat → UInt32 → List UInt8 → Prop where
  | close {depth : Nat} {start : UInt32} {front : List UInt8} : Tag (start + 1) front → EndsParse (start + 1) →
      Group depth start front
  | plain {depth : Nat} {start tag : UInt32} {front body rest : List UInt8} : Tag tag front → ¬EndsParse tag →
      fieldNumber tag ≠ 0 → Plain tag body → Group depth start rest → Group depth start (front ++ (body ++ rest))
  | group {depth : Nat} {start tag : UInt32} {front body rest : List UInt8} : Tag tag front → fieldNumber tag ≠ 0 →
      wireType tag = 3 → Group depth tag body → Group (depth + 1) start rest →
      Group (depth + 1) start (front ++ (body ++ rest))

inductive Unknown : Nat → UInt32 → List UInt8 → Prop where
  | plain {depth : Nat} {tag : UInt32} {body : List UInt8} : fieldNumber tag ≠ 0 → Plain tag body → Unknown depth tag body
  | group {depth : Nat} {tag : UInt32} {body : List UInt8} : fieldNumber tag ≠ 0 → wireType tag = 3 → Group depth tag body →
      Unknown (depth + 1) tag body

theorem readTag_reads : Reads readTag Tag := readGroups_reads.map _

theorem varintParse_reads : Reads varintParse Varint := readGroups_reads.map _

theorem readString_reads : Reads readString Delimited := by
  have sized := (@readGroups_reads 5).filter fun n => n ≤ maxSize
  refine (sized.bind readCount_reads).congr fun inside front => ?_
  constructor
  · rintro ⟨n,size,body,rfl,⟨written,small⟩,rfl,rfl⟩
    exact ⟨size,rfl,written,small⟩
  · rintro ⟨size,rfl,written,small⟩
    exact ⟨_,size,inside,rfl,⟨written,small⟩,rfl,rfl⟩

theorem Tag.some_byte {tag : UInt32} {front : List UInt8} (written : Tag tag front) : front ≠ [] := by
  obtain ⟨n,groups,_⟩ := written
  exact groups.some_byte

variable {depth : Nat} {start tag : UInt32} {ptr front body rest : List UInt8}

theorem skipped {α : Type} {read : List UInt8 → Option (α × List UInt8)} {Written : α → List UInt8 → Prop}
    (reads : Reads read Written) (skips : (read ptr).map (·.2) = some rest) :
    ∃ value front, ptr = front ++ rest ∧ Written value front := by
  obtain ⟨⟨value,left⟩,found,equal⟩ := Option.map_eq_some_iff.mp skips
  cases equal
  obtain ⟨front,split,written⟩ := (reads _ _ _).mp found
  exact ⟨value,front,split,written⟩

theorem fieldParser_unknown {parseGroup : Nat → UInt32 → List UInt8 → Option (List UInt8)}
    (group : ∀ depth ptr, parseGroup depth tag ptr = some rest → ∃ front, ptr = front ++ rest ∧ Group depth tag front)
    (parsed : fieldParser parseGroup depth tag ptr = some rest) : ∃ body, ptr = body ++ rest ∧ Unknown depth tag body := by
  unfold fieldParser at parsed
  split at parsed
  · cases parsed
  rename_i numbered
  split at parsed
  · rename_i kind
    obtain ⟨value,body,split,written⟩ := skipped varintParse_reads parsed
    exact ⟨body,split,.plain numbered (.varint kind written)⟩
  · rename_i kind
    obtain ⟨value,body,split,_,long⟩ := skipped (readCount_reads 8) parsed
    exact ⟨body,split,.plain numbered (.fixed64 kind long)⟩
  · rename_i kind
    obtain ⟨value,body,split,written⟩ := skipped readString_reads parsed
    exact ⟨body,split,.plain numbered (.lengthDelimited kind written)⟩
  · rename_i kind
    cases depth with
    | zero => cases parsed
    | succ depth =>
      obtain ⟨body,split,inside⟩ := group depth ptr parsed
      exact ⟨body,split,.group numbered kind inside⟩
  · rename_i kind
    obtain ⟨value,body,split,_,long⟩ := skipped (readCount_reads 4) parsed
    exact ⟨body,split,.plain numbered (.fixed32 kind long)⟩
  · cases parsed

theorem wireFormatParser_group {fuel : Nat} (parsed : wireFormatParser fuel depth start ptr = some rest) :
    ∃ front, ptr = front ++ rest ∧ Group depth start front := by
  induction fuel generalizing depth start ptr rest with
  | zero => cases parsed
  | succ fuel ih =>
    obtain ⟨⟨tag,behind⟩,read,round⟩ := Option.bind_eq_some_iff.mp parsed
    obtain ⟨front,rfl,written⟩ := (readTag_reads _ _ _).mp read
    split at round
    · rename_i ends
      split at round
      · rename_i closes
        cases round
        exact ⟨front,rfl,.close (closes ▸ written) (closes ▸ ends)⟩
      · cases round
    · rename_i more
      obtain ⟨middle,field,further⟩ := Option.bind_eq_some_iff.mp round
      obtain ⟨left,rfl,group⟩ := ih further
      obtain ⟨body,rfl,unknown⟩ := fieldParser_unknown (fun _ _ => ih) field
      refine ⟨front ++ (body ++ left),by simp only [List.append_assoc],?_⟩
      cases unknown with
      | plain numbered plain => exact .plain written more numbered plain group
      | group numbered kind inside => exact .group written numbered kind inside group

theorem Plain.parse {parseGroup : Nat → UInt32 → List UInt8 → Option (List UInt8)} (numbered : fieldNumber tag ≠ 0)
    (plain : Plain tag body) : fieldParser parseGroup depth tag (body ++ rest) = some rest := by
  unfold fieldParser
  rw [if_neg numbered]
  cases plain with
  | varint kind written => simp only [kind,varintParse_reads.front written,Option.map_some]
  | fixed64 kind long => simp only [kind,(readCount_reads 8).front ⟨rfl,long⟩,Option.map_some]
  | lengthDelimited kind written => simp only [kind,readString_reads.front written,Option.map_some]
  | fixed32 kind long => simp only [kind,(readCount_reads 4).front ⟨rfl,long⟩,Option.map_some]

theorem Group.parse {fuel : Nat} (group : Group depth start front) (enough : (front ++ rest).length ≤ fuel) :
    wireFormatParser fuel depth start (front ++ rest) = some rest := by
  induction group generalizing fuel rest with
  | @close depth start front written ends =>
    have longer : 0 < front.length := List.length_pos_iff.mpr written.some_byte
    obtain ⟨fuel,rfl⟩ : ∃ n, fuel = n + 1 := ⟨fuel - 1,by simp only [List.length_append] at enough; omega⟩
    simp only [wireFormatParser,readTag_reads.front written,Option.bind_some,if_pos ends,if_pos]
  | @plain depth start tag front body behind written more numbered plain _ ih =>
    have longer : 0 < front.length := List.length_pos_iff.mpr written.some_byte
    simp only [List.length_append] at enough
    obtain ⟨fuel,rfl⟩ : ∃ n, fuel = n + 1 := ⟨fuel - 1,by omega⟩
    simp only [wireFormatParser,List.append_assoc,readTag_reads.front written,Option.bind_some,if_neg more,
      plain.parse numbered]
    exact ih (by simp only [List.length_append]; omega)
  | @group depth start tag front body behind written numbered kind _ _ inner ih =>
    have longer : 0 < front.length := List.length_pos_iff.mpr written.some_byte
    have more : ¬EndsParse tag := by
      rintro (zero | ends)
      · exact numbered (by rw [zero]; rfl)
      · omega
    simp only [List.length_append] at enough
    obtain ⟨fuel,rfl⟩ : ∃ n, fuel = n + 1 := ⟨fuel - 1,by omega⟩
    have inside : wireFormatParser fuel depth tag (body ++ (behind ++ rest)) = some (behind ++ rest) :=
      inner (by simp only [List.length_append]; omega)
    simp only [wireFormatParser,List.append_assoc,readTag_reads.front written,Option.bind_some,if_neg more,fieldParser,
      if_neg numbered,kind,inside]
    exact ih (by simp only [List.length_append]; omega)

theorem unknownFieldParse_exact : unknownFieldParse depth tag ptr = some rest ↔
    ∃ body, ptr = body ++ rest ∧ Unknown depth tag body := by
  constructor
  · exact fieldParser_unknown fun _ _ => wireFormatParser_group
  · rintro ⟨body,rfl,unknown⟩
    cases unknown with
    | plain numbered plain => exact plain.parse numbered
    | group numbered kind inside =>
      simp only [unknownFieldParse,fieldParser,if_neg numbered,kind]
      exact inside.parse (Nat.le_refl _)

end IocpChatServer.Protobuf
