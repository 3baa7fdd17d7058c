import IocpChatServer.Foundations.WireRead
import IocpChatServer.Protobuf.StructurallyValid

namespace IocpChatServer.Protobuf
open Foundations Wire Reader

-- INT_MAX - kSlopBytes.
def maxSize : Nat := 2147483647 - 16

-- The readers look no further than the bytes up to the limit. Where the code may first read
-- over it, it fails at the next Done.
def varintParse (ptr : List UInt8) : Option (UInt64 × List UInt8) := (readGroups 10 ptr).map fun r => (UInt64.ofNat r.1,r.2)

def readTag (ptr : List UInt8) : Option (UInt32 × List UInt8) := (readGroups 5 ptr).map fun r => (UInt32.ofNat r.1,r.2)

def readSize (ptr : List UInt8) : Option (Nat × List UInt8) := (readGroups 5 ptr).filter fun r => r.1 ≤ maxSize

-- ReadSize, and so many bytes: ReadString, Skip, or PushLimit around a message.
def readString (ptr : List UInt8) : Option (List UInt8 × List UInt8) := (readSize ptr).bind fun r => readCount r.1 r.2

def fieldNumber (tag : UInt32) : Nat := tag.toNat / 8
def wireType (tag : UInt32) : Nat := tag.toNat % 8

def EndsParse (tag : UInt32) : Prop := tag = 0 ∨ wireType tag = 4

instance (tag : UInt32) : Decidable (EndsParse tag) := inferInstanceAs (Decidable (_ ∨ _))

-- FieldParser of a field nobody wants. `parseGroup` is ParseGroup behind its depth check.
def fieldParser (parseGroup : Nat → UInt32 → List UInt8 → Option (List UInt8)) (depth : Nat) (tag : UInt32)
    (ptr : List UInt8) : Option (List UInt8) :=
  if fieldNumber tag = 0 then none
  else match wireType tag with
    | 0 => (varintParse ptr).map (·.2)
    | 1 => (readCount 8 ptr).map (·.2)
    | 2 => (readString ptr).map (·.2)
    | 3 => match depth with
      | 0 => none
      | depth + 1 => parseGroup depth tag ptr
    | 5 => (readCount 4 ptr).map (·.2)
    | _ => none

-- WireFormatParser, from the inside of the group `start` to behind the tag that ends it. Every
-- round takes a byte, so that their number bounds the rounds.
def wireFormatParser : Nat → Nat → UInt32 → List UInt8 → Option (List UInt8)
  | 0,_,_,_ => none
  | more + 1,depth,start,ptr =>
    (readTag ptr).bind fun r =>
      if EndsParse r.1 then if r.1 = start + 1 then some r.2 else none
      else (fieldParser (wireFormatParser more) depth r.1 r.2).bind (wireFormatParser more depth start)

def unknownFieldParse (depth : Nat) (tag : UInt32) (ptr : List UInt8) : Option (List UInt8) :=
  fieldParser (wireFormatParser ptr.length) depth tag ptr

-- What the switch of an _InternalParse does at a tag it knows. A message is parsed into the
-- state, at a smaller depth.
inductive FieldCase (σ : Type) where
  | varint (set : UInt64 → σ → σ)
  | string (set : List UInt8 → σ → σ)
  | message (internalParse : Nat → List UInt8 → σ → Option σ)

variable {σ : Type}

def FieldCase.parse (depth : Nat) (msg : σ) (ptr : List UInt8) : FieldCase σ → Option (σ × List UInt8)
  | .varint set => (varintParse ptr).map fun r => (set r.1 msg,r.2)
  | .string set => ((readString ptr).filter fun r => isStructurallyValidUTF8 r.1 = true).map fun r => (set r.1 msg,r.2)
  | .message internalParse =>
    match depth with
    | 0 => none
    | depth + 1 => (readString ptr).bind fun r => (internalParse depth r.1 msg).map fun msg => (msg,r.2)

-- One round of the loop of an _InternalParse. A zero tag or the end of a group ends the parse,
-- but not at its limit, and whoever called it fails.
def parseField (switch : UInt32 → Option (FieldCase σ)) (depth : Nat) (msg : σ) (ptr : List UInt8) : Option (σ × List UInt8) :=
  (readTag ptr).bind fun r =>
    match switch r.1 with
    | some field => field.parse depth msg r.2
    | none => if EndsParse r.1 then none else (unknownFieldParse depth r.1 r.2).map fun rest => (msg,rest)

def internalParse (switch : UInt32 → Option (FieldCase σ)) (depth : Nat) (ptr : List UInt8) (msg : σ) : Option σ :=
  readAll (parseField switch depth) ptr.length ptr msg

def defaultRecursionLimit : Nat := 100

def parseFromArray (switch : UInt32 → Option (FieldCase σ)) (data : List UInt8) (msg : σ) : Option σ :=
  internalParse switch defaultRecursionLimit data msg

end IocpChatServer.Protobuf
