import IocpChatServer.Foundations.Lines
import IocpChatServer.Tools.ProtoParser

namespace IocpChatServer.Tools.ProtoLayout
open Foundations Lines ProtoParser

-- What a proto file may hold between two tokens, when Python has made a newline of every line end. A line comment without its
-- line end is the end of the file.
inductive Gap where
  | blank (c : Char)
  | lineComment (text : Str) (ended : Bool)
  | blockComment (text : Str)

def Gap.text : Gap → Str
  | .blank c => [c]
  | .lineComment text ended => "//".toList ++ text ++ if ended then ['\n'] else []
  | .blockComment text => "/*".toList ++ text ++ "*/".toList

def Gap.legal : Gap → Bool
  | .blank c => " \t\n\x0b\x0c".toList.contains c
  | .lineComment text _ => !text.contains '\n'
  | .blockComment text => !text.tails.any fun rest => "*/".toList.isPrefixOf rest

structure Token where
  text : Str
  declares : Option Str := none

inductive Statement where
  | message (name : Str) (body : List Str)
  | other (tokens : List Str)

def Statement.tokens : Statement → List Token
  | .message name body => {text := "message".toList,declares := some name} :: {text := name} :: body.map fun text => {text := text}
  | .other tokens => tokens.map fun text => {text := text}

def Statement.name : Statement → Option Str
  | .message name _ => some name
  | .other _ => none

-- The first character of a keyword carries the name of its message along.
abbrev Marked := Char × Option Str

def Token.marked (token : Token) : List Marked := match token.text with
  | [] => []
  | c :: rest => (c,token.declares) :: rest.map fun c => (c,none)

def marked (gaps : List Gap) : List Marked := (gaps.flatMap Gap.text).map fun c => (c,none)

def render : List Token → List (List Gap) → List Marked
  | [],layout => marked (layout.headD [])
  | token :: later,layout => marked (layout.headD []) ++ token.marked ++ render later layout.tail

def wordChar (c : Char) : Bool := c.isAlphanum || c == '_'

def apart (one two : Token) (gaps : List Gap) : Bool :=
  !gaps.isEmpty || !(one.text.getLast?.any wordChar && two.text.head?.any wordChar)

def ended : Gap → Bool
  | .lineComment _ false => false
  | _ => true

def legal : List Token → List (List Gap) → Bool
  | [],[last] => last.all Gap.legal && last.dropLast.all ended
  | token :: later,gaps :: layout => gaps.all Gap.legal && gaps.all ended && legal later layout &&
    match later with
    | [] => true
    | next :: _ => apart token next (layout.headD [])
  | _,_ => false

def tokensOf (file : List Statement) : List Token := file.flatMap Statement.tokens

def markedLines (file : List Statement) (layout : List (List Gap)) : List (List Marked) :=
  lines (fun c => c.1 == '\n') (render (tokensOf file) layout)

def textOf (line : List Marked) : Str := line.map Prod.fst

def readlines (file : List Statement) (layout : List (List Gap)) : List Str :=
  lines (fun c => c == '\n') (textOf (render (tokensOf file) layout))

def isPacket (recvPrefix sendPrefix name : Str) : Bool := name.startswith recvPrefix || name.startswith sendPrefix

def packets (upperChar : Char → Str) (recvPrefix sendPrefix : Str) (file : List Statement) : List Str :=
  ((file.filterMap Statement.name).map (Str.upper upperChar)).filter (isPacket recvPrefix sendPrefix)

def declared (line : List Marked) : Option Str := line.head?.bind Prod.snd

-- The message whose keyword begins the line, if its name is the line's second word.
def placed (upperChar : Char → Str) (line : List Marked) : Option Str :=
  (declared line).bind fun name =>
    if pktName upperChar (textOf line) = some (name.upper upperChar) then some (name.upper upperChar) else none

-- The line is no IndexError, and if it gives a packet's name a message of that name begins there.
structure Harmless (upperChar : Char → Str) (recvPrefix sendPrefix : Str) (line : List Marked) : Prop where
  named : isMessage (textOf line) = true → 2 ≤ (textOf line).split.length
  declares : ∀ name ∈ pktName upperChar (textOf line), isPacket recvPrefix sendPrefix name = true →
    (declared line).map (Str.upper upperChar) = some name

instance (upperChar : Char → Str) (recvPrefix sendPrefix : Str) (line : List Marked) : Decidable (Harmless upperChar recvPrefix sendPrefix line) :=
  decidable_of_iff ((isMessage (textOf line) = true → 2 ≤ (textOf line).split.length) ∧
    ∀ name ∈ pktName upperChar (textOf line), isPacket recvPrefix sendPrefix name = true →
      (declared line).map (Str.upper upperChar) = some name)
    ⟨fun both => ⟨both.1,both.2⟩,fun harmless => ⟨harmless.named,harmless.declares⟩⟩

def Placed (upperChar : Char → Str) (recvPrefix sendPrefix : Str) (marks : List Marked) : Prop :=
  ∀ (i : Nat) (name : Str), marks[i]?.bind Prod.snd = some name → isPacket recvPrefix sendPrefix (name.upper upperChar) = true →
    i = 0 ∧ pktName upperChar (textOf marks) = some (name.upper upperChar)

variable {upperChar : Char → Str} {A B : Str} {line : List Marked} {file : List Statement} {layout : List (List Gap)}

theorem marked_names (gaps : List Gap) : (marked gaps).filterMap Prod.snd = [] := by
  simp [marked,List.filterMap_map]

theorem token_names (token : Token) (visible : token.declares ≠ none → token.text ≠ []) :
    token.marked.filterMap Prod.snd = token.declares.toList := by
  obtain ⟨text,declares⟩ := token
  cases text with
  | nil =>
    cases declares with
    | none => rfl
    | some name => exact absurd rfl (visible (Option.some_ne_none name))
  | cons c rest =>
    have unmarked : (rest.map fun c : Char => ((c,none) : Marked)).filterMap Prod.snd = [] := by
      simp [List.filterMap_map]
    cases declares with
    | none => simp [Token.marked,unmarked]
    | some name => simp [Token.marked,unmarked]

theorem render_names (tokens : List Token) (visible : ∀ token ∈ tokens, token.declares ≠ none → token.text ≠ [])
    (layout : List (List Gap)) : (render tokens layout).filterMap Prod.snd = tokens.filterMap Token.declares := by
  induction tokens generalizing layout with
  | nil => exact marked_names _
  | cons token later ih =>
    have ih := ih (fun other member => visible other (List.mem_cons_of_mem _ member)) layout.tail
    rw [render,List.filterMap_append,List.filterMap_append,marked_names,token_names token (visible token List.mem_cons_self),ih]
    cases same : token.declares <;> simp [same]

theorem statement_names (statement : Statement) : statement.tokens.filterMap Token.declares = statement.name.toList := by
  cases statement with
  | message name body => simp [Statement.tokens,Statement.name,List.filterMap_map]
  | other tokens => simp [Statement.tokens,Statement.name,List.filterMap_map]

theorem tokensOf_visible : ∀ token ∈ tokensOf file, token.declares ≠ none → token.text ≠ [] := by
  intro token member declares
  obtain ⟨statement,_,inside⟩ := List.mem_flatMap.1 member
  cases statement with
  | message name body =>
    rcases List.mem_cons.1 inside with rfl | inside
    · simp
    · rcases List.mem_cons.1 inside with rfl | inside
      · exact absurd rfl declares
      · obtain ⟨text,_,rfl⟩ := List.mem_map.1 inside
        exact absurd rfl declares
  | other tokens =>
    obtain ⟨text,_,rfl⟩ := List.mem_map.1 inside
    exact absurd rfl declares

theorem tokensOf_names : (tokensOf file).filterMap Token.declares = file.filterMap Statement.name := by
  induction file with
  | nil => rfl
  | cons statement rest ih =>
    have parts : tokensOf (statement :: rest) = statement.tokens ++ tokensOf rest := List.flatMap_cons
    rw [parts,List.filterMap_append,statement_names,ih]
    cases same : statement.name <;> simp [same]

theorem readlines_marked : readlines file layout = (markedLines file layout).map textOf := lines_map _ Prod.fst _

def declaredIn (upperChar : Char → Str) (A B : Str) (line : List Marked) : List Str :=
  ((line.filterMap Prod.snd).map (Str.upper upperChar)).filter (isPacket A B)

theorem packets_lines (layout : List (List Gap)) : packets upperChar A B file =
    (markedLines file layout).flatMap (declaredIn upperChar A B) := by
  have whole : (markedLines file layout).flatten = render (tokensOf file) layout := lines_flatten _ _
  rw [packets,← tokensOf_names,← render_names _ tokensOf_visible layout,← whole,List.filterMap_flatten,List.map_flatten,List.filter_flatten,
    List.flatMap,List.map_map,List.map_map]
  rfl

theorem placed_some {name : Str} (given : placed upperChar line = some name) : pktName upperChar (textOf line) = some name ∧
    ∃ message, declared line = some message ∧ message.upper upperChar = name := by
  obtain ⟨message,declares,same⟩ := Option.bind_eq_some_iff.1 given
  split at same
  case isTrue second =>
    cases same
    exact ⟨second,message,declares,rfl⟩
  case isFalse => cases same

theorem harmless_packet (harmless : Harmless upperChar A B line) (name : Str) (packet : isPacket A B name = true) :
    pktName upperChar (textOf line) = some name ↔ placed upperChar line = some name := by
  constructor
  · intro gives
    obtain ⟨message,declares,rfl⟩ := Option.map_eq_some_iff.1 (harmless.declares name gives packet)
    simp [placed,declares,gives]
  · intro given
    exact (placed_some given).1

theorem names_placed (harmless : ∀ line ∈ markedLines file layout, Harmless upperChar A B line) :
    names upperChar A B (readlines file layout) = ((markedLines file layout).filterMap (placed upperChar)).filter (isPacket A B) := by
  rw [names,readlines_marked,List.filterMap_map,List.filter_filterMap,List.filter_filterMap]
  refine List.filterMap_congr fun line member => Option.ext fun name => ?_
  rw [Option.filter_eq_some_iff,Option.filter_eq_some_iff]
  exact and_congr_left fun packet => harmless_packet (harmless line member) name packet

theorem declaredIn_cons (c : Marked) (rest : List Marked) :
    declaredIn upperChar A B (c :: rest) = declaredIn upperChar A B [c] ++ declaredIn upperChar A B rest := by
  rw [declaredIn,show c :: rest = [c] ++ rest from rfl,List.filterMap_append,List.map_append,List.filter_append]
  rfl

theorem mem_declaredIn {marks : List Marked} {name : Str} : name ∈ declaredIn upperChar A B marks ↔
    ∃ (i : Nat) (message : Str), marks[i]?.bind Prod.snd = some message ∧ message.upper upperChar = name ∧ isPacket A B name = true := by
  simp only [declaredIn,List.mem_filter,List.mem_map,List.mem_filterMap]
  constructor
  · rintro ⟨⟨message,⟨c,member,declares⟩,same⟩,packet⟩
    obtain ⟨i,there⟩ := List.mem_iff_getElem?.1 member
    exact ⟨i,message,by rw [there]; exact declares,same,packet⟩
  · rintro ⟨i,message,declares,same,packet⟩
    obtain ⟨c,there,declares⟩ := Option.bind_eq_some_iff.1 declares
    exact ⟨⟨message,⟨c,List.mem_of_getElem? there,declares⟩,same⟩,packet⟩

theorem placed_first (c : Marked) (rest : List Marked) :
    ((placed upperChar (c :: rest)).toList.filter (isPacket A B)).Sublist (declaredIn upperChar A B [c]) := by
  refine List.Sublist.filter _ ?_
  cases given : placed upperChar (c :: rest) with
  | none => exact List.nil_sublist _
  | some name =>
    obtain ⟨_,message,declares,rfl⟩ := placed_some given
    have first : c.2 = some message := declares
    simp [first]

theorem placed_sublist : ((placed upperChar line).toList.filter (isPacket A B)).Sublist (declaredIn upperChar A B line) := by
  cases line with
  | nil => exact List.nil_sublist _
  | cons c rest =>
    rw [declaredIn_cons]
    exact (placed_first c rest).trans (List.sublist_append_left _ _)

theorem placed_exact : (placed upperChar line).toList.filter (isPacket A B) = declaredIn upperChar A B line ↔ Placed upperChar A B line := by
  cases line with
  | nil =>
    refine ⟨fun _ i name there => ?_,fun _ => rfl⟩
    cases there
  | cons c rest =>
    rw [declaredIn_cons]
    have first : ((placed upperChar (c :: rest)).toList.filter (isPacket A B)).Sublist (declaredIn upperChar A B [c]) := placed_first c rest
    constructor
    · intro same i name there packet
      have lengths := congrArg List.length same
      have shorter := first.length_le
      rw [List.length_append] at lengths
      have none_ : declaredIn upperChar A B rest = [] := List.eq_nil_of_length_eq_zero (by omega)
      rw [none_,List.append_nil] at same
      cases i with
      | succ i =>
        have member : name.upper upperChar ∈ declaredIn upperChar A B rest := mem_declaredIn.2 ⟨i,name,there,rfl,packet⟩
        rw [none_] at member
        cases member
      | zero =>
        have member : name.upper upperChar ∈ declaredIn upperChar A B [c] := mem_declaredIn.2 ⟨0,name,there,rfl,packet⟩
        rw [← same,List.mem_filter,Option.mem_toList] at member
        exact ⟨rfl,(placed_some member.1).1⟩
    · intro each
      have none_ : declaredIn upperChar A B rest = [] := by
        refine List.eq_nil_iff_forall_not_mem.2 fun name member => ?_
        obtain ⟨i,message,there,rfl,packet⟩ := mem_declaredIn.1 member
        exact absurd (each (i + 1) message there packet).1 (Nat.succ_ne_zero i)
      rw [none_,List.append_nil]
      refine first.eq_of_length_le ?_
      cases declares : c.2 with
      | none => simp [declaredIn,declares]
      | some name =>
        by_cases packet : isPacket A B (name.upper upperChar) = true
        · have second := (each 0 name declares packet).2
          have given : placed upperChar (c :: rest) = some (name.upper upperChar) := by simp [placed,declared,declares,second]
          simp [declaredIn,declares,given,packet]
        · simp [declaredIn,declares,packet]

theorem number_inj {id : Int} {one two : List Str} : number id one = number id two ↔ one = two := by
  refine ⟨fun same => ?_,fun same => same ▸ rfl⟩
  rw [← number_names id one,same,number_names]

-- What the scan records of a file in which no line does harm: the packets that are placed; and these are all exactly if all are.
theorem layout_recorded (startId : Int) (harmless : ∀ line ∈ markedLines file layout, Harmless upperChar A B line) :
    ∃ p, parseProto upperChar (make startId A B) (readlines file layout) = some p ∧
      p.totalPkt = number startId (((markedLines file layout).filterMap (placed upperChar)).filter (isPacket A B)) ∧
      (p.totalPkt = number startId (packets upperChar A B file) ↔ ∀ line ∈ markedLines file layout, Placed upperChar A B line) := by
  have named : ∀ line ∈ readlines file layout, isMessage line = true → 2 ≤ line.split.length := by
    intro line member message
    rw [readlines_marked] at member
    obtain ⟨marks,there,rfl⟩ := List.mem_map.1 member
    exact (harmless marks there).named message
  have parsed := @parse_exact upperChar (readlines file layout) named (make startId A B)
  have recorded := names_placed harmless
  simp only [make,List.nil_append] at parsed
  rw [recorded] at parsed
  refine ⟨_,parsed,rfl,?_⟩
  have each : ((markedLines file layout).filterMap (placed upperChar)).filter (isPacket A B) =
      (markedLines file layout).flatMap fun line => (placed upperChar line).toList.filter (isPacket A B) := by
    rw [List.filterMap_eq_flatMap_toList,List.filter_flatMap]
  calc number startId (((markedLines file layout).filterMap (placed upperChar)).filter (isPacket A B)) =
        number startId (packets upperChar A B file)
    _ ↔ ((markedLines file layout).filterMap (placed upperChar)).filter (isPacket A B) = packets upperChar A B file := number_inj
    _ ↔ ∀ line ∈ markedLines file layout,
        (placed upperChar line).toList.filter (isPacket A B) = declaredIn upperChar A B line := by
      rw [each,packets_lines layout]
      exact flatMap_eq_iff fun _ _ => placed_sublist
    _ ↔ ∀ line ∈ markedLines file layout, Placed upperChar A B line := forall₂_congr fun _ _ => placed_exact

def oneMessage : List Statement := [.message "C_A".toList ["\x7b".toList,"\x7d".toList]]

def loose : List (List Gap) := [[.lineComment " of the client".toList true],[.blank '\t',.blank ' '],[.blank '\n'],[],[.blockComment " \n ".toList]]

theorem layout_recorded_loose : (∀ line ∈ markedLines oneMessage loose, Harmless asciiUpper "C_".toList "S_".toList line) ∧
    ∃ p, parseProto asciiUpper (make 1000 "C_".toList "S_".toList) (readlines oneMessage loose) = some p ∧
      p.totalPkt = [⟨"C_A".toList,1000⟩] := by
  have harmless : ∀ line ∈ markedLines oneMessage loose, Harmless asciiUpper "C_".toList "S_".toList line := by decide
  obtain ⟨p,parsed,recorded,_⟩ := layout_recorded 1000 harmless
  exact ⟨harmless,p,parsed,recorded.trans (by decide)⟩

-- The brace at the name, the keyword indented, the name on the next line, and a comment that looks like a message.
theorem layout_matters :
    let layouts : List (List (List Gap)) := [[[],[.blank ' '],[],[],[]],[[.blank ' '],[.blank ' '],[.blank ' '],[],[]],
      [[],[.blank '\n'],[.blank ' '],[],[]],
      [[.blockComment "\nmessage C_B\n".toList,.blank '\n'],[.blank ' '],[.blank ' '],[],[]]]
    packets asciiUpper "C_".toList "S_".toList oneMessage = ["C_A".toList] ∧ (∀ layout ∈ layouts, legal (tokensOf oneMessage) layout = true) ∧
      layouts.map (fun layout => (parseProto asciiUpper (make 1000 "C_".toList "S_".toList) (readlines oneMessage layout)).map ProtoParser.totalPkt) =
        [some [⟨"C_A\x7b\x7d".toList,1000⟩],some [],none,some [⟨"C_B".toList,1000⟩,⟨"C_A".toList,1001⟩]] := by
  decide

end IocpChatServer.Tools.ProtoLayout
