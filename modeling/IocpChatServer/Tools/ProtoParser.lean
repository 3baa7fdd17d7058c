import Mathlib.Data.List.Nodup
import IocpChatServer.Tools.HandlerTable

namespace IocpChatServer.Tools

abbrev Str := List Char

namespace Str

-- What str.split() without arguments splits at.
def isSpace (c : Char) : Bool :=
  let code := c.toNat
  (0x09 ≤ code && code ≤ 0x0D) || (0x1C ≤ code && code ≤ 0x20) || code == 0x85 || code == 0xA0 || code == 0x1680 ||
    (0x2000 ≤ code && code ≤ 0x200A) || code == 0x2028 || code == 0x2029 || code == 0x202F || code == 0x205F || code == 0x3000

def split (s : Str) : List Str := (s.splitOnP isSpace).filter fun token => !token.isEmpty

def startswith (s start : Str) : Bool := start.isPrefixOf s

-- `upperChar` is the full upper case of one character, from the tables of Unicode.
def upper (upperChar : Char → Str) (s : Str) : Str := s.flatMap upperChar

end Str

structure Packet where
  name : Str
  id : Int
  deriving DecidableEq, Repr

structure ProtoParser where
  recvPkt : List Packet
  sendPkt : List Packet
  totalPkt : List Packet
  startId : Int
  id : Int
  recvPrefix : Str
  sendPrefix : Str
  deriving DecidableEq, Repr

namespace ProtoParser

def make (startId : Int) (recvPrefix sendPrefix : Str) : ProtoParser := ⟨[],[],[],startId,startId,recvPrefix,sendPrefix⟩

def isMessage (line : Str) : Bool := line.startswith "message".toList

-- One round of the loop in parse_proto. A line without a second token is an IndexError.
def parseLine (upperChar : Char → Str) (p : ProtoParser) (line : Str) : Option ProtoParser :=
  if isMessage line = false then some p
  else match line.split[1]? with
  | none => none
  | some token =>
    let pktName := token.upper upperChar
    let pkt : Packet := ⟨pktName,p.id⟩
    if pktName.startswith p.recvPrefix then
      some {p with recvPkt := p.recvPkt ++ [pkt],totalPkt := p.totalPkt ++ [pkt],id := p.id + 1}
    else if pktName.startswith p.sendPrefix then
      some {p with sendPkt := p.sendPkt ++ [pkt],totalPkt := p.totalPkt ++ [pkt],id := p.id + 1}
    else some p

def parseProto (upperChar : Char → Str) (p : ProtoParser) (lines : List Str) : Option ProtoParser := lines.foldlM (parseLine upperChar) p

inductive Handler where
  | invalid
  | handle (name : Str)
  deriving DecidableEq, Repr

-- The value of PKT_name in the enum of the template.
def pktId (p : ProtoParser) (name : Str) : Option Int := (p.totalPkt.find? fun pkt => pkt.name = name).map Packet.id

-- Init: an entry of GPacketHandler for every packet received.
def init (p : ProtoParser) : HandlerTable Handler :=
  .init .invalid (p.recvPkt.filterMap fun pkt => ((p.pktId pkt.name).bind Int.toNat?).map fun id => (id,.handle pkt.name))

-- The id that MakeSendBuffer of a message sends, where there is such a MakeSendBuffer.
def makeSendBuffer (p : ProtoParser) (name : Str) : Option Int :=
  if p.sendPkt.any fun pkt => pkt.name = name then p.pktId name else none

def pktName (upperChar : Char → Str) (line : Str) : Option Str :=
  if isMessage line then line.split[1]?.map (Str.upper upperChar) else none

def names (upperChar : Char → Str) (recvPrefix sendPrefix : Str) (lines : List Str) : List Str :=
  (lines.filterMap (pktName upperChar)).filter fun name => name.startswith recvPrefix || name.startswith sendPrefix

def number : Int → List Str → List Packet
  | _,[] => []
  | id,name :: rest => ⟨name,id⟩ :: number (id + 1) rest

variable {upperChar : Char → Str} {p q : ProtoParser} {line name : Str} {lines : List Str} {startId id : Int} {A B : Str}

theorem number_ids (id : Int) (all : List Str) : (number id all).map Packet.id = (List.range all.length).map fun i : Nat => id + i := by
  induction all generalizing id with
  | nil => rfl
  | cons name rest ih =>
    rw [number,List.map_cons,ih,List.length_cons,List.range_succ_eq_map,List.map_cons,List.map_map]
    refine List.cons_eq_cons.mpr ⟨by simp,List.map_congr_left fun i _ => ?_⟩
    simp only [Function.comp_apply]
    omega

theorem number_names (id : Int) (all : List Str) : (number id all).map Packet.name = all := by
  induction all generalizing id with
  | nil => rfl
  | cons name rest ih => simp [number,ih]

theorem pktName_some (message : isMessage line = true) (named : 2 ≤ line.split.length) : ∃ name, pktName upperChar line = some name := by
  have token : line.split[1]? = some line.split[1] := List.getElem?_eq_getElem named
  exact ⟨_,by rw [pktName,if_pos message,token]; rfl⟩

theorem parseLine_named (named : pktName upperChar line = some name) (p : ProtoParser) : parseLine upperChar p line =
    if name.startswith p.recvPrefix then
      some {p with recvPkt := p.recvPkt ++ [⟨name,p.id⟩],totalPkt := p.totalPkt ++ [⟨name,p.id⟩],id := p.id + 1}
    else if name.startswith p.sendPrefix then
      some {p with sendPkt := p.sendPkt ++ [⟨name,p.id⟩],totalPkt := p.totalPkt ++ [⟨name,p.id⟩],id := p.id + 1}
    else some p := by
  unfold pktName at named
  split at named
  · rename_i message
    obtain ⟨token,found,rfl⟩ := Option.map_eq_some_iff.mp named
    simp [parseLine,message,found]
  · cases named

-- Each line that starts with message has a name, so no line is an IndexError: the packets are
-- numbered in line order, and each goes to the list of the first prefix it has.
theorem parse_exact (named : ∀ line ∈ lines, isMessage line = true → 2 ≤ line.split.length) (p : ProtoParser) :
    parseProto upperChar p lines = some {p with
      totalPkt := p.totalPkt ++ number p.id (names upperChar p.recvPrefix p.sendPrefix lines)
      recvPkt := p.recvPkt ++ (number p.id (names upperChar p.recvPrefix p.sendPrefix lines)).filter fun pkt => pkt.name.startswith p.recvPrefix
      sendPkt := p.sendPkt ++ (number p.id (names upperChar p.recvPrefix p.sendPrefix lines)).filter fun pkt =>
        !pkt.name.startswith p.recvPrefix
      id := p.id + (names upperChar p.recvPrefix p.sendPrefix lines).length} := by
  induction lines generalizing p with
  | nil => simp [parseProto,names,number,pure]
  | cons line rest ih =>
    have ih := ih fun other member => named other (List.mem_cons_of_mem _ member)
    unfold parseProto at ih ⊢
    rw [List.foldlM_cons]
    by_cases message : isMessage line = true
    · obtain ⟨name,given⟩ := @pktName_some upperChar line message (named line List.mem_cons_self message)
      rw [parseLine_named given]
      by_cases received : name.startswith p.recvPrefix = true
      · rw [if_pos received]
        simp [bind,Option.bind,ih,names,given,received,number]
        omega
      · rw [if_neg received]
        by_cases sent : name.startswith p.sendPrefix = true
        · rw [if_pos sent]
          simp [bind,Option.bind,ih,names,given,received,sent,number]
          omega
        · rw [if_neg sent]
          simpa [names,given,received,sent] using ih p
    · have none : pktName upperChar line = none := by simp [pktName,message]
      have skips : parseLine upperChar p line = some p := by simp [parseLine,message]
      rw [skips]
      simpa [names,none,bind] using ih p

theorem names_swapped : names upperChar B A lines = names upperChar A B lines := by
  unfold names
  simp only [Bool.or_comm]

-- The generators of the two sides: what one sends the other one receives, under one number.
structure Counterparts (p q : ProtoParser) : Prop where
  total : p.totalPkt = q.totalPkt
  received : p.recvPkt = q.sendPkt
  sent : p.sendPkt = q.recvPkt

structure Numbered (upperChar : Char → Str) (lines : List Str) (p : ProtoParser) : Prop where
  names : p.totalPkt.map Packet.name = names upperChar p.recvPrefix p.sendPrefix lines
  ids : p.totalPkt.map Packet.id = (List.range p.totalPkt.length).map fun i : Nat => p.startId + i
  distinct : (p.totalPkt.map Packet.id).Nodup

def Inside (p : ProtoParser) : Prop := ∀ pkt ∈ p.totalPkt, 0 ≤ pkt.id ∧ pkt.id < uint16Max

instance (p : ProtoParser) : Decidable p.Inside := inferInstanceAs (Decidable (∀ pkt ∈ p.totalPkt, 0 ≤ pkt.id ∧ pkt.id < uint16Max))

-- What MakeSendBuffer of one side can send is what the other side has a handler for.
def Serves (p q : ProtoParser) : Prop := ∀ (name : Str) (id : Nat),
  q.init.entry id = some (.handle name) ↔ p.makeSendBuffer name = some (id : Int)

theorem consecutive_nodup (startId : Int) (n : Nat) : ((List.range n).map fun i : Nat => startId + i).Nodup := by
  refine List.Nodup.map (fun i j same => ?_) List.nodup_range
  exact Int.ofNat_inj.mp (Int.add_left_cancel same)

theorem pktId_found (found : p.pktId name = some id) : ⟨name,id⟩ ∈ p.totalPkt := by
  obtain ⟨pkt,first,rfl⟩ := Option.map_eq_some_iff.mp found
  have same : pkt.name = name := by simpa using List.find?_some first
  exact same ▸ List.mem_of_find?_eq_some first

theorem pktId_unique (distinct : (p.totalPkt.map Packet.id).Nodup) {other : Str} (one : p.pktId name = some id)
    (two : p.pktId other = some id) : name = other :=
  congrArg Packet.name (List.inj_on_of_nodup_map distinct (pktId_found one) (pktId_found two) rfl)

theorem installed_exact {index : Nat} {handler : Handler} :
    (index,handler) ∈ (p.recvPkt.filterMap fun pkt => ((p.pktId pkt.name).bind Int.toNat?).map fun id => (id,Handler.handle pkt.name)) ↔
      ∃ name, handler = .handle name ∧ (p.recvPkt.any fun pkt => pkt.name = name) = true ∧ p.pktId name = some (index : Int) := by
  have known {value : Option Int} : value.bind Int.toNat? = some index ↔ value = some (index : Int) := by
    cases value with
    | none => simp
    | some id => simp [Int.mem_toNat?]
  simp only [List.mem_filterMap,Option.map_eq_some_iff,Prod.mk.injEq,List.any_eq_true,decide_eq_true_eq]
  constructor
  · intro given
    obtain ⟨pkt,member,_,found,rfl,rfl⟩ := given
    exact ⟨pkt.name,rfl,⟨pkt,member,rfl⟩,known.mp found⟩
  · intro given
    obtain ⟨_,rfl,⟨pkt,member,rfl⟩,found⟩ := given
    exact ⟨pkt,member,index,known.mpr found,rfl,rfl⟩

theorem counterparts_serve (total : p.totalPkt = q.totalPkt) (listed : q.recvPkt = p.sendPkt)
    (distinct : (p.totalPkt.map Packet.id).Nodup) (inside : p.Inside) : Serves p q := by
  intro name index
  have same (name : Str) : q.pktId name = p.pktId name := by rw [pktId,pktId,total]
  have sends : p.makeSendBuffer name = some (index : Int) ↔
      (q.recvPkt.any fun pkt => pkt.name = name) = true ∧ q.pktId name = some (index : Int) := by
    rw [makeSendBuffer,listed,same]
    split <;> simp_all
  rw [sends]
  constructor
  · intro found
    rcases HandlerTable.init_source found with impossible | installed
    · cases impossible
    · obtain ⟨_,named,listed,known⟩ := installed_exact.mp installed
      cases named
      exact ⟨listed,known⟩
  · intro given
    obtain ⟨listed,known⟩ := given
    refine HandlerTable.init_installed (installed_exact.mpr ⟨name,rfl,listed,known⟩) ?_ fun other there => ?_
    · have bound := inside _ (pktId_found (same name ▸ known))
      exact Int.ofNat_lt.mp bound.2
    · obtain ⟨_,rfl,_,knownToo⟩ := installed_exact.mp there
      rw [total] at distinct
      rw [pktId_unique distinct knownToo known]

theorem other_prefix (apart : ∀ name ∈ lines.filterMap (pktName upperChar), ¬(name.startswith A = true ∧ name.startswith B = true))
    (id : Int) {pkt : Packet} (member : pkt ∈ number id (names upperChar A B lines)) :
    (!pkt.name.startswith A) = pkt.name.startswith B := by
  have there : pkt.name ∈ (number id (names upperChar A B lines)).map Packet.name := List.mem_map_of_mem member
  rw [number_names] at there
  obtain ⟨named,either⟩ := List.mem_filter.mp there
  have single := apart _ named
  cases one : pkt.name.startswith A <;> cases two : pkt.name.startswith B <;> simp_all

-- The two generators, run over the same file with the prefixes swapped.
theorem generators_agree (named : ∀ line ∈ lines, isMessage line = true → 2 ≤ line.split.length)
    (apart : ∀ name ∈ lines.filterMap (pktName upperChar), ¬(name.startswith A = true ∧ name.startswith B = true)) (startId : Int) :
    ∃ one two, parseProto upperChar (make startId A B) lines = some one ∧ parseProto upperChar (make startId B A) lines = some two ∧
      Counterparts one two ∧ Numbered upperChar lines one ∧ (Inside one → Serves one two ∧ Serves two one) := by
  have first := @parse_exact upperChar lines named (make startId A B)
  have second := @parse_exact upperChar lines named (make startId B A)
  simp only [make,List.nil_append,@names_swapped upperChar lines A B] at first second
  refine ⟨_,_,first,second,?_⟩
  have swapped : (number startId (names upperChar A B lines)).filter (fun pkt => !pkt.name.startswith A) =
      (number startId (names upperChar A B lines)).filter fun pkt => pkt.name.startswith B :=
    List.filter_congr fun pkt member => other_prefix apart startId member
  have swappedToo : (number startId (names upperChar A B lines)).filter (fun pkt => !pkt.name.startswith B) =
      (number startId (names upperChar A B lines)).filter fun pkt => pkt.name.startswith A :=
    List.filter_congr fun pkt member => by rw [← other_prefix apart startId member,Bool.not_not]
  have length : (number startId (names upperChar A B lines)).length = (names upperChar A B lines).length := by
    rw [← List.length_map (f := Packet.name),number_names]
  have ids := number_ids startId (names upperChar A B lines)
  have distinct : ((number startId (names upperChar A B lines)).map Packet.id).Nodup := ids ▸ consecutive_nodup startId _
  refine ⟨⟨rfl,swappedToo.symm,swapped⟩,⟨number_names _ _,length ▸ ids,distinct⟩,fun inside => ⟨?_,?_⟩⟩
  · exact counterparts_serve rfl swapped.symm distinct inside
  · exact counterparts_serve rfl swappedToo.symm distinct inside

def beginning : List Str := ["package Protocol;".toList,"message C_SET_NICKNAME \x7b".toList,"\tstring nickname = 1;".toList,"\x7d".toList,
  "message Player \x7b \x7d".toList,"message\tS_NICKNAME_RESULT\x7b \x7d".toList]

def asciiUpper (c : Char) : Str := [c.toUpper]

theorem generators_agree_beginning : ∃ one two,
    parseProto asciiUpper (make 1000 "C_".toList "S_".toList) beginning = some one ∧
    parseProto asciiUpper (make 1000 "S_".toList "C_".toList) beginning = some two ∧
    two.makeSendBuffer "C_SET_NICKNAME".toList = some 1000 ∧ one.init.entry 1000 = some (.handle "C_SET_NICKNAME".toList) := by
  obtain ⟨one,two,first,second,_,_,serves⟩ := @generators_agree asciiUpper beginning "C_".toList "S_".toList (by decide) (by decide) 1000
  have sends : two.makeSendBuffer "C_SET_NICKNAME".toList = some ((1000 : Nat) : Int) := by
    cases second
    decide
  have inside : Inside one := by
    cases first
    decide
  exact ⟨one,two,first,second,sends,((serves inside).2 _ _).mpr sends⟩

-- The id 65535 is not an index of GPacketHandler.
theorem generators_disagree : ¬ ∀ (upperChar : Char → Str) (lines : List Str) (A B : Str) (startId : Int),
    (∀ line ∈ lines, isMessage line = true → 2 ≤ line.split.length) →
    (∀ name ∈ lines.filterMap (pktName upperChar), ¬(name.startswith A = true ∧ name.startswith B = true)) →
    ∃ one two, parseProto upperChar (make startId A B) lines = some one ∧ parseProto upperChar (make startId B A) lines = some two ∧
      Counterparts one two ∧ Numbered upperChar lines one ∧ Serves one two ∧ Serves two one := by
  intro always
  obtain ⟨one,two,first,second,_,_,serves,_⟩ := always asciiUpper ["message S_X".toList] "C_".toList "S_".toList 65535 (by decide) (by decide)
  have sends : one.makeSendBuffer "S_X".toList = some ((65535 : Nat) : Int) := by
    cases first
    decide
  have found := (serves _ _).mpr sends
  exact absurd (HandlerTable.entry_inside.mp ⟨_,found⟩) (by decide)

end ProtoParser
end IocpChatServer.Tools
