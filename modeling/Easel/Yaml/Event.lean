import Easel.Yaml.Token.Scan

/-!
# Events

The events of a document: its nodes in the order they start, and the ends of collections. The
grammar is predictive. What is still to be read is a stack of goals, and the next token decides
what the topmost goal is replaced by; an absent node counts as an empty plain scalar.
-/

namespace Easel.Yaml

inductive EventKind where
  | scalar (text : String) (style : ScalarStyle)
  | sequenceStart
  | sequenceEnd
  | mappingStart
  | mappingEnd
  | alias (name : String)
  deriving DecidableEq, Repr

/-- An event, where it starts, and the anchor and the tag of the node that starts with it. -/
structure Event where
  kind : EventKind
  mark : Mark
  anchor : Option String := none
  tag : Option String := none
  deriving DecidableEq, Repr

namespace Event

/-- The scalar that stands for an absent node. -/
def empty (mark : Mark) : Event := { kind := .scalar "" .plain, mark }

end Event

/-- What tag handles stand for, by handle. -/
abbrev TagTable := List (String × String)

/-- The handles that need no directive. -/
def TagTable.standard : TagTable := [("!", "!"), ("!!", "tag:yaml.org,2002:")]

/-- A tag in full. A tag without a handle is in full already. -/
def TagTable.expand (tags : TagTable) (handle suffix : String) : Option String :=
  if handle = "" then some suffix
  else ((tags ++ TagTable.standard).lookup handle).map (· ++ suffix)

/-- A part of a document that is still to be read. -/
inductive Goal where
  /-- A node; `block` if it may be a block, `indentless` if it may be a sequence whose dashes are
  not indented. -/
  | node (block indentless : Bool)
  /-- The items from here to the end of a block sequence. -/
  | blockItems
  | indentlessItems
  /-- The entries from here to the end of a block mapping. -/
  | blockEntries
  /-- The value of an entry, and the entries after it. -/
  | blockValue
  /-- The items from here to the end of a flow sequence; before all but the first is a comma. -/
  | flowItems (first : Bool)
  /-- An item of a flow sequence that is a mapping of one entry. -/
  | pairKey
  | pairValue
  | pairEnd
  /-- The entries from here to the end of a flow mapping; before all but the first is a comma. -/
  | flowEntries (first : Bool)
  | flowValue
  /-- The absent value of an entry that has no key mark. -/
  | noValue
  deriving DecidableEq, Repr

/-- What replaces a goal: events that are certain, goals that come next, and the tokens left. -/
structure Expansion where
  events : List Event := []
  goals : List Goal := []
  rest : List Token

namespace Goal

/-- Whether the next token is one of these. -/
def nextIs (kinds : List TokenKind) (ts : List Token) : Bool :=
  ts.head?.any fun t => kinds.contains t.kind

/-- The goal of a node, or the empty scalar at `mark` if one of `stops` is next. -/
def orEmpty (stops : List TokenKind) (goal : Goal) (mark : Mark) (goals : List Goal)
    (ts : List Token) : Expansion :=
  if nextIs stops ts then { events := [.empty mark], goals, rest := ts }
  else { goals := goal :: goals, rest := ts }

/-- The goal of a flow node, or the empty scalar where the next token starts if that is one of
`stops`. -/
def orEmptyHere (stops : List TokenKind) (goals : List Goal) (ts : List Token) : Expansion :=
  orEmpty stops (.node false false) ((ts.head?.map Token.start).getD {}) goals ts

/-- The anchor and the tag that stand before a node, in either order. -/
def properties (tags : TagTable) :
    List Token → Option (Option String × Option String × List Token)
  | ⟨.anchor a, _, _⟩ :: ⟨.tag h s, _, _⟩ :: ts => return (some a, some (← tags.expand h s), ts)
  | ⟨.tag h s, _, _⟩ :: ⟨.anchor a, _, _⟩ :: ts => return (some a, some (← tags.expand h s), ts)
  | ⟨.anchor a, _, _⟩ :: ts => some (some a, none, ts)
  | ⟨.tag h s, _, _⟩ :: ts => return (none, some (← tags.expand h s), ts)
  | ts => some (none, none, ts)

/-- Reads the start of a node. The tag `!` of a scalar says nothing. -/
def expandNode (tags : TagTable) (block indentless : Bool) (ts : List Token) :
    Option Expansion := do
  let first ← ts.head?
  let (anchor, tag, ts) ← properties tags ts
  let next ← ts.head?
  let event (kind : EventKind) : Event := { kind, mark := first.start, anchor, tag }
  match next.kind with
  | .scalar text style =>
    let tag := if tag = some "!" then none else tag
    some { events := [{ event (.scalar text style) with tag }], rest := ts.tail }
  | .flowSequenceStart =>
    some { events := [event .sequenceStart], goals := [.flowItems true], rest := ts.tail }
  | .flowMappingStart =>
    some { events := [event .mappingStart], goals := [.flowEntries true], rest := ts.tail }
  | kind =>
    if indentless && kind = .blockEntry then
      some { events := [event .sequenceStart], goals := [.indentlessItems], rest := ts }
    else if block && kind = .blockSequenceStart then
      some { events := [event .sequenceStart], goals := [.blockItems], rest := ts.tail }
    else if block && kind = .blockMappingStart then
      some { events := [event .mappingStart], goals := [.blockEntries], rest := ts.tail }
    else if anchor.isSome || tag.isSome then
      some { events := [event (.scalar "" .plain)], rest := ts }
    else none

/-- Moves over the comma between two items. -/
def skipComma (first : Bool) (ts : List Token) : Option (List Token) :=
  if first then some ts
  else match ts with
    | ⟨.flowEntry, _, _⟩ :: ts => some ts
    | _ => none

/-- The items of a flow sequence after the comma. -/
def expandFlowItem : List Token → Expansion
  | ⟨.flowSequenceEnd, mark, _⟩ :: ts =>
    { events := [⟨.sequenceEnd, mark, none, none⟩], rest := ts }
  | ⟨.key, mark, _⟩ :: ts =>
    { events := [⟨.mappingStart, mark, none, none⟩], goals := [.pairKey, .flowItems false],
      rest := ts }
  | ts => { goals := [.node false false, .flowItems false], rest := ts }

/-- The entries of a flow mapping after the comma. -/
def expandFlowEntry : List Token → Expansion
  | ⟨.flowMappingEnd, mark, _⟩ :: ts => { events := [⟨.mappingEnd, mark, none, none⟩], rest := ts }
  | ⟨.key, _, _⟩ :: ts => orEmptyHere [.value, .flowEntry, .flowMappingEnd] [.flowValue] ts
  | ts => { goals := [.node false false, .noValue], rest := ts }

/-- Replaces a goal by what the next token makes of it. -/
def expand (tags : TagTable) : Goal → List Token → Option Expansion
  | _, [] => none
  | .node _ _, ⟨.alias name, mark, _⟩ :: ts =>
    some { events := [⟨.alias name, mark, none, none⟩], rest := ts }
  | .node block indentless, ts => expandNode tags block indentless ts
  | .blockItems, ⟨.blockEntry, _, stop⟩ :: ts =>
    some (orEmpty [.blockEntry, .blockEnd] (.node true false) stop [.blockItems] ts)
  | .blockItems, ⟨.blockEnd, mark, _⟩ :: ts =>
    some { events := [⟨.sequenceEnd, mark, none, none⟩], rest := ts }
  | .blockItems, _ => none
  | .indentlessItems, ⟨.blockEntry, _, stop⟩ :: ts =>
    some (orEmpty [.blockEntry, .key, .value, .blockEnd] (.node true false) stop
      [.indentlessItems] ts)
  | .indentlessItems, t :: ts =>
    some { events := [⟨.sequenceEnd, t.start, none, none⟩], rest := t :: ts }
  | .blockEntries, ⟨.key, _, stop⟩ :: ts =>
    some (orEmpty [.key, .value, .blockEnd] (.node true true) stop [.blockValue] ts)
  | .blockEntries, ⟨.blockEnd, mark, _⟩ :: ts =>
    some { events := [⟨.mappingEnd, mark, none, none⟩], rest := ts }
  | .blockEntries, _ => none
  | .blockValue, ⟨.value, _, stop⟩ :: ts =>
    some (orEmpty [.key, .value, .blockEnd] (.node true true) stop [.blockEntries] ts)
  | .blockValue, t :: ts =>
    some { events := [.empty t.start], goals := [.blockEntries], rest := t :: ts }
  | .flowItems _, ⟨.flowSequenceEnd, mark, _⟩ :: ts =>
    some { events := [⟨.sequenceEnd, mark, none, none⟩], rest := ts }
  | .flowItems first, ts => (skipComma first ts).map expandFlowItem
  | .pairKey, t :: ts =>
    -- a mark that stands where the key should be is passed over together with the key
    if [TokenKind.value, .flowEntry, .flowSequenceEnd].contains t.kind then
      some { events := [.empty t.stop], goals := [.pairValue], rest := ts }
    else some { goals := [.node false false, .pairValue], rest := t :: ts }
  | .pairValue, ⟨.value, _, _⟩ :: ts =>
    some (orEmptyHere [.flowEntry, .flowSequenceEnd] [.pairEnd] ts)
  | .pairValue, t :: ts =>
    some { events := [.empty t.start], goals := [.pairEnd], rest := t :: ts }
  | .pairEnd, t :: ts => some { events := [⟨.mappingEnd, t.start, none, none⟩], rest := t :: ts }
  | .flowEntries _, ⟨.flowMappingEnd, mark, _⟩ :: ts =>
    some { events := [⟨.mappingEnd, mark, none, none⟩], rest := ts }
  | .flowEntries first, ts => (skipComma first ts).map expandFlowEntry
  | .flowValue, ⟨.value, _, _⟩ :: ts =>
    some (orEmptyHere [.flowEntry, .flowMappingEnd] [.flowEntries false] ts)
  | .flowValue, t :: ts =>
    some { events := [.empty t.start], goals := [.flowEntries false], rest := t :: ts }
  | .noValue, t :: ts =>
    some { events := [.empty t.start], goals := [.flowEntries false], rest := t :: ts }

/-- Reads all goals. -/
def run (tags : TagTable) :
    Nat → List Goal → List Token → Array Event → Option (Array Event × List Token)
  | _, [], ts, events => some (events, ts)
  | 0, _ :: _, _, _ => none
  | fuel + 1, goal :: goals, ts, events => do
    let e ← goal.expand tags ts
    run tags fuel (e.goals ++ goals) e.rest (events ++ e.events)

end Goal

/-- What the directives before a document say. -/
structure Prologue where
  version : Option (Nat × Nat) := none
  tags : TagTable := []

namespace Prologue

/-- Reads directives; each kind of thing is said once, and the version is 1.1 or 1.2. -/
def read (p : Prologue) : List Token → Option (Prologue × List Token)
  | ⟨.versionDirective major minor, _, _⟩ :: ts =>
    if p.version.isNone && major = 1 && (minor = 1 || minor = 2) then
      read { p with version := some (major, minor) } ts
    else none
  | ⟨.tagDirective handle start, _, _⟩ :: ts =>
    if (p.tags.lookup handle).isNone then read { p with tags := (handle, start) :: p.tags } ts
    else none
  | ts => some (p, ts)

/-- Whether there were no directives. -/
def isEmpty (p : Prologue) : Bool := p.version.isNone && p.tags.isEmpty

end Prologue

namespace Event

/-- Whether nothing but the end of the stream follows a document. -/
def endsHere (ts : List Token) : Bool :=
  match ts.dropWhile fun t => t.kind == .documentEnd with
  | [t] => t.kind == .streamEnd
  | _ => false

/-- Reads a document from where its directives end. -/
def ofContent? (p : Prologue) (ts : List Token) : Option (Array Event × List Token) :=
  let run (ts : List Token) := Goal.run p.tags (8 * (ts.length + 2)) [.node true false] ts #[]
  match ts with
  | ⟨.documentStart, _, _⟩ :: ts =>
    match ts with
    | ⟨.versionDirective _ _, mark, _⟩ :: _ | ⟨.tagDirective _ _, mark, _⟩ :: _
    | ⟨.documentStart, mark, _⟩ :: _ | ⟨.documentEnd, mark, _⟩ :: _
    | ⟨.streamEnd, mark, _⟩ :: _ => some (#[.empty mark], ts)
    | ts => run ts
  | ts => if p.isEmpty then run ts else none

/-- The events of the only document of a stream. A stream without a document counts as one whose
node is absent. -/
def ofTokens? (ts : List Token) : Option (List Event) :=
  match ts with
  | [⟨.streamEnd, mark, _⟩] => some [.empty mark]
  | ts => do
    let (p, ts) ← Prologue.read {} ts
    let (events, ts) ← ofContent? p ts
    if endsHere ts then some events.toList else none

end Event

end Easel.Yaml
