import Overlay.Yaml.Node
import Overlay.Yaml.Token

/-!
# Reading YAML

`Yaml.parse?` reads a text as one document.

* Tokens are put together to parts, in which aliases stand for themselves. Then every alias is
  replaced by the part that it stands for.
* Anchors take numbered slots: a name takes the slot with the number of names that are in use, and
  an alias stands for the last part that took its slot.
* Sequences and mappings nest at most 128 deep, also through aliases, and the number of aliases that
  are followed is bounded by the size of the document.
-/

namespace Overlay.Yaml

/-! ## Parts with aliases -/

/-- A part of a document in which aliases stand for slots. -/
inductive Part where
  | reference (slot : Nat)
  | scalar (tag : Option String) (style : Style) (text : String)
  | sequence (tag : Option String) (items : List Part)
  | mapping (tag : Option String) (entries : List (Part × Part))
deriving Inhabited

/-- A scalar without text, where a part is missing. -/
def Part.missing (tag : Option String) : Part := .scalar tag .plain ""

/-- A document that is partly read. -/
structure Draft where
  tokens : List Token
  /-- What the handles of tags stand for. -/
  handles : List (String × String)
  /-- The slots of the names in use. -/
  slots : Dict Nat := []
  /-- The numbers of the parts that took slots, the last one in front. -/
  takers : List (Nat × Nat) := []
  /-- The parts with anchors, by their numbers. -/
  anchored : List (Nat × Part) := []
  /-- How many parts have started, and how many collections have ended. -/
  steps : Nat := 0

/-- A reader of a part of a document. -/
abbrev Build := StateT Draft Option

namespace Build

/-- The next token. -/
def next? : Build (Option Token) := do return (← get).tokens.head?

/-- Passes over the next token. -/
def skip : Build Unit := modify fun d => { d with tokens := d.tokens.drop 1 }

/-- Passes over the next token, if it is the one given. -/
def accept (t : Token) : Build Bool := do
  if (← next?) = some t then
    skip
    return true
  else return false

/-- Whether the next token is one of those given. -/
def nextIsIn (ts : List Token) : Build Bool := do return (← next?).any (· ∈ ts)

/-- Counts a step and gives its number. -/
def step : Build Nat := modifyGet fun d => (d.steps, { d with steps := d.steps + 1 })

/-- Gives the name of an anchor the slot with the number of names in use, for the part with the
number given. -/
def takeSlot (name : String) (number : Nat) : Build Unit := modify fun d =>
  let slot := d.slots.length
  { d with slots := d.slots.insert name slot, takers := (slot, number) :: d.takers }

/-- Keeps a part with an anchor. -/
def keep (number : Nat) (part : Part) : Build Unit :=
  modify fun d => { d with anchored := (number, part) :: d.anchored }

/-- The tag that a handle and a suffix write. -/
def resolveTag (handle suffix : String) : Build String := do
  if handle = "" then return suffix
  match (← get).handles.find? fun h => h.1 = handle with
  | some h => return h.2 ++ suffix
  | none => failure

/-- Reads an anchor, if there is one. -/
def anchor? : Build (Option String) := do
  match ← next? with
  | some (.anchor name) =>
    skip
    return some name
  | _ => return none

/-- Reads a tag, if there is one. -/
def tag? : Build (Option String) := do
  match ← next? with
  | some (.tag handle suffix) =>
    skip
    return some (← resolveTag handle suffix)
  | _ => return none

/-- Reads an anchor and a tag in any order; either may be missing. -/
def properties : Build (Option String × Option String) := do
  match ← anchor? with
  | some name => return (some name, ← tag?)
  | none =>
    let tag ← tag?
    return (← anchor?, tag)

/-- A missing part. -/
def missing : Build Part := do
  let _ ← step
  return .missing none

/-- The part that `part` reads, unless the next token is one of `ends`. -/
def unlessEnd (ends : List Token) (part : Build Part) : Build Part := do
  if (← next?).isNone ∨ (← nextIsIn ends) then missing else part

/-! ## Collections -/

/-- Reads the items of a block sequence and its end. -/
def blockItems (part : Build Part) : (fuel : Nat) → Build (List Part)
  | 0 => failure
  | fuel + 1 => do
    if ← accept .blockEntry then
      let x ← unlessEnd [.blockEntry, .blockEnd] part
      return x :: (← blockItems part fuel)
    else if ← accept .blockEnd then return []
    else failure

/-- Reads the items of a sequence that stands at the column of its mapping. -/
def flatItems (part : Build Part) : (fuel : Nat) → Build (List Part)
  | 0 => failure
  | fuel + 1 => do
    if ← accept .blockEntry then
      let x ← unlessEnd [.blockEntry, .key, .value, .blockEnd] part
      return x :: (← flatItems part fuel)
    else return []

/-- Reads the entries of a block mapping and its end. -/
def blockEntries (part : Build Part) : (fuel : Nat) → Build (List (Part × Part))
  | 0 => failure
  | fuel + 1 => do
    let ends := [Token.key, .value, .blockEnd]
    if ← accept .key then
      let key ← unlessEnd ends part
      let value ← if ← accept .value then unlessEnd ends part else missing
      return (key, value) :: (← blockEntries part fuel)
    else if ← accept .blockEnd then return []
    else failure

/-- Reads a mapping of one entry in a flow sequence, behind the mark of its key. A missing key takes
the next token with it. -/
def flowPair (part : Build Part) : Build Part := do
  let _ ← step
  let ends := [Token.flowEntry, .flowSequenceEnd]
  let key ← if ← nextIsIn (.value :: ends) then
      skip
      missing
    else part
  let value ← if ← accept .value then unlessEnd ends part else missing
  let _ ← step
  return .mapping none [(key, value)]

/-- Reads the items of a flow sequence and its end; `first` says that none is read yet. -/
def flowItems (part : Build Part) : (fuel : Nat) → (first : Bool) → Build (List Part)
  | 0, _ => failure
  | fuel + 1, first => do
    if ← accept .flowSequenceEnd then return []
    if !first then guard (← accept .flowEntry)
    -- The comma may be the last one.
    if ← accept .flowSequenceEnd then return []
    let x ← if ← accept .key then flowPair part else part
    return x :: (← flowItems part fuel false)

/-- Reads the entries of a flow mapping and its end; `first` says that none is read yet. -/
def flowEntries (part : Build Part) : (fuel : Nat) → (first : Bool) → Build (List (Part × Part))
  | 0, _ => failure
  | fuel + 1, first => do
    let ends := [Token.flowEntry, .flowMappingEnd]
    if ← accept .flowMappingEnd then return []
    if !first then guard (← accept .flowEntry)
    -- The comma may be the last one.
    if ← accept .flowMappingEnd then return []
    let entry ←
      if ← accept .key then do
        let key ← unlessEnd (.value :: ends) part
        let value ← if ← accept .value then unlessEnd ends part else missing
        pure (key, value)
      else do pure (← part, ← missing)
    return entry :: (← flowEntries part fuel false)

/-! ## Parts -/

/-- A sequence whose items are read by `items`. -/
def sequence (tag : Option String) (items : Build (List Part)) : Build Part := do
  let xs ← items
  let _ ← step
  return .sequence tag xs

/-- A mapping whose entries are read by `entries`. -/
def mapping (tag : Option String) (entries : Build (List (Part × Part))) : Build Part := do
  let xs ← entries
  let _ ← step
  return .mapping tag xs

/-- Reads a part; `inBlock` says that block collections can start here, `flat` that a sequence can
start here without an indent of its own. -/
def part : (fuel : Nat) → (inBlock flat : Bool) → Build Part
  | 0, _, _ => failure
  | fuel + 1, inBlock, flat => do
    match ← next? with
    | some (.reference name) =>
      skip
      let _ ← step
      match (← get).slots.find? name with
      | some slot => return .reference slot
      | none => failure
    | _ =>
      let (anchor, tag) ← properties
      let number ← step
      -- The slot is taken in front of the content, which may refer to it.
      if let some name := anchor then takeSlot name number
      let x ← content fuel anchor tag inBlock flat (part fuel true false) (part fuel true true)
        (part fuel false false)
      if anchor.isSome then keep number x
      return x
where
  /-- Reads what follows the anchor and the tag of a part, given the readers of the parts in it: of
  items, of entries, and of what stands in flow collections. -/
  content (fuel : Nat) (anchor tag : Option String) (inBlock flat : Bool)
      (item entry inFlow : Build Part) : Build Part := do
    match ← next? with
    | some (.scalar style text) =>
      skip
      -- A lone mark of tags says nothing of a scalar that is there.
      return .scalar (tag.filter (· ≠ "!")) style text
    | some .flowSequenceStart =>
      skip
      sequence tag (flowItems inFlow fuel true)
    | some .flowMappingStart =>
      skip
      mapping tag (flowEntries inFlow fuel true)
    | some .blockEntry =>
      if flat then sequence tag (flatItems item fuel) else orMissing anchor tag
    | some .blockSequenceStart =>
      if inBlock then do
        skip
        sequence tag (blockItems item fuel)
      else orMissing anchor tag
    | some .blockMappingStart =>
      if inBlock then do
        skip
        mapping tag (blockEntries entry fuel)
      else orMissing anchor tag
    | _ => orMissing anchor tag
  /-- A part that has nothing but an anchor or a tag. -/
  orMissing (anchor tag : Option String) : Build Part :=
    if anchor.isSome || tag.isSome then return .missing tag else failure

/-! ## Documents -/

/-- The handles that stand for something without a directive. -/
def defaultHandles : List (String × String) := [("!", "!"), ("!!", "tag:yaml.org,2002:")]

/-- Reads the directives in front of a document; gives whether there are any. -/
def directives : (fuel : Nat) → (version : Bool) → (handles : List (String × String)) →
    Build (Bool × List (String × String))
  | 0, _, _ => failure
  | fuel + 1, version, handles => do
    match ← next? with
    | some (.versionDirective major minor) =>
      guard (!version && major == 1 && (minor == 1 || minor == 2))
      skip
      let (_, handles) ← directives fuel true handles
      return (true, handles)
    | some (.tagDirective handle front) =>
      guard (handles.all fun h => h.1 ≠ handle)
      skip
      let (_, handles) ← directives fuel version (handles ++ [(handle, front)])
      return (true, handles)
    | _ => return (false, handles)

/-- Passes over the marks that end a document. -/
def documentEnds : (fuel : Nat) → Build Unit
  | 0 => failure
  | fuel + 1 => do
    if ← accept .documentEnd then documentEnds fuel

/-- Reads a text that holds one document. An empty text holds an empty scalar. -/
def document (fuel : Nat) : Build Part := do
  if (← next?).isNone then return .missing none
  let (hasDirectives, handles) ← directives fuel false []
  modify fun d => { d with handles := handles ++ defaultHandles }
  let isMarked ← accept .documentStart
  -- Directives need the mark of a document behind them.
  guard (isMarked || !hasDirectives)
  let x ← if isMarked then unlessEnd [.documentStart, .documentEnd] (part fuel true false)
    else part fuel true false
  documentEnds fuel
  guard (← next?).isNone
  return x

end Build

/-! ## Following aliases -/

/-- The part that an alias of a slot stands for. -/
def Draft.target? (d : Draft) (slot : Nat) : Option Part := do
  let taker ← d.takers.find? fun t => t.1 = slot
  let found ← d.anchored.find? fun a => a.1 = taker.2
  return found.2

/-- A part as a node. `room` is how deep collections nest in it, and the state is how many aliases
may still be followed. -/
def Draft.resolve (d : Draft) : (fuel : Nat) → (room : Nat) → Part → StateT Nat Option Node
  | 0, _, _ => failure
  | fuel + 1, room, p =>
    match p with
    | .reference slot => do
      let left ← get
      guard (0 < left)
      set (left - 1)
      match d.target? slot with
      -- An alias opens no collection itself, so the room stays.
      | some p => resolve d fuel room p
      | none => failure
    | .scalar tag style text => return .scalar tag style text
    | .sequence tag items => do
      guard (0 < room)
      return .sequence tag (← items.mapM (resolve d fuel (room - 1)))
    | .mapping tag entries => do
      guard (0 < room)
      let entry (e : Part × Part) : StateT Nat Option (Node × Node) := do
        return (← resolve d fuel (room - 1) e.1, ← resolve d fuel (room - 1) e.2)
      return .mapping tag (← entries.mapM entry)

/-- How deep collections nest. -/
def nestingLimit : Nat := 128

/-- How often aliases are followed, for every step of a document. -/
def aliasesPerStep : Nat := 100

/-- The document that a text is. -/
def parse? (text : String) : Option Node := do
  let tokens ← tokens? text
  let (p, d) ← (Build.document (tokens.length + 2)).run { tokens, handles := [] }
  let (node, _) ← (d.resolve (2 * nestingLimit + 2) nestingLimit p).run (aliasesPerStep * d.steps)
  return node

end Overlay.Yaml
