import Tabletop.Yaml.Tag
import Tabletop.Yaml.Token

set_option autoImplicit false

namespace Tabletop.Yaml

inductive Node where
  | scalar (tag : Tag) (text : String)
  | sequence (tag : Tag) (items : List Node)
  | mapping (tag : Tag) (entries : List (Node × Node))

namespace Node

def empty : Node :=
  .scalar .null ""

/-- The tokens left, and the nodes that have names. -/
structure Source where
  tokens : List Token
  anchors : List (String × Node)

abbrev Handles := List (String × String)

def Source.drop (s : Source) : Source :=
  { s with tokens := s.tokens.tail }

structure Properties where
  anchor : Option String
  tag : Option (Option String × String)

-- an anchor and a tag in either order
def properties (s : Source) : Properties × Source :=
  match s.tokens with
  | .anchor a :: .tag h t :: rest => (⟨some a, some (h, t)⟩, { s with tokens := rest })
  | .tag h t :: .anchor a :: rest => (⟨some a, some (h, t)⟩, { s with tokens := rest })
  | .anchor a :: rest => (⟨some a, none⟩, { s with tokens := rest })
  | .tag h t :: rest => (⟨none, some (h, t)⟩, { s with tokens := rest })
  | _ => (⟨none, none⟩, s)

-- the full name of a tag
def tagName (handles : Handles) : Option String × String → Except Fault String
  | (none, suffix) => .ok suffix
  | (some handle, suffix) =>
    match handles.lookup handle with
    | some lead => .ok (lead ++ suffix)
    | none => reject

/-- What is known of a node's type: nothing, that it looks like what it is, or its name. -/
inductive Given where
  | nothing
  | plain
  | named (tag : Tag)

def givenTag (handles : Handles) (p : Properties) : Except Fault Given :=
  match p.tag with
  | none => .ok .nothing
  | some t => (tagName handles t).map fun name => if name = "!" then .plain else .named (.ofName name)

def Given.scalarTag (g : Given) (plain : Bool) (text : String) : Tag :=
  match g with
  | .named t => t
  | .plain => .ofPlain text
  | .nothing => if plain then .ofPlain text else .str

def Given.collectionTag (g : Given) (default : Tag) : Tag :=
  match g with
  | .named t => t
  | _ => default

-- a name is given once
def register (anchor : Option String) (n : Node) (s : Source) : Except Fault (Node × Source) :=
  match anchor with
  | none => .ok (n, s)
  | some a =>
    if (s.anchors.lookup a).isSome then reject
    else .ok (n, { s with anchors := (a, n) :: s.anchors })

def endsFlowItem : Token → Bool
  | .flowEntry => true
  | .flowSequenceEnd => true
  | _ => false

def endsFlowEntry : Token → Bool
  | .flowEntry => true
  | .flowMappingEnd => true
  | _ => false

def endsBlockEntry : Token → Bool
  | .key => true
  | .value => true
  | .blockEnd => true
  | _ => false

def endsBlockItem : Token → Bool
  | .blockEntry => true
  | .blockEnd => true
  | _ => false

def next (s : Source) (p : Token → Bool) : Bool :=
  (s.tokens.head?.map p).getD false

-- between the elements of a flow collection stands a comma
def comma (first : Bool) (s : Source) : Except Fault Source :=
  if first then .ok s
  else
    match s.tokens with
    | .flowEntry :: _ => .ok s.drop
    | _ => reject

mutual
/-- Reads a node; block collections and lists without indentation only where they are allowed. -/
def read (handles : Handles) :
    Nat → Bool → Bool → Source → Except Fault (Node × Source)
  | 0, _, _, _ => reject
  | fuel + 1, block, flush, s =>
    match s.tokens with
    | .alias name :: _ =>
      match s.anchors.lookup name with
      | some n => .ok (n, s.drop)
      | none => reject
    | _ => do
      let (p, s) := properties s
      let given ← givenTag handles p
      let (n, s) ← content handles fuel block flush p given s
      register p.anchor n s

def content (handles : Handles) :
    Nat → Bool → Bool → Properties → Given → Source → Except Fault (Node × Source)
  | 0, _, _, _, _, _ => reject
  | fuel + 1, block, flush, p, given, s =>
    match s.tokens, block, flush with
    | .blockEntry :: _, _, true => do
      let (items, s) ← flushItems handles fuel s
      return (.sequence (given.collectionTag .seq) items, s)
    | .scalar text plain :: _, _, _ => .ok (.scalar (given.scalarTag plain text) text, s.drop)
    | .flowSequenceStart :: _, _, _ => do
      let (items, s) ← flowItems handles fuel true s.drop
      return (.sequence (given.collectionTag .seq) items, s)
    | .flowMappingStart :: _, _, _ => do
      let (entries, s) ← flowEntries handles fuel true s.drop
      return (.mapping (given.collectionTag .map) entries, s)
    | .blockSequenceStart :: _, true, _ => do
      let (items, s) ← blockItems handles fuel s.drop
      return (.sequence (given.collectionTag .seq) items, s)
    | .blockMappingStart :: _, true, _ => do
      let (entries, s) ← blockEntries handles fuel s.drop
      return (.mapping (given.collectionTag .map) entries, s)
    | _, _, _ =>
      if p.anchor.isSome || p.tag.isSome then .ok (.scalar (given.scalarTag true "") "", s)
      else reject

-- the node of an item, which may be left out
def itemOr (handles : Handles) :
    Nat → (Token → Bool) → Bool → Bool → Source → Except Fault (Node × Source)
  | 0, _, _, _, _ => reject
  | fuel + 1, isEnd, block, flush, s =>
    if next s isEnd then .ok (empty, s) else read handles fuel block flush s

def flushItems (handles : Handles) : Nat → Source → Except Fault (List Node × Source)
  | 0, _ => reject
  | fuel + 1, s =>
    match s.tokens with
    | .blockEntry :: _ => do
      let (n, s) ← itemOr handles fuel (fun t => endsBlockItem t || endsBlockEntry t) true false s.drop
      let (ns, s) ← flushItems handles fuel s
      return (n :: ns, s)
    | _ => .ok ([], s)

def blockItems (handles : Handles) : Nat → Source → Except Fault (List Node × Source)
  | 0, _ => reject
  | fuel + 1, s =>
    match s.tokens with
    | .blockEntry :: _ => do
      let (n, s) ← itemOr handles fuel endsBlockItem true false s.drop
      let (ns, s) ← blockItems handles fuel s
      return (n :: ns, s)
    | .blockEnd :: _ => .ok ([], s.drop)
    | _ => reject

-- the value of an entry, which may be left out with its colon
def valueOr (handles : Handles) :
    Nat → (Token → Bool) → Bool → Source → Except Fault (Node × Source)
  | 0, _, _, _ => reject
  | fuel + 1, isEnd, block, s =>
    match s.tokens with
    | .value :: _ => itemOr handles fuel isEnd block block s.drop
    | _ => .ok (empty, s)

def blockEntries (handles : Handles) :
    Nat → Source → Except Fault (List (Node × Node) × Source)
  | 0, _ => reject
  | fuel + 1, s =>
    match s.tokens with
    | .key :: _ => do
      let (k, s) ← itemOr handles fuel endsBlockEntry true true s.drop
      let (v, s) ← valueOr handles fuel endsBlockEntry true s
      let (es, s) ← blockEntries handles fuel s
      return ((k, v) :: es, s)
    | .blockEnd :: _ => .ok ([], s.drop)
    | _ => reject

def flowItems (handles : Handles) :
    Nat → Bool → Source → Except Fault (List Node × Source)
  | 0, _, _ => reject
  | fuel + 1, first, s =>
    if next s (· = .flowSequenceEnd) then .ok ([], s.drop)
    else do
      let s ← comma first s
      match s.tokens with
      | .flowSequenceEnd :: _ => return ([], s.drop)
      | .key :: _ =>
        -- a single entry of a map
        let (k, s) ← itemOr handles fuel (fun t => t = .value || endsFlowItem t) false false s.drop
        let (v, s) ← valueOr handles fuel endsFlowItem false s
        let (ns, s) ← flowItems handles fuel false s
        return (.mapping .map [(k, v)] :: ns, s)
      | _ =>
        let (n, s) ← read handles fuel false false s
        let (ns, s) ← flowItems handles fuel false s
        return (n :: ns, s)

def flowEntries (handles : Handles) :
    Nat → Bool → Source → Except Fault (List (Node × Node) × Source)
  | 0, _, _ => reject
  | fuel + 1, first, s =>
    if next s (· = .flowMappingEnd) then .ok ([], s.drop)
    else do
      let s ← comma first s
      match s.tokens with
      | .flowMappingEnd :: _ => return ([], s.drop)
      | .key :: _ =>
        let (k, s) ← itemOr handles fuel (fun t => t = .value || endsFlowEntry t) false false s.drop
        let (v, s) ← valueOr handles fuel endsFlowEntry false s
        let (es, s) ← flowEntries handles fuel false s
        return ((k, v) :: es, s)
      | _ =>
        let (k, s) ← read handles fuel false false s
        let (es, s) ← flowEntries handles fuel false s
        return ((k, empty) :: es, s)
end

-- a block takes no more steps than this for each of its tokens
def stepsPerToken : Nat := 4

def readBlock (handles : Handles) (ts : List Token) : Except Fault (Node × Source) :=
  read handles (stepsPerToken * ts.length + 4) true false ⟨ts, []⟩

def standardHandles : Handles :=
  [("!", "!"), ("!!", standardLead)]

structure Directives where
  versioned : Bool
  handles : Handles

def directives : Directives → List Token → Except Fault (Directives × List Token)
  | d, .version major :: ts =>
    if d.versioned || major ≠ 1 then reject else directives { d with versioned := true } ts
  | d, .handle name lead :: ts =>
    if (d.handles.lookup name).isSome then reject
    else directives { d with handles := (name, lead) :: d.handles } ts
  | d, .reserved :: ts => directives d ts
  | d, ts => .ok (d, ts)

-- nothing but marks may follow the document
def closed (n : Node) (ts : List Token) : Except Fault (Option Node) :=
  if (ts.dropWhile (· = .documentEnd)).isEmpty then .ok (some n) else reject

def isBoundary : Token → Bool
  | .version _ => true
  | .handle _ _ => true
  | .reserved => true
  | .documentStart => true
  | .documentEnd => true
  | _ => false

def isDocumentHead : Token → Bool
  | .documentEnd => false
  | t => isBoundary t

def explicit (ts : List Token) : Except Fault (Option Node) := do
  let (d, ts) ← directives ⟨false, []⟩ ts
  match ts with
  | .documentStart :: ts =>
    if (ts.head?.map isBoundary).getD true then closed empty ts
    else
      let (n, s) ← readBlock (d.handles ++ standardHandles) ts
      closed n s.tokens
  | _ => reject

def ofTokens? (ts : List Token) : Except Fault (Option Node) :=
  match ts with
  | [] => .ok none
  | t :: _ =>
    if isDocumentHead t then explicit ts
    else do
      let (n, s) ← readBlock standardHandles ts
      closed n s.tokens

end Node

end Tabletop.Yaml
