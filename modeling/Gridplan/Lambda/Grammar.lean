import Gridplan.Lambda.Term
import Gridplan.Lambda.Formatted

namespace Gridplan.Lambda

structure Params where
  names : List String := []
  defaults : List Term := []
  /-- Parameters given by name only are next. -/
  afterStar : Bool := false
  /-- Nothing may follow. -/
  closed : Bool := false
  /-- Parameters given by position only have been marked. -/
  afterSlash : Bool := false
  /-- A parameter must follow. -/
  pending : Bool := false
  /-- A parameter with a default has been given, so that all by position need one. -/
  optional : Bool := false
  /-- Some parameter has been given. -/
  any : Bool := false

/-- What is to be read next. Rules named for a tail hold what has been read of a term. -/
inductive Rule where
  | whole
  | wholeTail (parts : List Term)
  | expression
  | named
  | item
  | boolean (isOr : Bool)
  | booleanTail (isOr : Bool) (parts : List Term)
  | inversion
  | comparison
  | comparisonTail (left : Term) (rest : List (CompareOp × Term))
  | binary (level : Nat)
  | binaryTail (level : Nat) (left : Term)
  | factor
  | power
  | primary
  | primaryTail (value : Term)
  | atom
  | items (shape : Shape) (close : String) (parts : List Term)
  | pairs (parts : List Term)
  | arguments (func : Term) (args : List Term) (keywords : List (Option String × Term))
  | slices (value : Term) (parts : List Term) (several : Bool)
  | clauses (shape : Shape) (close : String) (parts : List Term)
  | conditions (shape : Shape) (close : String) (parts : List Term)
  | targets (parts : List Term)
  | yielded (parts : List Term)
  | params (p : Params)

abbrev Reading := List Token → Option (Term × List Token)

namespace Grammar

variable (read : Rule → Reading)

def wholeTail (parts : List Term) : Reading
  | .mark "," :: ts =>
    if ts.all (· matches .line) then some (.other .tuple parts, [])
    else do
      let (t, ts) ← read .expression ts
      read (.wholeTail (parts ++ [t])) ts
  | ts =>
    if ts.all (· matches .line) then
      match parts with
      | [t] => some (t, [])
      | ts => some (.other .tuple ts, [])
    else none

def expression : Reading
  | .word "lambda" :: ts => read (.params {}) ts
  | ts => do
    let (a, ts) ← read (.boolean true) ts
    match ts with
    | .word "if" :: ts =>
      let (c, ts) ← read (.boolean true) ts
      match ts with
      | .word "else" :: ts =>
        let (b, ts) ← read .expression ts
        some (.other .ifExp [c, a, b], ts)
      | _ => none
    | ts => some (a, ts)

def named : Reading
  | .name n :: .mark ":=" :: ts => do
    let (t, ts) ← read .expression ts
    some (.other .namedExpr [.name n, t], ts)
  | ts => read .expression ts

def item : Reading
  | .mark "*" :: ts => do
    let (t, ts) ← read (.binary 0) ts
    some (.other .starred [t], ts)
  | ts => read .named ts

def booleanOperand (isOr : Bool) : Rule := if isOr then .boolean false else .inversion

def boolean (isOr : Bool) (ts : List Token) : Option (Term × List Token) := do
  let (t, ts) ← read (booleanOperand isOr) ts
  read (.booleanTail isOr [t]) ts

def booleanTail (isOr : Bool) (parts : List Term) (ts : List Token) :
    Option (Term × List Token) :=
  let stop := match parts with
    | [t] => some (t, ts)
    | parts => some (.other (if isOr then .disjunction else .conjunction) parts, ts)
  match ts with
  | .word w :: ts =>
    if w == (if isOr then "or" else "and") then do
      let (t, ts) ← read (booleanOperand isOr) ts
      read (.booleanTail isOr (parts ++ [t])) ts
    else stop
  | _ => stop

def inversion : Reading
  | .word "not" :: ts => do
    let (t, ts) ← read .inversion ts
    some (.unary .not t, ts)
  | ts => read .comparison ts

def compareOp? : List Token → Option (CompareOp × List Token)
  | .mark "==" :: ts => some (.eq, ts)
  | .mark "!=" :: ts => some (.ne, ts)
  | .mark "<" :: ts => some (.lt, ts)
  | .mark "<=" :: ts => some (.le, ts)
  | .mark ">" :: ts => some (.gt, ts)
  | .mark ">=" :: ts => some (.ge, ts)
  | .word "is" :: .word "not" :: ts => some (.different, ts)
  | .word "is" :: ts => some (.same, ts)
  | .word "in" :: ts => some (.among, ts)
  | .word "not" :: .word "in" :: ts => some (.notAmong, ts)
  | _ => none

def comparison (ts : List Token) : Option (Term × List Token) := do
  let (t, ts) ← read (.binary 0) ts
  read (.comparisonTail t []) ts

def comparisonTail (left : Term) (rest : List (CompareOp × Term)) (ts : List Token) :
    Option (Term × List Token) :=
  match compareOp? ts with
  | some (op, ts) => do
    let (t, ts) ← read (.binary 0) ts
    read (.comparisonTail left (rest ++ [(op, t)])) ts
  | none => some (if rest.isEmpty then left else .compare left rest, ts)

def binaryOp? (level : Nat) (mark : String) : Option BinaryOp :=
  match level, mark with
  | 0, "|" => some .bitOr
  | 1, "^" => some .bitXor
  | 2, "&" => some .bitAnd
  | 3, "<<" => some .shiftLeft
  | 3, ">>" => some .shiftRight
  | 4, "+" => some .add
  | 4, "-" => some .sub
  | 5, "*" => some .mul
  | 5, "/" => some .div
  | 5, "//" => some .floorDiv
  | 5, "%" => some .mod
  | 5, "@" => some .matMul
  | _, _ => none

def binaryOperand (level : Nat) : Rule := if level < 5 then .binary (level + 1) else .factor

def binary (level : Nat) (ts : List Token) : Option (Term × List Token) := do
  let (t, ts) ← read (binaryOperand level) ts
  read (.binaryTail level t) ts

def binaryTail (level : Nat) (left : Term) : Reading
  | .mark m :: ts =>
    match binaryOp? level m with
    | some op => do
      let (t, ts) ← read (binaryOperand level) ts
      read (.binaryTail level (.binary op left t)) ts
    | none => some (left, .mark m :: ts)
  | ts => some (left, ts)

def unaryOp? : String → Option UnaryOp
  | "-" => some .neg
  | "+" => some .pos
  | "~" => some .invert
  | _ => none

def factor : Reading
  | .mark m :: ts =>
    match unaryOp? m with
    | some op => do
      let (t, ts) ← read .factor ts
      some (.unary op t, ts)
    | none => read .power (.mark m :: ts)
  | ts => read .power ts

def power (ts : List Token) : Option (Term × List Token) := do
  let (a, ts) ← match ts with
    | .word "await" :: ts => (read .primary ts).map fun (t, ts) ↦ (.other .await [t], ts)
    | ts => read .primary ts
  match ts with
  | .mark "**" :: ts =>
    let (b, ts) ← read .factor ts
    some (.binary .pow a b, ts)
  | ts => some (a, ts)

def primary (ts : List Token) : Option (Term × List Token) := do
  let (t, ts) ← read .atom ts
  read (.primaryTail t) ts

def primaryTail (value : Term) : Reading
  | .mark "." :: .name n :: ts => read (.primaryTail (.attribute value n)) ts
  | .mark "." :: _ => none
  | .mark "(" :: ts => do
    let (t, ts) ← read (.arguments value [] []) ts
    read (.primaryTail t) ts
  | .mark "[" :: ts => do
    let (t, ts) ← read (.slices value [] false) ts
    read (.primaryTail t) ts
  | ts => some (value, ts)

def startsClause : List Token → Bool
  | .word "for" :: _ => true
  | .word "async" :: .word "for" :: _ => true
  | _ => false

/-- The arguments of a call. Those by name come after those by position, and no starred one after a
doubly starred one. -/
def arguments (func : Term) (args : List Term) (keywords : List (Option String × Term)) : Reading
  | .mark ")" :: ts => some (.call func args keywords, ts)
  | .mark "*" :: ts =>
    if keywords.any (·.1.isNone) then none
    else do
      let (t, ts) ← read .expression ts
      more (args ++ [.other .starred [t]]) keywords ts
  | .mark "**" :: ts => do
    let (t, ts) ← read .expression ts
    more args (keywords ++ [(none, t)]) ts
  | .name n :: .mark "=" :: ts => do
    let (t, ts) ← read .expression ts
    more args (keywords ++ [(some n, t)]) ts
  | ts =>
    if !keywords.isEmpty then none
    else do
      let (t, ts) ← read .named ts
      if startsClause ts then
        if args.isEmpty then
          let (t, ts) ← read (.clauses .generator ")" [t]) ts
          some (.call func [t] [], ts)
        else none
      else more (args ++ [t]) keywords ts
where
  more (args : List Term) (keywords : List (Option String × Term)) : Reading
    | .mark "," :: ts => read (.arguments func args keywords) ts
    | .mark ")" :: ts => some (.call func args keywords, ts)
    | _ => none

def slicePartMissing : List Token → Bool
  | .mark m :: _ => m == ":" || m == "," || m == "]"
  | _ => false

def slicePart (parts : List Term) (ts : List Token) : Option (List Term × List Token) :=
  if slicePartMissing ts then some (parts, ts)
  else (read .expression ts).map fun (t, ts) ↦ (parts ++ [t], ts)

def sliceTail (parts : List Term) (ts : List Token) : Option (Term × List Token) := do
  let (parts, ts) ← slicePart read parts ts
  match ts with
  | .mark ":" :: ts =>
    let (parts, ts) ← slicePart read parts ts
    some (.other .slice parts, ts)
  | ts => some (.other .slice parts, ts)

def slice : Reading
  | .mark ":" :: ts => sliceTail read [] ts
  | .mark "*" :: ts => (read .expression ts).map fun (t, ts) ↦ (.other .starred [t], ts)
  | .name n :: .mark ":=" :: ts => read .named (.name n :: .mark ":=" :: ts)
  | ts => do
    let (t, ts) ← read .expression ts
    match ts with
    | .mark ":" :: ts => sliceTail read [t] ts
    | ts => some (t, ts)

def slices (value : Term) (parts : List Term) (several : Bool) (ts : List Token) :
    Option (Term × List Token) :=
  let stop (parts : List Term) (several : Bool) (ts : List Token) : Option (Term × List Token) :=
    match parts, several with
    | [], _ => none
    | [.other .starred t], _ => some (.subscript value (.other .tuple [.other .starred t]), ts)
    | [t], false => some (.subscript value t, ts)
    | parts, _ => some (.subscript value (.other .tuple parts), ts)
  match ts with
  | .mark "]" :: ts => stop parts several ts
  | ts => do
    let (t, ts) ← slice read ts
    match ts with
    | .mark "," :: ts => read (.slices value (parts ++ [t]) true) ts
    | .mark "]" :: ts => stop (parts ++ [t]) several ts
    | _ => none

def items (shape : Shape) (close : String) (parts : List Term) : Reading
  | .mark m :: ts =>
    if m == close then some (.other shape parts, ts) else another (.mark m :: ts)
  | ts => another ts
where
  another (ts : List Token) : Option (Term × List Token) := do
    let (t, ts) ← read .item ts
    match ts with
    | .mark m :: ts =>
      if m == "," then read (.items shape close (parts ++ [t])) ts
      else if m == close then some (.other shape (parts ++ [t]), ts)
      else none
    | _ => none

def display (shape comprehension : Shape) (close : String) (t : Term) (ts : List Token) :
    Option (Term × List Token) :=
  if startsClause ts then
    match t with
    | .other .starred _ => none
    | t => read (.clauses comprehension close [t]) ts
  else
    match ts with
    | .mark m :: ts =>
      if m == "," then read (.items shape close [t]) ts
      else if m == close then some (.other shape [t], ts)
      else none
    | _ => none

def parenthesis : Reading
  | .mark ")" :: ts => some (.other .tuple [], ts)
  | .word "yield" :: .word "from" :: ts => do
    let (t, ts) ← read .expression ts
    match ts with
    | .mark ")" :: ts => some (.other .yieldFrom [t], ts)
    | _ => none
  | .word "yield" :: .mark ")" :: ts => some (.other .yield [], ts)
  | .word "yield" :: ts => read (.yielded []) ts
  | ts => do
    let (t, ts) ← read .item ts
    match t, ts with
    | .other .starred _, .mark ")" :: _ => none
    | t, .mark ")" :: ts => some (t, ts)
    | t, ts => display read .tuple .generator ")" t ts

def yielded (parts : List Term) (ts : List Token) : Option (Term × List Token) := do
  let (t, ts) ← match ts with
    | .mark "*" :: ts => (read (.binary 0) ts).map fun (t, ts) ↦ (.other .starred [t], ts)
    | ts => read .expression ts
  match ts with
  | .mark ")" :: ts => some (.other .yield (parts ++ [t]), ts)
  | .mark "," :: .mark ")" :: ts => some (.other .yield (parts ++ [t]), ts)
  | .mark "," :: ts => read (.yielded (parts ++ [t])) ts
  | _ => none

def bracket : Reading
  | .mark "]" :: ts => some (.other .list [], ts)
  | ts => do
    let (t, ts) ← read .item ts
    display read .list .listComp "]" t ts

def startsNamed : List Token → Bool
  | .name _ :: .mark ":=" :: _ => true
  | _ => false

def brace : Reading
  | .mark "\x7d" :: ts => some (.other .dict [], ts)
  | .mark "**" :: ts => read (.pairs []) (.mark "**" :: ts)
  | ts => do
    let first := ts
    let (t, ts) ← read .item ts
    match t, ts with
    | .other .starred _, .mark ":" :: _ => none
    | t, .mark ":" :: ts =>
      if startsNamed first then none
      else
        let (v, ts) ← read .expression ts
        if startsClause ts then read (.clauses .dictComp "\x7d" [t, v]) ts
        else
          match ts with
          | .mark "," :: ts => read (.pairs [t, v]) ts
          | .mark "\x7d" :: ts => some (.other .dict [t, v], ts)
          | _ => none
    | t, ts => display read .set .setComp "\x7d" t ts

def pairs (parts : List Term) : Reading
  | .mark "\x7d" :: ts => some (.other .dict parts, ts)
  | .mark "**" :: ts => do
    let (t, ts) ← read (.binary 0) ts
    more (parts ++ [t]) ts
  | ts => do
    let (k, ts) ← read .expression ts
    match ts with
    | .mark ":" :: ts =>
      let (v, ts) ← read .expression ts
      more (parts ++ [k, v]) ts
    | _ => none
where
  more (parts : List Term) : Reading
    | .mark "," :: ts => read (.pairs parts) ts
    | .mark "\x7d" :: ts => some (.other .dict parts, ts)
    | _ => none

def targets (parts : List Term) (ts : List Token) : Option (Term × List Token) := do
  let (t, ts) ← match ts with
    | .mark "*" :: ts => (read .primary ts).map fun (t, ts) ↦ (.other .starred [t], ts)
    | ts => read .primary ts
  if !t.isTarget then none
  else
    match ts with
    | .mark "," :: .word "in" :: ts => some (.other .tuple (parts ++ [t]), ts)
    | .mark "," :: ts => read (.targets (parts ++ [t])) ts
    | .word "in" :: ts =>
      some (if parts.isEmpty then t else .other .tuple (parts ++ [t]), ts)
    | _ => none

def clauses (shape : Shape) (close : String) (parts : List Term) : Reading
  | .word "async" :: .word "for" :: ts => clause ts
  | .word "for" :: ts => clause ts
  | _ => none
where
  clause (ts : List Token) : Option (Term × List Token) := do
    let (target, ts) ← read (.targets []) ts
    let (source, ts) ← read (.boolean true) ts
    read (.conditions shape close (parts ++ [target, source])) ts

def conditions (shape : Shape) (close : String) (parts : List Term) (ts : List Token) :
    Option (Term × List Token) :=
  match ts with
  | .word "if" :: ts => do
    let (t, ts) ← read (.boolean true) ts
    read (.conditions shape close (parts ++ [t])) ts
  | .mark m :: ts => if m == close then some (.other shape parts, ts) else none
  | ts => read (.clauses shape close parts) ts

def quotations : List Token → List Quotation × List Token
  | .quotation q :: ts => let (qs, ts) := quotations ts; (q :: qs, ts)
  | ts => ([], ts)

def readable (cs : List Char) : Bool :=
  ((Token.ofText (String.ofList ('(' :: cs ++ [')']))).bind (read .whole)).isSome

def joined (qs : List Quotation) : Option Term :=
  if qs.any (·.bytes) then
    if qs.all (·.bytes) then (qs.mapM Quotation.codes?).map fun bs ↦ .literal (.bytes bs.flatten)
    else none
  else if qs.any (·.formatted) then
    if qs.all fun q ↦ if q.formatted then q.fieldsOk (readable read) else q.codes?.isSome then
      some (.other .formatted [])
    else none
  else (qs.mapM Quotation.codes?).map fun cs ↦
    .literal (.datum (.text (String.ofList (cs.flatten.map Char.ofNat))))

def atom : Reading
  | .name n :: ts => some (.name n, ts)
  | .word "True" :: ts => some (.literal (.datum (.bool true)), ts)
  | .word "False" :: ts => some (.literal (.datum (.bool false)), ts)
  | .word "None" :: ts => some (.literal (.datum .null), ts)
  | .number l :: ts => some (.literal l, ts)
  | .quotation q :: ts =>
    let (qs, ts) := quotations (.quotation q :: ts)
    (joined read qs).map (·, ts)
  | .mark "..." :: ts => some (.literal .ellipsis, ts)
  | .mark "(" :: ts => parenthesis read ts
  | .mark "[" :: ts => bracket read ts
  | .mark "\x7b" :: ts => brace read ts
  | _ => none

def params (p : Params) : Reading
  | .mark ":" :: ts =>
    if p.pending then none
    else do
      let (body, ts) ← read .expression ts
      some (.lambda p.names p.defaults body, ts)
  | .mark "/" :: ts =>
    if p.afterSlash || p.afterStar || p.closed || !p.any then none
    else more ⟨[], p.defaults, false, false, true, false, p.optional, true⟩ ts
  | .mark "*" :: .name _ :: ts =>
    if p.afterStar || p.closed then none
    else more ⟨p.names, p.defaults, true, false, p.afterSlash, false, p.optional, true⟩ ts
  | .mark "*" :: .mark "," :: ts =>
    if p.afterStar || p.closed then none
    else read (.params ⟨p.names, p.defaults, true, false, p.afterSlash, true, p.optional, true⟩) ts
  | .mark "**" :: .name _ :: ts =>
    if p.pending || p.closed then none
    else more ⟨p.names, p.defaults, p.afterStar, true, p.afterSlash, false, p.optional, true⟩ ts
  | .name n :: .mark "=" :: ts =>
    if p.closed then none
    else do
      let (d, ts) ← read .expression ts
      more ⟨if p.afterStar then p.names else p.names ++ [n], p.defaults ++ [d], p.afterStar, false,
        p.afterSlash, false, true, true⟩ ts
  | .name n :: ts =>
    if p.closed || (p.optional && !p.afterStar) then none
    else more ⟨if p.afterStar then p.names else p.names ++ [n], p.defaults, p.afterStar, false,
      p.afterSlash, false, p.optional, true⟩ ts
  | _ => none
where
  more (p : Params) : Reading
    | .mark "," :: ts => read (.params p) ts
    | .mark ":" :: ts => read (.params p) (.mark ":" :: ts)
    | _ => none

def step : Rule → Reading
  | .whole => fun ts ↦ do
    let (t, ts) ← read .expression ts
    read (.wholeTail [t]) ts
  | .wholeTail parts => wholeTail read parts
  | .expression => expression read
  | .named => named read
  | .item => item read
  | .boolean isOr => boolean read isOr
  | .booleanTail isOr parts => booleanTail read isOr parts
  | .inversion => inversion read
  | .comparison => comparison read
  | .comparisonTail left rest => comparisonTail read left rest
  | .binary level => binary read level
  | .binaryTail level left => binaryTail read level left
  | .factor => factor read
  | .power => power read
  | .primary => primary read
  | .primaryTail value => primaryTail read value
  | .atom => atom read
  | .items shape close parts => items read shape close parts
  | .pairs parts => pairs read parts
  | .arguments func args keywords => arguments read func args keywords
  | .slices value parts several => slices read value parts several
  | .clauses shape close parts => clauses read shape close parts
  | .conditions shape close parts => conditions read shape close parts
  | .targets parts => targets read parts
  | .yielded parts => yielded read parts
  | .params p => params read p

end Grammar

def readBy : Nat → Rule → Reading
  | 0, _ => fun _ ↦ none
  | n + 1, r => Grammar.step (readBy n) r

def Term.parse? (s : String) : Option Term := do
  let ts ← Token.ofText s
  let (t, _) ← readBy (40 * (s.length + 2)) .whole ts
  some t

end Gridplan.Lambda
