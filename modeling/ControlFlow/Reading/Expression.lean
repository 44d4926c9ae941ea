import ControlFlow.Reading.Maker
/-!
# From forms to syntax trees

Every reader recurses on the forms inside the form it reads. A form that may stand in several
positions has a reader of its own, which takes the extent and the arguments of the form and is used
wherever the form stands.
-/

namespace ControlFlow.Reading

/-- The arguments of a call: the values, and the last block of each sort. -/
structure CallParts where
  args : List Node := []
  blockPass : Option Node := none
  block : Option Node := none

mutual

/-- An expression. -/
def expression (s : Setting) : Form → Reader Node
  | .atom e a => atom s e a
  | .list e items => tagged s e items

/-- Expressions, in order. -/
def expressions (s : Setting) : List Form → Reader (List Node)
  | [] => return []
  | f :: fs => do
    let n ← expression s f
    let ns ← expressions s fs
    return n :: ns

/-- The expression that a list stands for, by the tag at its head. -/
def tagged (s : Setting) (e : Extent) : List Form → Reader Node
  | .atom _ (.symbol tag) :: args =>
    match Tag.ofSymbol? tag with
    | none => failAt s e (.unknownForm tag)
    | some (.varRef kind) =>
      match args with
      | [n] => do
        let n ← name s n
        make s e (.varRef n) (some ⟨n, kind⟩)
      | _ => failArity s e tag (.exactly 1) args
    | some (.constant value) =>
      match args with
      | [] => make s e (.literal value)
      | _ => failArity s e tag (.exactly 0) args
    | some .int =>
      match args with
      | [f] =>
        match number? .int f with
        | some value => make s e (.literal value)
        | none => failAt s f.extent (.notNumber tag)
      | _ => failArity s e tag (.exactly 1) args
    | some .float =>
      match args with
      | [f] =>
        match number? .float f with
        | some value => make s e (.literal value)
        | none => failAt s f.extent (.notNumber tag)
      | _ => failArity s e tag (.exactly 1) args
    | some .symbol =>
      match args with
      | [n] => do
        let n ← name s n
        make s e (.literal (.symbol n))
      | _ => failArity s e tag (.exactly 1) args
    | some .char =>
      match args with
      | [t] => do
        let t ← text s t
        make s e (.literal (.str t))
      | _ => failArity s e tag (.exactly 1) args
    | some .str => do
      let parts ← parts s args
      make s e (.str parts)
    | some .command => do
      let parts ← parts s args
      make s e (.command parts)
    | some .regexp =>
      match args with
      | options :: rest => do
        let options ← text s options
        let parts ← parts s rest
        make s e (.regexp parts options)
      | [] => failArity s e tag (.atLeast 1) args
    | some .embed => do
      let body ← expressions s args
      make s e (.embed body)
    | some .array => do
      let elements ← expressions s args
      make s e (.array elements)
    | some .splat =>
      match args with
      | [f] => do
        let value ← expression s f
        make s e (.splat value)
      | _ => failArity s e tag (.exactly 1) args
    | some .void => make s e .void
    | some .selfRef => make s e .selfRef
    | some .begin =>
      match args with
      | [f] => do
        let body ← expression s f
        make s e (.begin body)
      | _ => failArity s e tag (.exactly 1) args
    | some .paren => do
      let body ← expressions s args
      make s e (.paren body)
    | some .guarded =>
      match args with
      | [b] => do
        let body ← sequence s b
        make s e (.guarded body none)
      | [b, c] => do
        let body ← sequence s b
        let clause ← ensureClause s c
        make s e (.guarded body (some clause))
      | _ => failArity s e tag (.between 1 2) args
    | some .vcall =>
      match args with
      | [n] => do
        let n ← name s n
        make s e (.varRef n)
      | _ => failArity s e tag (.exactly 1) args
    | some .field => fieldForm s e tag args
    | some .multi => do
      let targets ← targets s args
      make s e (.multiTarget targets)
    | some .assign =>
      match args with
      | [t, v] => do
        let target ← target s t
        let value ← expression s v
        make s e (.assign target value)
      | _ => failArity s e tag (.exactly 2) args
    | some .opAssign =>
      match args with
      | [t, o, v] => do
        let word ← name s o
        match BinaryOp.ofWord? word with
        | none => failAt s o.extent (.binaryOperator word)
        | some op => do
          let target ← target s t
          let value ← expression s v
          make s e (.opAssign target op value)
      | _ => failArity s e tag (.exactly 3) args
    | some .binary =>
      match args with
      | [l, o, r] => do
        let word ← name s o
        match BinaryOp.ofWord? word with
        | none => failAt s o.extent (.binaryOperator word)
        | some op => do
          let left ← expression s l
          let right ← expression s r
          make s e (.binary left op right)
      | _ => failArity s e tag (.exactly 3) args
    | some .unary =>
      match args with
      | [o, f] => do
        let word ← name s o
        match UnaryOp.ofWord? word with
        | none => failAt s o.extent (.unaryOperator word)
        | some op => do
          let operand ← expression s f
          make s e (.unary op operand)
      | _ => failArity s e tag (.exactly 2) args
    | some .ifThen =>
      match args with
      | [c, b] => do
        let condition ← expression s c
        let body ← sequence s b
        make s e (.ifThen condition body none)
      | [c, b, a] => do
        let condition ← expression s c
        let body ← sequence s b
        let other ← alternative s a
        make s e (.ifThen condition body (some other))
      | _ => failArity s e tag (.between 2 3) args
    | some .elsif => elsifForm s e tag args
    | some .elseThen => do
      let body ← expressions s args
      make s e (.elseThen body)
    | some .unlessThen =>
      match args with
      | [c, b] => do
        let condition ← expression s c
        let body ← sequence s b
        make s e (.unlessThen condition body none)
      | [c, b, a] => do
        let condition ← expression s c
        let body ← sequence s b
        let other ← elseClause s a
        make s e (.unlessThen condition body (some other))
      | _ => failArity s e tag (.between 2 3) args
    | some .ifMod =>
      match args with
      | [c, b] => do
        let condition ← expression s c
        let body ← expression s b
        make s e (.ifMod condition body)
      | _ => failArity s e tag (.exactly 2) args
    | some .unlessMod =>
      match args with
      | [c, b] => do
        let condition ← expression s c
        let body ← expression s b
        make s e (.unlessMod condition body)
      | _ => failArity s e tag (.exactly 2) args
    | some (.loopMod sense) =>
      match args with
      | [c, b] => do
        let condition ← expression s c
        let body ← expression s b
        make s e (.loopMod sense condition body)
      | _ => failArity s e tag (.exactly 2) args
    | some (.loop sense) =>
      match args with
      | c :: rest => do
        let condition ← expression s c
        let body ← expressions s rest
        make s e (.loop sense condition body)
      | [] => failArity s e tag (.atLeast 1) args
    | some .forIn =>
      match args with
      | t :: i :: rest => do
        let target ← target s t
        let iterable ← expression s i
        let body ← expressions s rest
        make s e (.forIn target iterable body)
      | _ => failArity s e tag (.atLeast 2) args
    | some .case =>
      match args with
      | f :: rest => do
        let subject ← expression s f
        let (clauses, other) ← clauses s rest
        make s e (.case subject clauses other)
      | [] => failArity s e tag (.atLeast 1) args
    | some .whenThen => whenForm s e tag args
    | some .returnWith => do
      let args ← expressions s args
      make s e (.returnWith args)
    | some .breakWith => do
      let args ← expressions s args
      make s e (.breakWith args)
    | some .nextWith => do
      let args ← expressions s args
      make s e (.nextWith args)
    | some .returnNothing =>
      match args with
      | [] => make s e (.returnWith [])
      | _ => failArity s e tag (.exactly 0) args
    | some .redo =>
      match args with
      | [] => make s e .redo
      | _ => failArity s e tag (.exactly 0) args
    | some .call =>
      match args with
      | r :: m :: rest => do
        let receiver ←
          if r.symbol? = some "_" then pure none
          else do
            let n ← expression s r
            pure (some n)
        let method ← name s m
        let parts ← callParts s rest
        make s e (.call receiver method parts.args parts.blockPass parts.block)
      | _ => failArity s e tag (.atLeast 2) args
    | some .doBlock => blockForm s e tag args
    | some .super => do
      let parts ← callParts s args
      make s e (.super parts.args parts.blockPass parts.block)
    | some .zsuper =>
      match args with
      | [] => make s e (.zsuper none)
      | [b] => do
        let block ← block s b
        make s e (.zsuper (some block))
      | _ => failArity s e tag (.between 0 1) args
  | [] => failAt s e .emptyForm
  | _ :: _ => failAt s e .untagged

/-- The statements of a `seq` form. -/
def sequence (s : Setting) : Form → Reader (List Node)
  | .list e (.atom _ (.symbol tag) :: args) =>
    if tag = "seq" then expressions s args else failAt s e (.notSeq tag)
  | f => failAt s f.extent (untagged f)

/-- The statements of an `ensure` form. -/
def ensureClause (s : Setting) : Form → Reader (List Node)
  | .list e (.atom _ (.symbol tag) :: args) =>
    if tag = "ensure" then expressions s args else failAt s e (.notEnsure tag)
  | f => failAt s f.extent (untagged f)

/-- The statements of an `else` form. -/
def elseClause (s : Setting) : Form → Reader (List Node)
  | .list e (.atom _ (.symbol tag) :: args) =>
    if tag = "else" then expressions s args else failAt s e (.notElse tag)
  | f => failAt s f.extent (untagged f)

/-- What an assignment or a loop assigns to. -/
def target (s : Setting) : Form → Reader Node
  | .list e (.atom _ (.symbol tag) :: args) =>
    match Tag.ofSymbol? tag with
    | some (.varRef kind) =>
      match args with
      | [n] => do
        let n ← name s n
        make s e (.varTarget n) (some ⟨n, kind⟩)
      | _ => failArity s e tag (.exactly 1) args
    | some .field => fieldForm s e tag args
    | some .multi => do
      let targets ← targets s args
      make s e (.multiTarget targets)
    | _ => failAt s e (.notTarget tag)
  | f => failAt s f.extent (untagged f)

/-- Targets, in order. -/
def targets (s : Setting) : List Form → Reader (List Node)
  | [] => return []
  | f :: fs => do
    let n ← target s f
    let ns ← targets s fs
    return n :: ns

/-- An attribute that is assigned. -/
def fieldForm (s : Setting) (e : Extent) (tag : String) (args : List Form) : Reader Node :=
  match args with
  | [r, n] => do
    let receiver ← expression s r
    let n ← name s n
    make s e (.fieldTarget receiver n)
  | _ => failArity s e tag (.exactly 2) args

/-- What follows the body of an `if`. -/
def alternative (s : Setting) : Form → Reader Node
  | .list e (.atom _ (.symbol tag) :: args) =>
    if tag = "elsif" then elsifForm s e tag args
    else if tag = "else" then do
      let body ← expressions s args
      make s e (.elseThen body)
    else failAt s e (.notAlternative tag)
  | f => failAt s f.extent (untagged f)

/-- A further condition of an `if`. -/
def elsifForm (s : Setting) (e : Extent) (tag : String) (args : List Form) : Reader Node :=
  match args with
  | [c, b] => do
    let condition ← expression s c
    let body ← sequence s b
    make s e (.elsif condition body none)
  | [c, b, a] => do
    let condition ← expression s c
    let body ← sequence s b
    let other ← alternative s a
    make s e (.elsif condition body (some other))
  | _ => failArity s e tag (.between 2 3) args

/-- The parts of a string: quoted texts and expressions. -/
def parts (s : Setting) : List Form → Reader (List Node)
  | [] => return []
  | f :: fs => do
    let n ←
      match f.text? with
      | some t => make s f.extent (.content t)
      | none => expression s f
    let ns ← parts s fs
    return n :: ns

/-- The clauses of a `case`, and the statements of its `else`, which comes last. -/
def clauses (s : Setting) : List Form → Reader (List Node × Option (List Node))
  | [] => return ([], none)
  | f :: fs =>
    if f.tag? = some "when" then do
      let n ← whenClause s f
      let (ns, other) ← clauses s fs
      return (n :: ns, other)
    else if f.tag? = some "else" ∧ fs.isEmpty then do
      let other ← elseClause s f
      return ([], some other)
    else failAt s f.extent .caseClause

/-- One clause of a `case`. -/
def whenClause (s : Setting) : Form → Reader Node
  | .list e (.atom _ (.symbol tag) :: args) => whenForm s e tag args
  | f => failAt s f.extent (untagged f)

/-- The candidates and the statements of a clause. -/
def whenForm (s : Setting) (e : Extent) (tag : String) (args : List Form) : Reader Node :=
  match args with
  | c :: rest => do
    let candidates ← sequence s c
    let body ← expressions s rest
    make s e (.whenThen candidates body)
  | [] => failArity s e tag (.atLeast 1) args

/-- A block literal. -/
def block (s : Setting) : Form → Reader Node
  | .list e (.atom _ (.symbol tag) :: args) => blockForm s e tag args
  | f => failAt s f.extent (untagged f)

/-- A block literal with its parameters. -/
def blockForm (s : Setting) (e : Extent) (tag : String) (args : List Form) : Reader Node :=
  match args with
  | p :: rest => do
    let (paramsTag, params) ← split s p
    if paramsTag ≠ "params" then failAt s p.extent .notParams
    else do
      let params ← params.mapM (parameter s)
      let body ← expressions s rest
      make s e (.doBlock params body)
  | [] => failArity s e tag (.atLeast 1) args

/-- The value that a call passes as its block. -/
def blockPass (s : Setting) : Form → Reader Node
  | .list e (.atom _ (.symbol tag) :: args) =>
    match args with
    | [v] => expression s v
    | _ => failArity s e tag (.exactly 1) args
  | f => failAt s f.extent (untagged f)

/-- The arguments of a call, with its blocks apart; of several blocks of one sort the last is
taken. -/
def callParts (s : Setting) : List Form → Reader CallParts
  | [] => return {}
  | f :: fs =>
    if f.tag? = some "block-pass" then do
      let n ← blockPass s f
      let rest ← callParts s fs
      return { rest with blockPass := rest.blockPass <|> some n }
    else if f.tag? = some "do-block" then do
      let n ← block s f
      let rest ← callParts s fs
      return { rest with block := rest.block <|> some n }
    else do
      let n ← expression s f
      let rest ← callParts s fs
      return { rest with args := n :: rest.args }

end

/-- The whole program: a `program` form with its scope, or a bare expression. -/
def program (s : Setting) (root : Form) : Reader Node :=
  match root with
  | .list e (.atom _ (.symbol "program") :: args) =>
    match args with
    | first :: rest =>
      if first.tag? = some "scope" then do
        let s := { s with scope := ← scope s first }
        let body ← expressions s rest
        make s e (.program body)
      else do
        let body ← expressions s args
        make s e (.program body)
    | [] => make s e (.program [])
  | f => do
    let n ← expression s f
    make s f.extent (.program [n])

end ControlFlow.Reading
