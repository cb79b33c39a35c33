import RtThread.FinshTables

/-!
# The recursive-descent parser

Each function of `finsh_parser.c` is a computation on the parser state.  A
function that a recursive call reaches takes that call as a parameter; the
recursion itself and the loops are bounded by a number of rounds, and give
`none` when it is used up.
-/

namespace RtThread.Finsh

def nextToken : FinshM TokenType := fun s =>
  if s.token.replay then
    some (s.token.currentToken, { s with token := { s.token with replay := false } })
  else
    match tokenRun s.token with
    | some (token, .ok) => some (token.currentToken, { s with token := token })
    | some (token, error) => some (token.currentToken, { s with token := token, errno := error })
    | none => none

def tokenReplay : FinshM Unit := fun s =>
  some ((), { s with token := { s.token with replay := true } })

def tokenString : FinshM (List Char) := fun s => some (cString s.token.string, s)

def tokenValue : FinshM (BitVec 32) := fun s => some (s.token.value, s)

def checkToken (token type : TokenType) : FinshM Unit :=
  if token = type then pure ()
  else do
    finshErrorSet .invalidToken
    tokenReplay

def matchToken (type : TokenType) : FinshM Unit := do
  let token ← nextToken
  checkToken token type

def baseType : TokenType → Option FinshType
  | .void => some .void
  | .char => some .char
  | .short => some .short
  | .int => some .int
  | .long => some .long
  | _ => none

def unsignedType : FinshType → Option FinshType
  | .char => some .uchar
  | .short => some .ushort
  | .int => some .uint
  | .long => some .ulong
  | _ => none

def pointerType : FinshType → FinshType
  | .char | .uchar => .charp
  | .short | .ushort => .shortp
  | .int | .uint => .intp
  | .long | .ulong => .longp
  | _ => .voidp

def procPointer (type : FinshType) : FinshM FinshType := do
  let token ← nextToken
  if token = .mul then pure (pointerType type)
  else do
    tokenReplay
    pure type

def procTypeReturn : FinshM FinshType := do
  tokenReplay
  finshErrorSet .unknownType
  pure .unknown

def procType : FinshM FinshType := do
  let token ← nextToken
  match baseType token with
  | some type => procPointer type
  | none =>
    if token = .unsigned then do
      let token ← nextToken
      match baseType token with
      | some type =>
        match unsignedType type with
        | some type => procPointer type
        | none => procTypeReturn
      | none => do
          tokenReplay
          finshErrorSet .expectType
          procPointer .unknown
    else procTypeReturn

def procIdentifier : FinshM (List Char) := do
  matchToken .identifier
  let string ← tokenString
  pure (string.take FINSH_NAME_MAX)

def procBinaryLoop (ops : TokenType → Option BinOp) (operand : FinshM Tree) :
    ℕ → Tree → FinshM Tree
  | 0, _ => failure
  | n + 1, left => do
      let token ← nextToken
      match ops token with
      | none => do
          tokenReplay
          pure left
      | some op => do
          let right ← operand
          if right = .nil then do
            finshErrorSet .expectOperator
            procBinaryLoop ops operand n left
          else do
            let left ← makeSysNode (.binary op) left right
            procBinaryLoop ops operand n left

def procBinaryExpr (ops : TokenType → Option BinOp) (n : ℕ) (operand : FinshM Tree) :
    FinshM Tree := do
  let left ← operand
  procBinaryLoop ops operand n left

def multiplicativeOps : TokenType → Option BinOp
  | .mul => some .mul
  | .div => some .div
  | .mod => some .mod
  | _ => none

def additiveOps : TokenType → Option BinOp
  | .sub => some .sub
  | .add => some .add
  | _ => none

def shiftOps : TokenType → Option BinOp
  | .shl => some .shl
  | .shr => some .shr
  | _ => none

def andOps : TokenType → Option BinOp
  | .and => some .and
  | _ => none

def exclusiveOrOps : TokenType → Option BinOp
  | .xor => some .xor
  | _ => none

def inclusiveOrOps : TokenType → Option BinOp
  | .or => some .or
  | _ => none

def procMultiplicativeExpr (n : ℕ) (cast : FinshM Tree) : FinshM Tree :=
  procBinaryExpr multiplicativeOps n cast

def procAdditiveExpr (n : ℕ) (cast : FinshM Tree) : FinshM Tree :=
  procBinaryExpr additiveOps n (procMultiplicativeExpr n cast)

def procShiftExpr (n : ℕ) (cast : FinshM Tree) : FinshM Tree :=
  procBinaryExpr shiftOps n (procAdditiveExpr n cast)

def procAndExpr (n : ℕ) (cast : FinshM Tree) : FinshM Tree :=
  procBinaryExpr andOps n (procShiftExpr n cast)

def procExclusiveOrExpr (n : ℕ) (cast : FinshM Tree) : FinshM Tree :=
  procBinaryExpr exclusiveOrOps n (procAndExpr n cast)

def procInclusiveOrExpr (n : ℕ) (cast : FinshM Tree) : FinshM Tree :=
  procBinaryExpr inclusiveOrOps n (procExclusiveOrExpr n cast)

def procPrimaryExpr (env : FinshEnv) (expr : FinshM Tree) : FinshM Tree := do
  let token ← nextToken
  match token with
  | .identifier => do
      tokenReplay
      let id ← procIdentifier
      finshNodeNewId env id
  | .leftParen => do
      let node ← expr
      matchToken .rightParen
      pure node
  | .valueInt => do
      let value ← tokenValue
      finshNodeNewInt value
  | .valueLong => do
      let value ← tokenValue
      finshNodeNewLong value
  | .valueChar => do
      let value ← tokenValue
      finshNodeNewChar value
  | .valueString => do
      let string ← tokenString
      finshNodeNewString env string
  | .valueNull => finshNodeNewPtr 0
  | _ => do
      finshErrorSet .invalidToken
      pure .nil

def Tree.append : Tree → Tree → Tree
  | .nil, tree => tree
  | .node info child sibling, tree => .node info child (sibling.append tree)

def procParamLoop (assign : FinshM Tree) : ℕ → Tree → FinshM Tree
  | 0, _ => failure
  | n + 1, node => do
      let token ← nextToken
      if token = .comma then do
        let sibling ← assign
        if sibling = .nil then do
          finshErrorSet .expectOperator
          procParamLoop assign n node
        else procParamLoop assign n (node.append sibling)
      else do
        tokenReplay
        pure node

def procParamList (n : ℕ) (assign : FinshM Tree) : FinshM Tree := do
  let node ← assign
  if node = .nil then pure .nil
  else procParamLoop assign n node

def procCall (n : ℕ) (assign : FinshM Tree) : FinshM Tree := do
  let token ← nextToken
  if token = .rightParen then pure .nil
  else do
    tokenReplay
    let params ← procParamList n assign
    matchToken .rightParen
    pure params

def procPostfixLoop (assign : FinshM Tree) : ℕ → Tree → FinshM Tree
  | 0, _ => failure
  | n + 1, node => do
      let token ← nextToken
      if token = .inc then do
        let node ← makeSysNode .inc node .nil
        procPostfixLoop assign n node
      else if token = .dec then do
        let node ← makeSysNode .dec node .nil
        procPostfixLoop assign n node
      else if token = .leftParen then do
        let params ← procCall n assign
        let node ← makeSysNode .func node params
        procPostfixLoop assign n node
      else do
        tokenReplay
        pure node

def procPostfixExpr (env : FinshEnv) (n : ℕ) (assign : FinshM Tree) : FinshM Tree := do
  let node ← procPrimaryExpr env assign
  procPostfixLoop assign n node

def unaryNode (type : NodeType) (cast : FinshM Tree) : FinshM Tree := do
  let node ← cast
  makeSysNode type node .nil

def procUnaryExpr (cast postfixExpr : FinshM Tree) : FinshM Tree := do
  let token ← nextToken
  match token with
  | .add => cast
  | .inc => unaryNode .preinc cast
  | .sub => do
      let node ← cast
      let zero ← finshNodeNewLong 0
      makeSysNode (.binary .sub) zero node
  | .dec => unaryNode .predec cast
  | .bitwise => unaryNode .bitwise cast
  | .mul => unaryNode .getvalue cast
  | .and => unaryNode .getaddr cast
  | _ => do
      tokenReplay
      postfixExpr

def Tree.setDataType (type : ℕ) : Tree → Tree
  | .nil => .nil
  | .node info child sibling => .node { info with dataType := type } child sibling

def procCastExpr (env : FinshEnv) (assign : FinshM Tree) : ℕ → FinshM Tree
  | 0 => failure
  | n + 1 => do
      let token ← nextToken
      if token = .leftParen then do
        let type ← procType
        matchToken .rightParen
        let cast ← procCastExpr env assign n
        if cast = .nil then do
          tokenReplay
          procUnaryExpr (procCastExpr env assign n) (procPostfixExpr env n assign)
        else pure (cast.setDataType type.number)
      else do
        tokenReplay
        procUnaryExpr (procCastExpr env assign n) (procPostfixExpr env n assign)

def procAssignExpr (env : FinshEnv) : ℕ → FinshM Tree
  | 0 => failure
  | n + 1 => do
      let left ← procInclusiveOrExpr n (procCastExpr env (procAssignExpr env n) n)
      let token ← nextToken
      if token = .assign then do
        let value ← procAssignExpr env n
        makeSysNode .assign left value
      else do
        tokenReplay
        pure left

def procExprStatement (env : FinshEnv) (n : ℕ) : FinshM Tree := do
  let token ← nextToken
  if token = .semicolon then pure .nil
  else do
    tokenReplay
    let expr ← procAssignExpr env n
    matchToken .semicolon
    pure expr

def insertVar (id : List Char) (type : FinshType) : FinshM Unit := fun s =>
  match finshVarInsert s.vars id type with
  | some vars => some ((), { s with vars := vars })
  | none => some ((), { s with errno := .variableExist })

def procDeclarator (type : FinshType) : FinshM (List Char) := do
  let id ← procIdentifier
  insertVar id type
  pure id

def procInitialiser (env : FinshEnv) (n : ℕ) (id : List Char) :
    FinshM (Option (Tree × TokenType)) := do
  let value ← procAssignExpr env n
  if value = .nil then pure none
  else do
    let idnode ← finshNodeNewId env id
    let node ← makeSysNode .assign idnode value
    let token ← nextToken
    pure (some (node, token))

/-- Link the assignment of a further initialiser; when the node table was full for the one
before it, `end` is null. -/
def linkAssign (node last tree : Tree) : Option Tree :=
  if node = .nil then some tree
  else if last = .nil then none
  else some (node.append tree)

/-- The loop over the declarators behind a comma: `node` is the first assignment and
`last` what `end` points to. -/
def procDeclLoop (env : FinshEnv) (type : FinshType) :
    ℕ → TokenType → Tree → Tree → FinshM Tree
  | 0, _, _, _ => failure
  | n + 1, token, node, last =>
      if token = .comma then do
        let id ← procDeclarator type
        let token ← nextToken
        if token = .assign then do
          let value ← procInitialiser env n id
          match value with
          | none => procDeclLoop env type n .assign node last
          | some (tree, token) =>
              match linkAssign node last tree with
              | some chain => procDeclLoop env type n token chain tree
              | none => failure
        else procDeclLoop env type n token node last
      else do
        checkToken token .semicolon
        pure node

def procVariableDecl (env : FinshEnv) (n : ℕ) : FinshM Tree := do
  let type ← procType
  let id ← procDeclarator type
  let token ← nextToken
  match token with
  | .comma => procDeclLoop env type n .comma .nil .nil
  | .assign => do
      let value ← procInitialiser env n id
      match value with
      | none => procDeclLoop env type n .assign .nil .nil
      | some (tree, token) => procDeclLoop env type n token tree tree
  | .semicolon => pure .nil
  | _ => do
      finshErrorSet .expectType
      pure .nil

/-- The chain of statements: the nodes from `root` up to the one `node` points to, without
their links, and the sibling of that one. -/
structure Roots where
  front : List (NodeInfo × Tree)
  tail : Tree

def Roots.tree (roots : Roots) : Tree :=
  roots.front.foldr (fun node rest => .node node.1 node.2 rest) roots.tail

/-- Make `tree` the sibling of the last node, and its first node the last one. -/
def Roots.link (roots : Roots) : Tree → Roots
  | .nil => { roots with tail := .nil }
  | .node info child sibling => ⟨roots.front ++ [(info, child)], sibling⟩

def startsDecl (token : TokenType) : Bool :=
  (baseType token).isSome || token == .unsigned

def procStatement (env : FinshEnv) (n : ℕ) (token : TokenType) : FinshM Tree :=
  if startsDecl token then procVariableDecl env n else procExprStatement env n

/-- A statement without a node, unless it is the first or starts with an identifier or a
type, takes the token behind it along. -/
def skipToken (token : TokenType) (node : Tree) (roots : Roots) : FinshM Unit :=
  if node = .nil ∧ roots.front ≠ [] ∧ token ≠ .identifier ∧ ¬startsDecl token then do
    let _ ← nextToken
    pure ()
  else pure ()

def parserLoop (env : FinshEnv) : ℕ → TokenType → Roots → FinshM Roots
  | 0, _, _ => failure
  | n + 1, token, roots =>
      if token = .eof ∨ token = .bad then pure roots
      else do
        tokenReplay
        let node ← procStatement env n token
        skipToken token node roots
        if (roots.link node).front = [] then pure (roots.link node)
        else do
          let token ← nextToken
          parserLoop env n token (roots.link node)

def parserInit (line : List Char) : FinshM Unit := fun s =>
  some ((), { s with token := finshTokenInit line })

def finshParserRun (env : FinshEnv) (n : ℕ) (line : List Char) : FinshM Tree := do
  parserInit line
  let token ← nextToken
  let roots ← parserLoop env n token ⟨[], .nil⟩
  pure roots.tree

end RtThread.Finsh
