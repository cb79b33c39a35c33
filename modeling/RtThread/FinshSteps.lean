import RtThread.StateProgram
import RtThread.FinshParser

/-!
# The steps the parser is composed of

All functions of the parser are composed of a few steps: reading tokens,
setting errors, inserting variables and making nodes.  A fact about the state
that every step keeps is kept by the parser.
-/

namespace RtThread.Finsh

open StateProgram

inductive ParserStep : ∀ {α : Type}, FinshM α → Prop
  | nextToken : ParserStep nextToken
  | tokenReplay : ParserStep tokenReplay
  | tokenString : ParserStep tokenString
  | tokenValue : ParserStep tokenValue
  | errorSet (type : FinshError) (htype : type ≠ .ok) : ParserStep (finshErrorSet type)
  | insertVar (id : List Char) (type : FinshType) : ParserStep (insertVar id type)
  | nodeNew (info : NodeInfo) : ParserStep (finshNodeNew info .memoryFull)
  | nodeNewId (env : FinshEnv) (id : List Char) : ParserStep (finshNodeNewId env id)
  | stringNode (env : FinshEnv) : ParserStep (tokenString >>= finshNodeNewString env)
  | makeSysNode (type : NodeType) (node1 node2 : Tree) : ParserStep (makeSysNode type node1 node2)

abbrev Parses {α : Type} (x : FinshM α) : Prop := Generated ParserStep x

variable {env : FinshEnv} {n : ℕ} {type : FinshType} {token : TokenType}
  {ops : TokenType → Option BinOp} {operand assign cast : FinshM Tree}

theorem parses_nextToken : Parses nextToken := .step .nextToken

theorem parses_tokenReplay : Parses tokenReplay := .step .tokenReplay

theorem parses_checkToken {type : TokenType} : Parses (checkToken token type) := by
  unfold checkToken
  split
  · exact .pure _
  · exact .bind (.step (.errorSet _ (by simp))) fun _ => parses_tokenReplay

theorem parses_matchToken {type : TokenType} : Parses (matchToken type) :=
  .bind parses_nextToken fun _ => parses_checkToken

theorem parses_procPointer : Parses (procPointer type) := by
  refine .bind parses_nextToken fun token => ?_
  split
  · exact .pure _
  · exact .bind parses_tokenReplay fun _ => .pure _

theorem parses_procTypeReturn : Parses procTypeReturn :=
  .bind parses_tokenReplay fun _ => .bind (.step (.errorSet _ (by simp))) fun _ => .pure _

theorem parses_procType : Parses procType := by
  refine .bind parses_nextToken fun token => ?_
  split
  · exact parses_procPointer
  · split
    · refine .bind parses_nextToken fun token => ?_
      split
      · split
        · exact parses_procPointer
        · exact parses_procTypeReturn
      · exact .bind parses_tokenReplay fun _ =>
          .bind (.step (.errorSet _ (by simp))) fun _ => parses_procPointer
    · exact parses_procTypeReturn

theorem parses_procIdentifier : Parses procIdentifier :=
  .bind parses_matchToken fun _ => .bind (.step .tokenString) fun _ => .pure _

theorem parses_procBinaryLoop (hoperand : Parses operand) (left : Tree) :
    Parses (procBinaryLoop ops operand n left) := by
  induction n generalizing left with
  | zero => exact .failure
  | succ n ih =>
    refine .bind parses_nextToken fun token => ?_
    split
    · exact .bind parses_tokenReplay fun _ => .pure _
    · refine .bind hoperand fun right => ?_
      split
      · exact .bind (.step (.errorSet _ (by simp))) fun _ => ih left
      · exact .bind (.step (.makeSysNode _ _ _)) ih

theorem parses_procBinaryExpr (hoperand : Parses operand) : Parses (procBinaryExpr ops n operand) :=
  .bind hoperand fun left => parses_procBinaryLoop hoperand left

theorem parses_procInclusiveOrExpr (hcast : Parses cast) : Parses (procInclusiveOrExpr n cast) := by
  iterate 6 apply parses_procBinaryExpr
  exact hcast

theorem parses_procPrimaryExpr (hexpr : Parses operand) : Parses (procPrimaryExpr env operand) := by
  refine .bind parses_nextToken fun token => ?_
  split
  · exact .bind parses_tokenReplay fun _ =>
      .bind parses_procIdentifier fun _ => .step (.nodeNewId _ _)
  · exact .bind hexpr fun _ => .bind parses_matchToken fun _ => .pure _
  · exact .bind (.step .tokenValue) fun _ => .step (.nodeNew _)
  · exact .bind (.step .tokenValue) fun _ => .step (.nodeNew _)
  · exact .bind (.step .tokenValue) fun _ => .step (.nodeNew _)
  · exact .step (.stringNode _)
  · exact .step (.nodeNew _)
  · exact .bind (.step (.errorSet _ (by simp))) fun _ => .pure _

section

variable (hassign : Parses assign)
include hassign

theorem parses_procParamLoop (node : Tree) :
    Parses (procParamLoop assign n node) := by
  induction n generalizing node with
  | zero => exact .failure
  | succ n ih =>
    refine .bind parses_nextToken fun token => ?_
    split
    · refine .bind hassign fun sibling => ?_
      split
      · exact .bind (.step (.errorSet _ (by simp))) fun _ => ih node
      · exact ih _
    · exact .bind parses_tokenReplay fun _ => .pure _

theorem parses_procCall : Parses (procCall n assign) := by
  refine .bind parses_nextToken fun token => ?_
  split
  · exact .pure _
  · refine .bind parses_tokenReplay fun _ => .bind (.bind hassign fun node => ?_) fun _ =>
      .bind parses_matchToken fun _ => .pure _
    split
    · exact .pure _
    · exact parses_procParamLoop hassign node

theorem parses_procPostfixLoop (node : Tree) :
    Parses (procPostfixLoop assign n node) := by
  induction n generalizing node with
  | zero => exact .failure
  | succ n ih =>
    refine .bind parses_nextToken fun token => ?_
    split
    · exact .bind (.step (.makeSysNode _ _ _)) ih
    · split
      · exact .bind (.step (.makeSysNode _ _ _)) ih
      · split
        · exact .bind (parses_procCall hassign) fun _ => .bind (.step (.makeSysNode _ _ _)) ih
        · exact .bind parses_tokenReplay fun _ => .pure _

theorem parses_procPostfixExpr : Parses (procPostfixExpr env n assign) :=
  .bind (parses_procPrimaryExpr hassign) fun node => parses_procPostfixLoop hassign node

end

theorem parses_unaryNode {type : NodeType} (hcast : Parses cast) : Parses (unaryNode type cast) :=
  .bind hcast fun _ => .step (.makeSysNode _ _ _)

theorem parses_procUnaryExpr (hcast : Parses cast) (hoperand : Parses operand) :
    Parses (procUnaryExpr cast operand) := by
  refine .bind parses_nextToken fun token => ?_
  split
  · exact hcast
  · exact parses_unaryNode hcast
  · exact .bind hcast fun _ => .bind (.step (.nodeNew _)) fun _ => .step (.makeSysNode _ _ _)
  · exact parses_unaryNode hcast
  · exact parses_unaryNode hcast
  · exact parses_unaryNode hcast
  · exact parses_unaryNode hcast
  · exact .bind parses_tokenReplay fun _ => hoperand

theorem parses_procCastExpr (hassign : Parses assign) : Parses (procCastExpr env assign n) := by
  induction n with
  | zero => exact .failure
  | succ n ih =>
    have hunary : Parses
        (procUnaryExpr (procCastExpr env assign n) (procPostfixExpr env n assign)) :=
      parses_procUnaryExpr ih (parses_procPostfixExpr hassign)
    refine .bind parses_nextToken fun token => ?_
    split
    · refine .bind parses_procType fun _ => .bind parses_matchToken fun _ => .bind ih fun _ => ?_
      split
      · exact .bind parses_tokenReplay fun _ => hunary
      · exact .pure _
    · exact .bind parses_tokenReplay fun _ => hunary

theorem parses_procAssignExpr : Parses (procAssignExpr env n) := by
  induction n with
  | zero => exact .failure
  | succ n ih =>
    refine .bind (parses_procInclusiveOrExpr (parses_procCastExpr ih)) fun left =>
      .bind parses_nextToken fun token => ?_
    split
    · exact .bind ih fun _ => .step (.makeSysNode _ _ _)
    · exact .bind parses_tokenReplay fun _ => .pure _

theorem parses_procExprStatement : Parses (procExprStatement env n) := by
  refine .bind parses_nextToken fun token => ?_
  split
  · exact .pure _
  · exact .bind parses_tokenReplay fun _ => .bind parses_procAssignExpr fun _ =>
      .bind parses_matchToken fun _ => .pure _

theorem parses_procDeclarator : Parses (procDeclarator type) :=
  .bind parses_procIdentifier fun _ => .bind (.step (.insertVar _ _)) fun _ => .pure _

theorem parses_procInitialiser {id : List Char} : Parses (procInitialiser env n id) := by
  refine .bind parses_procAssignExpr fun value => ?_
  split
  · exact .pure _
  · exact .bind (.step (.nodeNewId _ _)) fun _ => .bind (.step (.makeSysNode _ _ _)) fun _ =>
      .bind parses_nextToken fun _ => .pure _

theorem parses_procDeclLoop (token : TokenType) (node last : Tree) :
    Parses (procDeclLoop env type n token node last) := by
  induction n generalizing token node last with
  | zero => exact .failure
  | succ n ih =>
    unfold procDeclLoop
    split
    · refine .bind parses_procDeclarator fun id => .bind parses_nextToken fun token => ?_
      split
      · refine .bind parses_procInitialiser fun value => ?_
        split
        · exact ih _ _ _
        · split
          · exact ih _ _ _
          · exact .failure
      · exact ih _ _ _
    · exact .bind parses_checkToken fun _ => .pure _

theorem parses_procVariableDecl : Parses (procVariableDecl env n) := by
  refine .bind parses_procType fun type => .bind parses_procDeclarator fun id =>
    .bind parses_nextToken fun token => ?_
  split
  · exact parses_procDeclLoop _ _ _
  · refine .bind parses_procInitialiser fun value => ?_
    split
    · exact parses_procDeclLoop _ _ _
    · exact parses_procDeclLoop _ _ _
  · exact .pure _
  · exact .bind (.step (.errorSet _ (by simp))) fun _ => .pure _

theorem parses_procStatement : Parses (procStatement env n token) := by
  unfold procStatement
  split
  · exact parses_procVariableDecl
  · exact parses_procExprStatement

theorem parses_skipToken {node : Tree} {roots : Roots} : Parses (skipToken token node roots) := by
  unfold skipToken
  split
  · exact .bind parses_nextToken fun _ => .pure _
  · exact .pure _

theorem parses_parserLoop (token : TokenType) (roots : Roots) :
    Parses (parserLoop env n token roots) := by
  induction n generalizing token roots with
  | zero => exact .failure
  | succ n ih =>
    unfold parserLoop
    split
    · exact .pure _
    · refine .bind parses_tokenReplay fun _ => .bind parses_procStatement fun node =>
        .bind parses_skipToken fun _ => ?_
      split
      · exact .pure _
      · exact .bind parses_nextToken fun token => ih token _

variable {s s' : FinshState} {line : List Char} {root : Tree}

theorem finshParserRun_relates {r : FinshState → FinshState → Prop} (hrefl : ∀ s, r s s)
    (htrans : ∀ {s₁ s₂ s₃}, r s₁ s₂ → r s₂ s₃ → r s₁ s₃)
    (hinit : ∀ s, r s { s with token := finshTokenInit line })
    (hstep : ∀ {α : Type} {x : FinshM α} {s a s'}, ParserStep x → x s = some (a, s') → r s s')
    (hrun : finshParserRun env n line s = some (root, s')) : r s s' := by
  obtain ⟨_, s₁, hparserInit, hrest⟩ := bind_eq_some.mp hrun
  obtain ⟨rfl, rfl⟩ := hparserInit
  have hparses : Parses (do
      let token ← nextToken
      let roots ← parserLoop env n token ⟨[], .nil⟩
      pure roots.tree) :=
    .bind parses_nextToken fun token => .bind (parses_parserLoop token _) fun _ => .pure _
  exact htrans (hinit s) (hparses.relates hrefl htrans hstep hrest)

theorem nodes_le_of_step {α : Type} {x : FinshM α} {a : α} (hx : ParserStep x)
    (hrun : x s = some (a, s')) (hnodes : s.nodes ≤ FINSH_NODE_MAX) :
    s'.nodes ≤ FINSH_NODE_MAX := by
  have hnew : ∀ (info : NodeInfo) (full : FinshError) {s : FinshState} {a : Tree},
      finshNodeNew info full s = some (a, s') → s.nodes ≤ FINSH_NODE_MAX →
        s'.nodes ≤ FINSH_NODE_MAX := by
    intro info full s a hrun hnodes
    unfold finshNodeNew at hrun
    split at hrun
    · obtain ⟨rfl, rfl⟩ := hrun
      assumption
    · obtain ⟨rfl, rfl⟩ := hrun
      exact hnodes
  cases hx with
  | nextToken =>
    unfold nextToken at hrun
    split at hrun
    · obtain ⟨rfl, rfl⟩ := hrun
      exact hnodes
    · split at hrun
      · obtain ⟨rfl, rfl⟩ := hrun
        exact hnodes
      · obtain ⟨rfl, rfl⟩ := hrun
        exact hnodes
      · cases hrun
  | tokenReplay | tokenString | tokenValue | errorSet =>
    obtain ⟨rfl, rfl⟩ := hrun
    exact hnodes
  | insertVar =>
    unfold insertVar at hrun
    split at hrun
    · obtain ⟨rfl, rfl⟩ := hrun
      exact hnodes
    · obtain ⟨rfl, rfl⟩ := hrun
      exact hnodes
  | nodeNew info => exact hnew _ _ hrun hnodes
  | nodeNewId =>
    unfold finshNodeNewId at hrun
    split at hrun
    · exact hnew _ _ hrun hnodes
    · split at hrun
      · split at hrun
        · exact hnew _ _ hrun hnodes
        · split at hrun
          · exact hnew _ _ hrun hnodes
          · obtain ⟨rfl, rfl⟩ := hrun
            exact hnodes
      · cases hrun
  | stringNode env =>
    change finshNodeNewString env _ s = _ at hrun
    unfold finshNodeNewString at hrun
    split at hrun
    · obtain ⟨rfl, rfl⟩ := hrun
      assumption
    · obtain ⟨rfl, rfl⟩ := hrun
      exact hnodes
  | makeSysNode =>
    unfold makeSysNode at hrun
    split at hrun
    · split at hrun
      · obtain ⟨rfl, rfl⟩ := hrun
        assumption
      · obtain ⟨rfl, rfl⟩ := hrun
        assumption
    · obtain ⟨rfl, rfl⟩ := hrun
      exact hnodes

end RtThread.Finsh
