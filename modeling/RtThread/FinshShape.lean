import RtThread.StateProgram
import RtThread.FinshParser

/-!
# The shape of the tree of an accepted line

If the parser ends without an error, every operator of the tree has the number
of children its code takes from the stack, and every identifier names a symbol.
The error number is never taken back, so each function can be looked at alone.
-/

namespace RtThread.Finsh

open StateProgram Ensures Finsh.Tree

def NodeInfo.ArityOk (info : NodeInfo) (n : ℕ) : Prop :=
  match info.nodeType with
  | .id => info.id.isSome ∧ n = 0
  | .valueChar | .valueInt | .valueLong | .valueString | .valueNull => n = 0
  | .binary _ | .assign => n = 2
  | .func => 0 < n
  | .cast | .null => False
  | .bitwise | .preinc | .predec | .inc | .dec | .getvalue | .getaddr => n = 1

def Tree.WellFormed : Tree → Prop
  | .nil => True
  | .node info child sibling =>
    info.ArityOk child.length ∧ child.WellFormed ∧ sibling.WellFormed

structure Tree.IsExpr (tree : Tree) : Prop where
  wellFormed : tree.WellFormed
  length : tree.length = 1

def Tree.size : Tree → ℕ
  | .nil => 0
  | .node _ child sibling => child.size + sibling.size + 1

def NoError (s : FinshState) : Prop := s.errno = .ok

variable {α β : Type} {s s' : FinshState} {tree : Tree}

theorem Tree.WellFormed.append
    {tree' : Tree} (htree : tree.WellFormed) (htree' : tree'.WellFormed) :
    (tree.append tree').WellFormed := by
  induction tree with
  | nil => exact htree'
  | node info child sibling _ ih => exact ⟨htree.1, htree.2.1, ih htree.2.2⟩

theorem Tree.size_append (tree tree' : Tree) :
    (tree.append tree').size = tree.size + tree'.size := by
  induction tree with
  | nil => simp [append, size]
  | node info child sibling _ ih =>
    simp only [append, size, ih]
    omega

theorem Tree.size_setDataType (tree : Tree) (type : ℕ) :
    (tree.setDataType type).size = tree.size := by
  cases tree <;> rfl

theorem Tree.IsExpr.setDataType (h : tree.IsExpr) (type : ℕ) : (tree.setDataType type).IsExpr := by
  cases tree with
  | nil => exact h
  | node info child sibling => exact ⟨h.wellFormed, h.length⟩

def Skips (x : FinshM α) : Prop :=
  Ensures NoError (fun s _ s' => s.nodes ≤ s'.nodes) x

def Makes (paid : ℕ) (shape : Tree → Prop) (x : FinshM Tree) : Prop :=
  Ensures NoError (fun s tree s' => shape tree ∧ s.nodes + tree.size ≤ s'.nodes + paid) x

section Rules

variable {x : FinshM α} {f : α → FinshM Tree} {g : α → FinshM β} {y : FinshM Tree}
  {h : Tree → FinshM Tree} {paid : ℕ} {shape shape' : Tree → Prop}

theorem Skips.then (hx : Skips x) (hg : ∀ a, Skips (g a)) : Skips (x >>= g) :=
  bind hx fun a => (hg a).weaken fun _ _ _ hle _ hle' => hle'.trans hle

theorem Skips.makes (hx : Skips x) (hf : ∀ a, Makes paid shape (f a)) :
    Makes paid shape (x >>= f) :=
  Ensures.bind hx fun a => (hf a).weaken fun _ _ _ hmade _ hle =>
    ⟨hmade.1, (Nat.add_le_add_right hle _).trans hmade.2⟩

theorem Makes.bind (hy : Makes 0 shape' y)
    (hh : ∀ tree, Makes (paid + tree.size) (fun tree' => shape' tree → shape tree') (h tree)) :
    Makes paid shape (y >>= h) := by
  refine Ensures.bind hy fun tree => (hh tree).weaken ?_
  intro s₁ tree' s' hmade s hbefore
  exact ⟨hmade.1 hbefore.1, by omega⟩

theorem Makes.pure {tree : Tree} (htree : shape tree) (hsize : tree.size ≤ paid) :
    Makes paid shape (Pure.pure tree) :=
  Ensures.pure fun _ => ⟨htree, Nat.add_le_add_left hsize _⟩

theorem Makes.failure : Makes paid shape failure := Ensures.failure

theorem Makes.weaken {paid' : ℕ} (hy : Makes paid' shape' y)
    (hshape : ∀ tree, shape' tree → shape tree) (hpaid : paid' ≤ paid) : Makes paid shape y :=
  Ensures.weaken hy fun _ tree _ hmade =>
    ⟨hshape tree hmade.1, hmade.2.trans (Nat.add_le_add_left hpaid _)⟩

theorem skips_nextToken : Skips nextToken := by
  intro s a s' hrun hok
  unfold nextToken at hrun
  split at hrun
  · obtain ⟨rfl, rfl⟩ := hrun
    exact ⟨hok, le_rfl⟩
  · split at hrun
    · obtain ⟨rfl, rfl⟩ := hrun
      exact ⟨hok, le_rfl⟩
    · rename_i token error hne _
      obtain ⟨rfl, rfl⟩ := hrun
      contradiction
    · cases hrun

theorem skips_tokenReplay : Skips tokenReplay := by
  intro s a s' hrun hok
  obtain ⟨rfl, rfl⟩ := hrun
  exact ⟨hok, le_rfl⟩

theorem skips_tokenString : Skips tokenString := by
  intro s a s' hrun hok
  obtain ⟨rfl, rfl⟩ := hrun
  exact ⟨hok, le_rfl⟩

theorem skips_tokenValue : Skips tokenValue := by
  intro s a s' hrun hok
  obtain ⟨rfl, rfl⟩ := hrun
  exact ⟨hok, le_rfl⟩

theorem skips_parserInit {line : List Char} : Skips (parserInit line) := by
  intro s a s' hrun hok
  obtain ⟨rfl, rfl⟩ := hrun
  exact ⟨hok, le_rfl⟩

theorem skips_insertVar {id : List Char} {type : FinshType} : Skips (insertVar id type) := by
  intro s a s' hrun hok
  unfold insertVar at hrun
  split at hrun
  · obtain ⟨rfl, rfl⟩ := hrun
    exact ⟨hok, le_rfl⟩
  · obtain ⟨rfl, rfl⟩ := hrun
    cases hok

theorem ensures_finshErrorSet {type : FinshError} (htype : type ≠ .ok) :
    Ensures NoError (fun _ _ _ => False) (finshErrorSet type) := by
  intro s a s' hrun hok
  obtain ⟨rfl, rfl⟩ := hrun
  contradiction

theorem skips_finshErrorSet {type : FinshError} (htype : type ≠ .ok) : Skips (finshErrorSet type) :=
  (ensures_finshErrorSet htype).weaken fun _ _ _ hfalse => hfalse.elim

theorem makes_of_error {type : FinshError} {f : Unit → FinshM Tree} (htype : type ≠ .ok)
    (hf : Makes paid shape' (f ())) : Makes paid shape (finshErrorSet type >>= f) :=
  (ensures_finshErrorSet htype).bind fun _ =>
    Ensures.weaken hf fun _ _ _ _ _ hfalse => hfalse.elim

theorem makes_finshNodeNew {info : NodeInfo} (hinfo : info.ArityOk 0) :
    Makes 0 Tree.IsExpr (finshNodeNew info .memoryFull) := by
  intro s a s' hrun hok
  unfold finshNodeNew at hrun
  split at hrun
  · obtain ⟨rfl, rfl⟩ := hrun
    exact ⟨hok, ⟨⟨hinfo, trivial, trivial⟩, rfl⟩, le_rfl⟩
  · obtain ⟨rfl, rfl⟩ := hrun
    cases hok

theorem makes_finshNodeNewId {env : FinshEnv} {id : List Char} :
    Makes 0 Tree.IsExpr (finshNodeNewId env id) := by
  have hsymbol : ∀ symbol, Makes 0 IsExpr (finshNodeNewSymbol symbol) :=
    fun symbol => makes_finshNodeNew ⟨rfl, rfl⟩
  intro s a s' hrun hok
  unfold finshNodeNewId at hrun
  split at hrun
  · exact hsymbol _ s a s' hrun hok
  · split at hrun
    · split at hrun
      · exact hsymbol _ s a s' hrun hok
      · split at hrun
        · exact hsymbol _ s a s' hrun hok
        · obtain ⟨rfl, rfl⟩ := hrun
          cases hok
    · cases hrun

theorem makes_finshNodeNewString {env : FinshEnv} {chars : List Char} :
    Makes 0 Tree.IsExpr (finshNodeNewString env chars) := by
  intro s a s' hrun hok
  unfold finshNodeNewString at hrun
  split at hrun
  · obtain ⟨rfl, rfl⟩ := hrun
    exact ⟨hok, ⟨⟨rfl, trivial, trivial⟩, rfl⟩, le_rfl⟩
  · obtain ⟨rfl, rfl⟩ := hrun
    cases hok

theorem makes_makeSysNode {type : NodeType} {node1 node2 : Tree} :
    Makes (node1.size + node2.size) (fun tree => node1.IsExpr → node2.WellFormed →
      NodeInfo.ArityOk { nodeType := type } (node2.length + 1) → tree.IsExpr)
      (makeSysNode type node1 node2) := by
  intro s a s' hrun hok
  unfold makeSysNode at hrun
  split at hrun
  · cases node1 with
    | nil =>
      obtain ⟨rfl, rfl⟩ := hrun
      cases hok
    | node info child sibling =>
      obtain ⟨rfl, rfl⟩ := hrun
      refine ⟨hok, fun hnode1 hnode2 harity => ⟨⟨harity, ?_, trivial⟩, rfl⟩, ?_⟩
      · exact ⟨hnode1.wellFormed.1, hnode1.wellFormed.2.1, hnode2⟩
      · simp only [size]
        omega
  · obtain ⟨rfl, rfl⟩ := hrun
    cases hok

end Rules

theorem skips_checkToken {token type : TokenType} : Skips (checkToken token type) := by
  unfold checkToken
  split
  · exact pure fun _ => le_rfl
  · exact (skips_finshErrorSet (by simp)).then fun _ => skips_tokenReplay

theorem skips_matchToken {type : TokenType} : Skips (matchToken type) :=
  skips_nextToken.then fun _ => skips_checkToken

theorem skips_pure (a : α) : Skips (pure a) := Ensures.pure fun _ => le_rfl

theorem skips_procPointer {type : FinshType} : Skips (procPointer type) := by
  apply skips_nextToken.then
  intro token
  split
  · exact skips_pure _
  · exact skips_tokenReplay.then fun _ => skips_pure _

theorem skips_procTypeReturn : Skips procTypeReturn :=
  skips_tokenReplay.then fun _ => (skips_finshErrorSet (by simp)).then fun _ => skips_pure _

theorem skips_procType : Skips procType := by
  apply skips_nextToken.then
  intro token
  split
  · exact skips_procPointer
  · split
    · apply skips_nextToken.then
      intro token
      split
      · split
        · exact skips_procPointer
        · exact skips_procTypeReturn
      · exact skips_tokenReplay.then fun _ =>
          (skips_finshErrorSet (by simp)).then fun _ => skips_procPointer
    · exact skips_procTypeReturn

theorem skips_procIdentifier : Skips procIdentifier :=
  skips_matchToken.then fun _ => skips_tokenString.then fun _ => skips_pure _

section Expressions

variable {env : FinshEnv} {ops : TokenType → Option BinOp} {operand assign cast : FinshM Tree}
  {n : ℕ}

theorem makes_procBinaryLoop (hoperand : Makes 0 Tree.IsExpr operand) (left : Tree) :
    Makes left.size (fun tree => left.IsExpr → tree.IsExpr)
      (procBinaryLoop ops operand n left) := by
  induction n generalizing left with
  | zero => exact .failure
  | succ n ih =>
    apply skips_nextToken.makes
    intro token
    split
    · exact skips_tokenReplay.makes fun _ => .pure id le_rfl
    · apply hoperand.bind
      intro right
      split
      · exact makes_of_error (by simp) ((ih left).weaken (fun _ htree => htree) (by omega))
      · refine bind makes_makeSysNode fun node => weaken (ih node) ?_
        intro s₁ tree s' hmade s hnode
        refine ⟨fun hright hleft => hmade.1 (hnode.1 hleft hright.wellFormed ?_), by omega⟩
        rw [hright.length]
        rfl

theorem makes_procBinaryExpr (hoperand : Makes 0 Tree.IsExpr operand) :
    Makes 0 Tree.IsExpr (procBinaryExpr ops n operand) :=
  hoperand.bind fun left =>
    (makes_procBinaryLoop hoperand left).weaken (fun _ htree => htree) (by omega)

theorem makes_procInclusiveOrExpr (hcast : Makes 0 Tree.IsExpr cast) :
    Makes 0 Tree.IsExpr (procInclusiveOrExpr n cast) := by
  iterate 6 apply makes_procBinaryExpr
  exact hcast

theorem makes_procPrimaryExpr (hexpr : Makes 0 Tree.IsExpr operand) :
    Makes 0 Tree.IsExpr (procPrimaryExpr env operand) := by
  apply skips_nextToken.makes
  intro token
  split
  · exact skips_tokenReplay.makes fun _ =>
      skips_procIdentifier.makes fun _ => makes_finshNodeNewId
  · exact hexpr.bind fun node => skips_matchToken.makes fun _ => .pure id (by omega)
  · exact skips_tokenValue.makes fun _ => makes_finshNodeNew rfl
  · exact skips_tokenValue.makes fun _ => makes_finshNodeNew rfl
  · exact skips_tokenValue.makes fun _ => makes_finshNodeNew rfl
  · exact skips_tokenString.makes fun _ => makes_finshNodeNewString
  · exact makes_finshNodeNew rfl
  · exact makes_of_error (by simp) (Makes.pure trivial le_rfl : Makes 0 (fun _ => True) _)

theorem makes_procParamLoop (hassign : Makes 0 Tree.IsExpr assign) (node : Tree) :
    Makes node.size (fun tree => node.WellFormed → tree.WellFormed)
      (procParamLoop assign n node) := by
  induction n generalizing node with
  | zero => exact .failure
  | succ n ih =>
    apply skips_nextToken.makes
    intro token
    split
    · apply hassign.bind
      intro sibling
      split
      · exact makes_of_error (by simp) ((ih node).weaken (fun _ htree => htree) (by omega))
      · refine (ih _).weaken ?_ (node.size_append sibling).le
        exact fun tree htree hsibling hnode => htree (hnode.append hsibling.wellFormed)
    · exact skips_tokenReplay.makes fun _ => .pure id le_rfl

theorem makes_procCall (hassign : Makes 0 Tree.IsExpr assign) :
    Makes 0 Tree.WellFormed (procCall n assign) := by
  have hlist : Makes 0 WellFormed (procParamList n assign) := by
    apply hassign.bind
    intro node
    split
    · exact .pure (fun _ => trivial) (Nat.zero_le _)
    · exact (makes_procParamLoop hassign node).weaken
        (fun tree htree hnode => htree hnode.wellFormed) (by omega)
  apply skips_nextToken.makes
  intro token
  split
  · exact .pure trivial le_rfl
  · exact skips_tokenReplay.makes fun _ => hlist.bind fun params =>
      skips_matchToken.makes fun _ => .pure id (by omega)

theorem makes_suffixNode {type : NodeType} {node : Tree} {f : Tree → FinshM Tree}
    (harity : NodeInfo.ArityOk { nodeType := type } 1)
    (hf : ∀ node, Makes node.size (fun tree => node.IsExpr → tree.IsExpr) (f node)) :
    Makes node.size (fun tree => node.IsExpr → tree.IsExpr) (makeSysNode type node .nil >>= f) := by
  refine bind makes_makeSysNode fun made => weaken (hf made) ?_
  intro s₁ tree s' hmade s hnode
  simp only [size] at hnode
  exact ⟨fun hleft => hmade.1 (hnode.1 hleft trivial harity), by omega⟩

theorem makes_procPostfixLoop (hassign : Makes 0 Tree.IsExpr assign) (node : Tree) :
    Makes node.size (fun tree => node.IsExpr → tree.IsExpr) (procPostfixLoop assign n node) := by
  induction n generalizing node with
  | zero => exact .failure
  | succ n ih =>
    apply skips_nextToken.makes
    intro token
    split
    · exact makes_suffixNode rfl ih
    · split
      · exact makes_suffixNode rfl ih
      · split
        · apply (makes_procCall hassign).bind
          intro params
          refine bind makes_makeSysNode fun made => weaken (ih made) ?_
          intro s₁ tree s' hmade s hnode
          refine ⟨fun hparams hleft => hmade.1 (hnode.1 hleft hparams ?_), by omega⟩
          exact Nat.succ_pos _
        · exact skips_tokenReplay.makes fun _ => .pure id le_rfl

theorem makes_procPostfixExpr (hassign : Makes 0 Tree.IsExpr assign) :
    Makes 0 Tree.IsExpr (procPostfixExpr env n assign) :=
  (makes_procPrimaryExpr hassign).bind fun node =>
    (makes_procPostfixLoop hassign node).weaken (fun _ htree => htree) (by omega)

theorem makes_unaryNode {type : NodeType} (hcast : Makes 0 Tree.IsExpr cast)
    (harity : NodeInfo.ArityOk { nodeType := type } 1) :
    Makes 0 Tree.IsExpr (unaryNode type cast) :=
  hcast.bind fun _ => makes_makeSysNode.weaken
    (fun _ htree hnode => htree hnode trivial harity) (by simp [size])

theorem makes_procUnaryExpr
    (hcast : Makes 0 Tree.IsExpr cast) (hoperand : Makes 0 Tree.IsExpr operand) :
    Makes 0 Tree.IsExpr (procUnaryExpr cast operand) := by
  apply skips_nextToken.makes
  intro token
  split
  · exact hcast
  · exact makes_unaryNode hcast rfl
  · have hzero : Makes 0 IsExpr (finshNodeNewLong 0) := makes_finshNodeNew rfl
    refine hcast.bind fun node => bind hzero fun zero =>
      weaken makes_makeSysNode ?_
    intro s₁ tree s' hmade s hbefore
    refine ⟨fun hnode => hmade.1 hbefore.1 hnode.wellFormed ?_, by omega⟩
    rw [hnode.length]
    rfl
  · exact makes_unaryNode hcast rfl
  · exact makes_unaryNode hcast rfl
  · exact makes_unaryNode hcast rfl
  · exact makes_unaryNode hcast rfl
  · exact skips_tokenReplay.makes fun _ => hoperand

theorem makes_procCastExpr (hassign : Makes 0 Tree.IsExpr assign) :
    Makes 0 Tree.IsExpr (procCastExpr env assign n) := by
  induction n with
  | zero => exact .failure
  | succ n ih =>
    have hunary : Makes 0 IsExpr
        (procUnaryExpr (procCastExpr env assign n) (procPostfixExpr env n assign)) :=
      makes_procUnaryExpr ih (makes_procPostfixExpr hassign)
    apply skips_nextToken.makes
    intro token
    split
    · refine skips_procType.makes fun type => skips_matchToken.makes fun _ => ih.bind ?_
      intro cast
      split
      · exact skips_tokenReplay.makes fun _ =>
          hunary.weaken (fun _ htree _ => htree) (Nat.zero_le _)
      · refine .pure (fun hcast => hcast.setDataType _) ?_
        rw [size_setDataType]
        omega
    · exact skips_tokenReplay.makes fun _ => hunary

theorem makes_assignNode {left value : Tree} :
    Makes (left.size + value.size) (fun tree => left.IsExpr → value.IsExpr → tree.IsExpr)
      (makeSysNode .assign left value) :=
  makes_makeSysNode.weaken
    (fun _ htree hleft hvalue => htree hleft hvalue.wellFormed (by rw [hvalue.length]; rfl))
    le_rfl

theorem makes_procAssignExpr : Makes 0 Tree.IsExpr (procAssignExpr env n) := by
  induction n with
  | zero => exact .failure
  | succ n ih =>
    apply (makes_procInclusiveOrExpr (makes_procCastExpr ih)).bind
    intro left
    apply skips_nextToken.makes
    intro token
    split
    · exact ih.bind fun value => makes_assignNode.weaken
        (fun _ htree hvalue hleft => htree hleft hvalue) (by omega)
    · exact skips_tokenReplay.makes fun _ => .pure id (by omega)

end Expressions

section Statements

variable {env : FinshEnv} {n : ℕ}

theorem makes_procExprStatement : Makes 0 Tree.WellFormed (procExprStatement env n) := by
  apply skips_nextToken.makes
  intro token
  split
  · exact .pure trivial le_rfl
  · refine skips_tokenReplay.makes fun _ => makes_procAssignExpr.bind fun expr => ?_
    exact skips_matchToken.makes fun _ => .pure (fun hexpr => hexpr.wellFormed) (by omega)

theorem skips_procDeclarator {type : FinshType} : Skips (procDeclarator type) :=
  skips_procIdentifier.then fun _ => skips_insertVar.then fun _ => skips_pure _

def initialiserOk (s : FinshState) (value : Option (Tree × TokenType)) (s' : FinshState) : Prop :=
  match value with
  | none => s.nodes ≤ s'.nodes
  | some (tree, _) => tree.IsExpr ∧ s.nodes + tree.size ≤ s'.nodes

theorem ensures_procInitialiser {id : List Char} :
    Ensures NoError initialiserOk (procInitialiser env n id) := by
  refine bind makes_procAssignExpr fun value => ?_
  split
  · exact pure fun s₁ s hvalue => (Nat.le_add_right _ _).trans hvalue.2
  · refine bind makes_finshNodeNewId fun idnode =>
      bind makes_assignNode fun node => bind skips_nextToken fun token =>
        pure ?_
    intro s₄ s₃ hnext s₂ hnode s₁ hid s hvalue
    refine ⟨hnode.1 hid.1 hvalue.1, ?_⟩
    omega

theorem linkAssign_made {node last chain : Tree} (hlink : linkAssign node last tree = some chain) :
    (node.WellFormed → tree.WellFormed → chain.WellFormed) ∧
      chain.size ≤ node.size + tree.size := by
  unfold linkAssign at hlink
  split at hlink
  · obtain rfl := Option.some.inj hlink
    exact ⟨fun _ htree => htree, Nat.le_add_left _ _⟩
  · split at hlink
    · cases hlink
    · obtain rfl := Option.some.inj hlink
      exact ⟨fun hnode htree => hnode.append htree, (size_append _ _).le⟩

theorem makes_procDeclLoop {type : FinshType} (token : TokenType) (node last : Tree) :
    Makes node.size (fun tree => node.WellFormed → tree.WellFormed)
      (procDeclLoop env type n token node last) := by
  induction n generalizing token node last with
  | zero => exact .failure
  | succ n ih =>
    unfold procDeclLoop
    split
    · refine skips_procDeclarator.makes fun id => skips_nextToken.makes fun token => ?_
      split
      · refine bind ensures_procInitialiser fun value => ?_
        split
        · apply weaken (ih _ _ _)
          intro s₁ tree s' hmade s hle
          have hle' : s.nodes ≤ s₁.nodes := hle
          exact ⟨hmade.1, by omega⟩
        · split
          · rename_i chain hchain
            obtain ⟨hshape, hsize⟩ := linkAssign_made hchain
            apply weaken (ih _ _ _)
            intro s₁ tree s' hmade s hvalue
            obtain ⟨hexpr, hpaid⟩ := hvalue
            exact ⟨fun hnode => hmade.1 (hshape hnode hexpr.wellFormed), by omega⟩
          · exact failure
      · exact ih _ _ _
    · exact skips_checkToken.makes fun _ => .pure id le_rfl

theorem makes_procVariableDecl : Makes 0 Tree.WellFormed (procVariableDecl env n) := by
  refine skips_procType.makes fun type => skips_procDeclarator.makes fun id =>
    skips_nextToken.makes fun token => ?_
  split
  · exact (makes_procDeclLoop _ _ _).weaken (fun _ htree => htree trivial) le_rfl
  · refine bind ensures_procInitialiser fun value => ?_
    split
    · apply weaken (makes_procDeclLoop _ _ _)
      intro s₁ tree s' hmade s hle
      have hle' : s.nodes ≤ s₁.nodes := hle
      exact ⟨hmade.1 trivial, by simp only [size] at hmade; omega⟩
    · apply weaken (makes_procDeclLoop _ _ _)
      intro s₁ tree s' hmade s hvalue
      obtain ⟨hexpr, hpaid⟩ := hvalue
      exact ⟨hmade.1 hexpr.wellFormed, by omega⟩
  · exact .pure trivial le_rfl
  · exact makes_of_error (by simp) (Makes.pure trivial le_rfl : Makes 0 (fun _ => True) _)

theorem Roots.tree_link (roots : Roots) (tree : Tree) :
    (roots.link tree).tree = Roots.tree ⟨roots.front, tree⟩ := by
  cases tree with
  | nil => rfl
  | node info child sibling => simp [Roots.link, Roots.tree]

theorem Roots.wellFormed_replace {front : List (NodeInfo × Tree)} {old new : Tree}
    (hold : Tree.WellFormed (Roots.tree ⟨front, old⟩)) (hnew : new.WellFormed) :
    Tree.WellFormed (Roots.tree ⟨front, new⟩) := by
  induction front with
  | nil => exact hnew
  | cons node front ih => exact ⟨hold.1, hold.2.1, ih hold.2.2⟩

theorem Roots.size_replace {front : List (NodeInfo × Tree)} {old new : Tree} :
    (Roots.tree ⟨front, new⟩).size ≤ (Roots.tree ⟨front, old⟩).size + new.size := by
  induction front with
  | nil => exact Nat.le_add_left _ _
  | cons node front ih =>
    have hsize : (Roots.tree ⟨front, new⟩).size ≤ (Roots.tree ⟨front, old⟩).size + new.size := ih
    simp only [Roots.tree, List.foldr_cons, size] at hsize ⊢
    omega

theorem makes_procStatement {token : TokenType} :
    Makes 0 Tree.WellFormed (procStatement env n token) := by
  unfold procStatement
  split
  · exact makes_procVariableDecl
  · exact makes_procExprStatement

theorem skips_skipToken {token : TokenType} {node : Tree} {roots : Roots} :
    Skips (skipToken token node roots) := by
  unfold skipToken
  split
  · exact skips_nextToken.then fun _ => skips_pure _
  · exact skips_pure _

theorem ensures_parserLoop (token : TokenType) (roots : Roots) :
    Ensures NoError (fun s roots' s' => (roots.tree.WellFormed → roots'.tree.WellFormed) ∧
      s.nodes + roots'.tree.size ≤ s'.nodes + roots.tree.size) (parserLoop env n token roots) := by
  induction n generalizing token roots with
  | zero => exact .failure
  | succ n ih =>
    unfold parserLoop
    split
    · exact .pure fun s => ⟨id, le_rfl⟩
    · refine bind skips_tokenReplay fun _ => bind makes_procStatement fun node =>
        bind skips_skipToken fun _ => ?_
      have hsize : (roots.link node).tree.size ≤ roots.tree.size + node.size := by
        rw [Roots.tree_link]
        exact Roots.size_replace
      have hlinked : roots.tree.WellFormed → node.WellFormed →
          (roots.link node).tree.WellFormed := by
        rw [Roots.tree_link]
        exact Roots.wellFormed_replace
      split
      · apply Ensures.pure
        intro s₃ s₂ hskip s₁ hnode s hreplay
        exact ⟨fun hroots => hlinked hroots hnode.1, by lia⟩
      · refine bind skips_nextToken fun token => (ih token _).weaken ?_
        intro s₄ roots' s' hmade s₃ hnext s₂ hskip s₁ hnode s hreplay
        exact ⟨fun hroots => hmade.1 (hlinked hroots hnode.1), by lia⟩

theorem makes_finshParserRun {line : List Char} :
    Makes 0 Tree.WellFormed (finshParserRun env n line) := by
  refine skips_parserInit.makes fun _ => skips_nextToken.makes fun token => ?_
  refine bind (ensures_parserLoop token _) fun roots => pure ?_
  intro s₁ s hroots
  exact ⟨hroots.1 trivial, hroots.2⟩

end Statements

end RtThread.Finsh
