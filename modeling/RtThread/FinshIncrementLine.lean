import RtThread.FinshIncrement
import RtThread.FinshScan

/-!
# The lines of increments

A line of an operator and a name is parsed to the statement of the increment.  A function
of the parser is followed along the tokens that it is going to read, from the line or
because they were given back.
-/

namespace RtThread.Finsh

open List

variable {self : FinshToken} {name rest : List Char} {ch : Char} {type : TokenType}
  {types types' : List TokenType} {s : FinshState} {tree tree' : Tree} {k j n : ℕ}
  {env : FinshEnv} {symbol : Symbol} {expr assign : FinshM Tree}

/-! ## The tokens of a line -/

theorem tokenTrimSpace_of_remaining (hrem : self.remaining = ch :: rest)
    (hblank : isBlank ch = false) : tokenTrimSpace self = self := by
  rw [tokenTrimSpace_eq, hrem, takeWhile_cons_of_neg (by simp [hblank])]
  exact peeked_of_remaining hrem

/-- A name that the tokenizer takes for an identifier. -/
structure IsIdentifier (name : List Char) : Prop where
  chars : ∀ c ∈ name, isSeparator c = false
  first : ∃ c rest, name = c :: rest ∧ c.isDigit = false
  short : name.length < FINSH_STRING_MAX
  free : tokenMatchName name = none

theorem isBlank_of_not_separator (hch : isSeparator ch = false) : isBlank ch = false := by
  cases hblank : isBlank ch with
  | false => rfl
  | true =>
    simp only [isBlank, Bool.or_eq_true, beq_iff_eq] at hblank
    rcases hblank with (rfl | rfl) | rfl <;> cases hch

theorem tokenRun_identifier (hname : IsIdentifier name)
    (hrem : self.remaining = name ++ ch :: rest) (hch : isSeparator ch = true) :
    ∃ next, tokenRun self = some (next, .ok) ∧ next.remaining = ch :: rest ∧
      next.replay = self.replay ∧ next.currentToken = .identifier ∧ cString next.string = name := by
  obtain ⟨first, behind, hcons, hdigit⟩ := hname.first
  have hfirst : self.remaining = first :: (behind ++ ch :: rest) := by rw [hrem, hcons]; rfl
  have hstart : isSeparator first = false := hname.chars first (hcons ▸ .head _)
  have heof := eof_of_remaining hfirst
  have hopen : ¬(self.advance 1).eof = true := by simp [FinshToken.advance, heof]
  have hrest : (self.advance name.length).remaining = ch :: rest := remaining_advance hrem
  have htake : self.remaining.takeWhile (fun ch => !isSeparator ch) = name := by
    rw [hrem]
    refine takeWhile_append (fun c hc => ?_) fun c hc => ?_
    · simp [hname.chars c hc]
    · cases hc
      simp [hch]
  have hscan := @scanWhile_tokenNextChar self (fun ch => !isSeparator ch) (by decide)
  rw [htake, tokenNextChar_of_remaining hrest, tokenNextChar_of_remaining hfirst] at hscan
  have hback : tokenPrevChar { (self.advance name.length).advance 1 with eof := false } =
      self.advance name.length := by
    have hsame : { (self.advance name.length).advance 1 with eof := false } =
        (self.advance name.length).advance 1 := by
      rw [← heof]
      rfl
    rw [hsame, tokenPrevChar_advance_one hrest]
  have hstring : tokenGetString self = some { self.advance name.length with
      string := writeBuffer (name ++ ['\x00']) self.string } := by
    unfold tokenGetString
    rw [tokenNextChar_of_remaining hfirst]
    dsimp only
    rw [if_neg hopen, if_neg (by simp [hdigit]), hscan]
    dsimp only
    rw [if_pos hname.short, hback]
  have hnul : cString (writeBuffer (name ++ ['\x00']) self.string) = name := by
    rw [cString, writeBuffer, append_assoc]
    refine takeWhile_append (fun c hc => ?_) fun c hc => ?_
    · have hc' := hname.chars c hc
      simp only [ne_eq, decide_not, Bool.not_eq_eq_eq_not, Bool.not_true, decide_eq_false_iff_not]
      rintro rfl
      cases hc'
    · cases hc
      rfl
  refine ⟨{ self.advance name.length with
    string := writeBuffer (name ++ ['\x00']) self.string, currentToken := .identifier },
    ?_, hrest, rfl, rfl, hnul⟩
  rw [tokenRun, tokenTrimSpace_of_remaining hfirst (isBlank_of_not_separator hstart), hstring]
  simp only [Option.bind_eq_bind, Option.bind_some, hnul, hname.free]
  rw [if_neg (by simp [FinshToken.advance, heof]), if_pos (by simp [hcons])]

theorem tokenRun_operator (hrem : self.remaining = ch :: rest) (hblank : isBlank ch = false)
    (hch : isSeparator ch = true) : tokenRun self = tokenOperator self.unnamed := by
  have hrun := (tokenRun_separator (show self.remaining = [] ++ ch :: rest from hrem) nofun hblank hch).2
  rwa [tokenTrimSpace_of_remaining hrem hblank] at hrun

theorem tokenDouble_same (double single : TokenType) (hrem : self.remaining = ch :: rest) :
    tokenDouble ch double single self = { self.advance 1 with currentToken := double } := by
  rw [tokenDouble, tokenNextChar_of_remaining hrem]
  exact if_pos rfl

theorem tokenRun_semicolon (hrem : self.remaining = ';' :: rest) :
    ∃ next, tokenRun self = some (next, .ok) ∧ next.remaining = rest ∧
      next.replay = self.replay ∧ next.currentToken = .semicolon := by
  have hunnamed : self.unnamed.remaining = ';' :: rest := hrem
  rw [tokenRun_operator hrem rfl rfl, tokenOperator, tokenNextChar_of_remaining hunnamed]
  exact ⟨_, rfl, remaining_advance_one hunnamed, rfl, rfl⟩

theorem tokenRun_end (hrem : self.remaining = []) :
    ∃ next, tokenRun self = some (next, .ok) ∧ next.replay = self.replay ∧
      next.currentToken = .eof := by
  have htrim : tokenTrimSpace self = self.atEnd := by
    rw [tokenTrimSpace_eq, hrem, FinshToken.peeked]
    exact if_pos hrem
  have hstring : tokenGetString self.atEnd = some self.atEnd := by
    have hnext : tokenNextChar self.atEnd = ('\x00', self.atEnd) := by simp [tokenNextChar]
    simp [tokenGetString, hnext]
  refine ⟨{ self.atEnd with currentToken := .eof }, ?_, ?_, rfl⟩
  · simp [tokenRun, htrim, hstring]
  · unfold FinshToken.atEnd
    split_ifs <;> rfl

def IncrementOp.sign : IncrementOp → Char
  | .preinc | .inc => '+'
  | .predec | .dec => '-'

/-- The operator with the name, in the order the source has them. -/
def IncrementOp.line (op : IncrementOp) (name : List Char) : List Char :=
  if op.inFront then op.sign :: op.sign :: (name ++ [';'])
  else name ++ op.sign :: op.sign :: [';']

def IncrementOp.token : IncrementOp → TokenType
  | .preinc | .inc => .inc
  | .predec | .dec => .dec

def IncrementOp.tokens (op : IncrementOp) : List TokenType :=
  if op.inFront then [op.token, .identifier, .semicolon, .eof]
  else [.identifier, op.token, .semicolon, .eof]

/-- These tokens are read next, an identifier among them being `name`. -/
inductive Reads (name : List Char) : List TokenType → FinshToken → Prop
  | nil (self : FinshToken) : Reads name [] self
  | run {self next : FinshToken} {types : List TokenType}
      (hrun : tokenRun self = some (next, .ok)) (hself : self.replay = false)
      (hnext : next.replay = false)
      (hname : next.currentToken = .identifier → cString next.string = name)
      (hrest : Reads name types next) : Reads name (next.currentToken :: types) self
  | again {self : FinshToken} {types : List TokenType} (hself : self.replay = false)
      (hname : self.currentToken = .identifier → cString self.string = name)
      (hrest : Reads name types self) :
      Reads name (self.currentToken :: types) { self with replay := true }

theorem reads_end (hrem : self.remaining = []) (hself : self.replay = false) :
    Reads name [.eof] self := by
  obtain ⟨next, hrun, hreplay, htype⟩ := tokenRun_end hrem
  rw [← htype]
  exact .run hrun hself (hreplay.trans hself) (by simp [htype]) (.nil _)

theorem reads_semicolon (hrem : self.remaining = [';']) (hself : self.replay = false) :
    Reads name [.semicolon, .eof] self := by
  obtain ⟨next, hrun, hrest, hreplay, htype⟩ := tokenRun_semicolon hrem
  rw [← htype]
  exact .run hrun hself (hreplay.trans hself) (by simp [htype])
    (reads_end hrest (hreplay.trans hself))

theorem reads_name {ch : Char} {rest : List Char} (hname : IsIdentifier name)
    (hrem : self.remaining = name ++ ch :: rest) (hch : isSeparator ch = true)
    (hself : self.replay = false)
    (hrest : ∀ next : FinshToken, next.remaining = ch :: rest → next.replay = false →
      Reads name types next) : Reads name (.identifier :: types) self := by
  obtain ⟨next, hrun, hnext, hreplay, htype, hstring⟩ := tokenRun_identifier hname hrem hch
  rw [← htype]
  exact .run hrun hself (hreplay.trans hself) (fun _ => hstring)
    (hrest next hnext (hreplay.trans hself))

theorem reads_operator {rest : List Char} (op : IncrementOp)
    (hrem : self.remaining = op.sign :: op.sign :: rest) (hself : self.replay = false)
    (hrest : ∀ next : FinshToken, next.remaining = rest → next.replay = false →
      Reads name types next) : Reads name (op.token :: types) self := by
  obtain ⟨next, hrun, hnext, hreplay, htype⟩ : ∃ next, tokenRun self = some (next, .ok) ∧
      next.remaining = rest ∧ next.replay = self.replay ∧ next.currentToken = op.token := by
    have hfirst : self.unnamed.remaining = op.sign :: op.sign :: rest := hrem
    have hsecond := remaining_advance_one hfirst
    refine ⟨{ (self.unnamed.advance 1).advance 1 with currentToken := op.token }, ?_,
      remaining_advance_one hsecond, rfl, rfl⟩
    rw [tokenRun_operator hrem (by cases op <;> rfl) (by cases op <;> rfl), tokenOperator,
      tokenNextChar_of_remaining hfirst]
    cases op <;>
      exact congrArg (fun token => some (token, FinshError.ok)) (tokenDouble_same _ _ hsecond)
  rw [← htype]
  refine .run hrun hself (hreplay.trans hself) ?_ (hrest next hnext (hreplay.trans hself))
  rw [htype]
  cases op <;> exact nofun

theorem reads_line (op : IncrementOp) (hname : IsIdentifier name) :
    Reads name op.tokens (finshTokenInit (op.line name)) := by
  have hchars : ∀ c ∈ name, c ≠ '\n' := by
    rintro c hc rfl
    cases hname.chars _ hc
  have hrem : (finshTokenInit (op.line name)).remaining = op.line name := by
    have htake := @takeWhile_append (op.line name) [] (fun c => decide (c ≠ '\n')) (by
      cases op <;> simp [IncrementOp.line, IncrementOp.inFront, IncrementOp.sign] <;> grind) nofun
    rwa [append_nil] at htake
  have hfront : ∀ next : FinshToken, next.remaining = name ++ [';'] →
      next.replay = false → Reads name [.identifier, .semicolon, .eof] next :=
    fun _ hnext hreplay => reads_name hname hnext rfl hreplay fun _ => reads_semicolon
  cases op with
  | preinc => exact reads_operator .preinc hrem rfl hfront
  | predec => exact reads_operator .predec hrem rfl hfront
  | inc =>
    exact reads_name hname hrem rfl rfl fun _ hnext hreplay =>
      reads_operator .inc hnext hreplay fun _ => reads_semicolon
  | dec =>
    exact reads_name hname hrem rfl rfl fun _ hnext hreplay =>
      reads_operator .dec hnext hreplay fun _ => reads_semicolon

/-! ## The functions of the parser -/

theorem Reads.next (h : Reads name (type :: types) s.token) :
    ∃ self, nextToken s = some (type, { s with token := self }) ∧ Reads name types self ∧
      Reads name (type :: types) { self with replay := true } ∧
      (type = .identifier → cString self.string = name) := by
  generalize htoken : s.token = token at h
  cases h with
  | @run _ next _ hrun hself hnext hname hrest =>
    refine ⟨next, ?_, hrest, .again hnext hname hrest, hname⟩
    rw [nextToken, htoken, hself, hrun]
    rfl
  | @again self _ hself hname hrest =>
    refine ⟨self, ?_, hrest, .again hself hname hrest, hname⟩
    rw [nextToken, htoken, if_pos rfl, ← hself]

theorem run_bind {α β : Type} {m : FinshM α} {a : α} {s' : FinshState} (f : α → FinshM β)
    (hrun : m s = some (a, s')) : (m >>= f) s = f a s' :=
  congrArg (Option.bind · _) hrun

theorem Reads.matchToken (h : Reads name (type :: types) s.token) :
    ∃ self, matchToken type s = some ((), { s with token := self }) ∧ Reads name types self ∧
      (type = .identifier → cString self.string = name) := by
  obtain ⟨self, hnext, hrest, -, hname⟩ := h.next
  refine ⟨self, (run_bind _ hnext).trans ?_, hrest, hname⟩
  rw [checkToken, if_pos rfl]
  rfl

/-- The computation reads tokens up to `types` and makes `tree` with `k` new nodes. -/
def Yields (name : List Char) (types : List TokenType) (k : ℕ) (tree : Tree) (m : FinshM Tree)
    (s : FinshState) : Prop :=
  ∃ self, Reads name types self ∧ m s = some (tree, { s with token := self, nodes := s.nodes + k })

/-- The symbol that `finsh_node_new_id` finds. -/
def FinshEnv.symbolOf (env : FinshEnv) (vars : FinshVars) (id : List Char) : Option Symbol :=
  match finshVarLookup vars id with
  | some i => some (.var i)
  | none =>
    if id.length < FINSH_NAME_MAX then
      ((env.sysvarLookup id).map .sysvar).or ((env.syscallLookup id).map .syscall)
    else none

theorem finshNodeNewId_eq {env : FinshEnv} {id : List Char} {symbol : Symbol}
    (hsymbol : env.symbolOf s.vars id = some symbol) :
    finshNodeNewId env id s = finshNodeNewSymbol symbol s := by
  unfold FinshEnv.symbolOf at hsymbol
  unfold finshNodeNewId
  split at hsymbol <;> grind

def idNode (symbol : Symbol) : Tree := .node { nodeType := .id, id := some symbol } .nil .nil

namespace Yields

theorem pure (h : Reads name types s.token) : Yields name types 0 tree (pure tree) s :=
  ⟨s.token, h, rfl⟩

theorem bind {m : FinshM Tree} {f : Tree → FinshM Tree} (hm : Yields name types k tree m s)
    (hf : ∀ self, Reads name types self →
      Yields name types' j tree' (f tree) { s with token := self, nodes := s.nodes + k }) :
    Yields name types' (k + j) tree' (m >>= f) s := by
  obtain ⟨self, hself, hrun⟩ := hm
  obtain ⟨next, hnext, hthen⟩ := hf self hself
  refine ⟨next, hnext, ?_⟩
  rw [← Nat.add_assoc]
  exact (run_bind f hrun).trans hthen

/-- The next token is taken. -/
theorem read {f : TokenType → FinshM Tree} (h : Reads name (type :: types) s.token)
    (hf : ∀ self, Reads name types self → (type = .identifier → cString self.string = name) →
      Yields name types' k tree (f type) { s with token := self }) :
    Yields name types' k tree (nextToken >>= f) s := by
  obtain ⟨self, hnext, hrest, -, hname⟩ := h.next
  obtain ⟨last, hlast, hthen⟩ := hf self hrest hname
  exact ⟨last, hlast, (run_bind f hnext).trans hthen⟩

/-- The next token is looked at and given back. -/
theorem peek {f : TokenType → FinshM Tree} {m : FinshM Tree}
    (h : Reads name (type :: types) s.token) (hf : f type = tokenReplay >>= fun _ => m)
    (hm : ∀ self, Reads name (type :: types) self →
      Yields name types' k tree m { s with token := self }) :
    Yields name types' k tree (nextToken >>= f) s := by
  obtain ⟨self, hnext, -, hagain, -⟩ := h.next
  obtain ⟨last, hlast, hthen⟩ := hm _ hagain
  refine ⟨last, hlast, (run_bind f hnext).trans ?_⟩
  rw [hf]
  exact hthen

theorem makeSysNode {info : NodeInfo} {child sibling : Tree} (type : NodeType)
    (h : Reads name types s.token) (hroom : s.nodes < FINSH_NODE_MAX) :
    Yields name types 1 (.node { nodeType := type } (.node info child .nil) .nil)
      (makeSysNode type (.node info child sibling) .nil) s :=
  ⟨s.token, h, if_pos hroom⟩

theorem binaryExpr {ops : TokenType → Option BinOp} {operand : FinshM Tree}
    (h : Yields name (type :: types) k tree operand s) (hops : ops type = none) :
    Yields name (type :: types) k tree (procBinaryExpr ops (n + 1) operand) s := by
  refine h.bind (j := 0) fun self hself => ?_
  rw [procBinaryLoop]
  exact peek hself (by rw [hops]) fun self hself => pure hself

/-- No operator follows before the semicolon. -/
theorem inclusiveOrExpr {cast : FinshM Tree}
    (h : Yields name (.semicolon :: types) k tree cast s) :
    Yields name (.semicolon :: types) k tree (procInclusiveOrExpr (n + 1) cast) s :=
  (((((h.binaryExpr rfl).binaryExpr rfl).binaryExpr rfl).binaryExpr rfl).binaryExpr rfl).binaryExpr
    rfl

theorem postfixStop (h : Reads name (.semicolon :: types) s.token) :
    Yields name (.semicolon :: types) 0 tree (procPostfixLoop assign (n + 1) tree) s := by
  rw [procPostfixLoop]
  exact peek h rfl fun self hself => pure hself

variable (hsymbol : env.symbolOf s.vars (name.take FINSH_NAME_MAX) = some symbol)
include hsymbol

theorem primaryExpr (hroom : s.nodes < FINSH_NODE_MAX)
    (h : Reads name (.identifier :: types) s.token) :
    Yields name types 1 (idNode symbol) (procPrimaryExpr env expr) s := by
  refine peek h rfl fun self hself => ?_
  obtain ⟨next, hmatch, hrest, hname⟩ := Reads.matchToken (s := { s with token := self }) hself
  have hid : procIdentifier { s with token := self } =
      some (name.take FINSH_NAME_MAX, { s with token := next }) := by
    have hstring : procIdentifier { s with token := self } =
        some ((cString next.string).take FINSH_NAME_MAX, { s with token := next }) :=
      run_bind _ hmatch
    rw [hstring, hname rfl]
  have hnode : finshNodeNewId env (name.take FINSH_NAME_MAX) { s with token := next } =
      some (idNode symbol, { s with token := next, nodes := s.nodes + 1 }) :=
    (finshNodeNewId_eq (s := { s with token := next }) hsymbol).trans (if_pos hroom)
  exact ⟨next, hrest, (run_bind _ hid).trans hnode⟩

/-- A name is an operand. -/
theorem castExpr_name (hroom : s.nodes < FINSH_NODE_MAX)
    (h : Reads name (.identifier :: .semicolon :: types) s.token) :
    Yields name (.semicolon :: types) 1 (idNode symbol) (procCastExpr env assign (n + 2)) s := by
  rw [procCastExpr]
  refine peek h rfl fun self hself => ?_
  refine peek hself rfl fun self hself => ?_
  exact (primaryExpr (s := { s with token := self }) hsymbol hroom hself).bind (j := 0)
    fun self hself => postfixStop hself

theorem castExpr (op : IncrementOp) (hroom : s.nodes + 1 < FINSH_NODE_MAX)
    (h : Reads name op.tokens s.token) :
    Yields name [.semicolon, .eof] 2 (op.statement symbol) (procCastExpr env assign (n + 3)) s := by
  rw [procCastExpr]
  cases op with
  | preinc | predec =>
    refine peek h rfl fun self hself => ?_
    refine read hself fun self hself _ => ?_
    exact (castExpr_name (s := { s with token := self }) hsymbol (Nat.lt_of_succ_lt hroom)
      hself).bind (j := 1) fun self hself => makeSysNode _ hself hroom
  | inc | dec =>
    refine peek h rfl fun self hself => ?_
    refine peek hself rfl fun self hself => ?_
    refine (primaryExpr (s := { s with token := self }) hsymbol (Nat.lt_of_succ_lt hroom)
      hself).bind (j := 1) fun self hself => ?_
    rw [procPostfixLoop]
    refine read hself fun self hself _ => ?_
    exact (makeSysNode _ hself hroom).bind (j := 0) fun self hself => postfixStop hself

theorem exprStatement (op : IncrementOp) (hroom : s.nodes + 1 < FINSH_NODE_MAX)
    (h : Reads name op.tokens s.token) :
    Yields name [.eof] 2 (op.statement symbol) (procExprStatement env (n + 4)) s := by
  have hassign : ∀ self, Reads name op.tokens self →
      Yields name [.semicolon, .eof] 2 (op.statement symbol) (procAssignExpr env (n + 4))
        { s with token := self } := by
    intro self hself
    rw [procAssignExpr]
    refine (castExpr (s := { s with token := self }) hsymbol op hroom hself).inclusiveOrExpr.bind
      (j := 0) fun self hself => ?_
    exact peek hself rfl fun self hself => pure hself
  have hmatch : ∀ self, Reads name op.tokens self →
      Yields name [.eof] 2 (op.statement symbol)
        (procAssignExpr env (n + 4) >>= fun expr => matchToken .semicolon >>= fun _ => Pure.pure expr)
        { s with token := self } := by
    intro self hself
    refine (hassign self hself).bind (j := 0) fun self hself => ?_
    obtain ⟨next, hmatch, hrest, -⟩ := Reads.matchToken
      (s := { s with token := self, nodes := s.nodes + 2 }) hself
    exact ⟨next, hrest, run_bind _ hmatch⟩
  cases op <;> exact peek h rfl fun self hself => hmatch self hself

end Yields

/-- The four lines of a name are parsed to their statements. -/
theorem finshParserRun_line (op : IncrementOp) (hname : IsIdentifier name)
    (hsymbol : env.symbolOf s.vars (name.take FINSH_NAME_MAX) = some symbol)
    (hroom : s.nodes + 1 < FINSH_NODE_MAX) :
    ∃ self, finshParserRun env (n + 5) (op.line name) s =
      some (op.statement symbol, { s with token := self, nodes := s.nodes + 2 }) := by
  have hline := reads_line op hname
  obtain ⟨type, types, htokens, hstop, hdecl⟩ : ∃ type types, op.tokens = type :: types ∧
      ¬(type = .eof ∨ type = .bad) ∧ ¬startsDecl type = true := by
    cases op <;> exact ⟨_, _, rfl, by decide, by decide⟩
  rw [htokens] at hline
  obtain ⟨first, hfirst, -, hagain, -⟩ :=
    Reads.next (s := { s with token := finshTokenInit (op.line name) }) hline
  rw [← htokens] at hagain
  have hstatement : Yields name [.eof] 2 (op.statement symbol) (procExprStatement env (n + 4)) _ :=
    Yields.exprStatement (s := { s with token := { first with replay := true } }) hsymbol op hroom
      hagain
  obtain ⟨self, hself, hrun⟩ := hstatement
  obtain ⟨last, hlast, -⟩ := Reads.next (s := { s with token := self, nodes := s.nodes + 2 }) hself
  refine ⟨last, ?_⟩
  have hloop : parserLoop env (n + 5) type ⟨[], .nil⟩ { s with token := first } =
      some ((⟨[], .nil⟩ : Roots).link (op.statement symbol),
        { s with token := last, nodes := s.nodes + 2 }) := by
    have hskip : ∀ s, skipToken type (op.statement symbol) ⟨[], .nil⟩ s = some ((), s) := by
      intro s
      rw [skipToken, if_neg fun h => nomatch h.1]
      rfl
    have hreplay : tokenReplay { s with token := first } =
        some ((), { s with token := { first with replay := true } }) := rfl
    rw [parserLoop, if_neg hstop, run_bind _ hreplay, procStatement, if_neg hdecl,
      run_bind _ hrun, run_bind _ (hskip _), if_neg (by exact nofun), run_bind _ hlast]
    rfl
  have hinit : parserInit (op.line name) s =
      some ((), { s with token := finshTokenInit (op.line name) }) := rfl
  rw [finshParserRun, run_bind _ hinit, run_bind _ hfirst, run_bind _ hloop]
  rfl

end RtThread.Finsh
