import ExpLang.Syntax.Ast

/-!
# What is in scope in the source

Lexical scoping is a matter of the source alone. A `View` is what is in scope at a place in the body of a
function: the declarators of the scopes around it, up to that place. `Stmt.occurrences` lists the names
that a statement uses, each with the view at its place. Functions and classes inside of a statement have
bodies of their own, so that neither their names nor their variables belong to the statement.
-/

namespace ExpLang.Syntax

/-- A declarator of a variable, and how many declarators of the same function stand before it. -/
structure Declarator where
  ident : Ident
  index : Nat
  deriving DecidableEq, Repr

/-- The declarators that are in scope at a place: those of each scope around, the innermost scope and the
latest declarator first. -/
structure View where
  scopes : List (List Declarator)
  deriving DecidableEq, Repr

namespace View

/-- The view at the start of a body. -/
def start : View := ⟨[[]]⟩

/-- The view in a scope inside of another one. -/
def inner (v : View) : View := ⟨[] :: v.scopes⟩

/-- The view after a declarator. -/
def add (v : View) (d : Declarator) : View := ⟨(d :: v.scopes.headD []) :: v.scopes.tail⟩

/-- The view after declarators one after the other, of which `n` is the index of the first. -/
def declare (v : View) (n : Nat) : List Ident → View
  | [] => v
  | id :: rest => (v.add ⟨id, n⟩).declare (n + 1) rest

/-- The latest declarator of a name in the innermost scope that has one. -/
def find? (v : View) (name : String) : Option Declarator :=
  v.scopes.findSome? fun scope => scope.find? (·.ident.name == name)

end View

/-- A name that is used, and what is in scope at its place. -/
structure Occurrence where
  ident : Ident
  view : View
  deriving DecidableEq, Repr

/-! ## Names -/

mutual

/-- The names that an expression at a place uses, from left to right. Names of members are not among
them. -/
def Expr.occurrences (v : View) : Expr → List Occurrence
  | .ident name => [⟨name, v⟩]
  | .int _ _ | .float _ _ | .bool _ _ => []
  | .unary _ operand _ | .post _ operand _ => operand.occurrences v
  | .binary _ left right _ => left.occurrences v ++ right.occurrences v
  | .field target _ _ => target.occurrences v
  | .index target key _ => target.occurrences v ++ key.occurrences v
  | .call callee args _ => callee.occurrences v ++ exprOccurrences v args

/-- The names that expressions at a place use. -/
def exprOccurrences (v : View) : List Expr → List Occurrence
  | [] => []
  | e :: rest => e.occurrences v ++ exprOccurrences v rest

end

mutual

/-- The variables that a statement declares, those of loops and inner scopes too. -/
def Stmt.declarators : Stmt → List Ident
  | .vars decl => decl.decls.map (·.name)
  | .block body _ => declaratorsAll body
  | .ifElse _ thenBranch none _ => thenBranch.declarators
  | .ifElse _ thenBranch (some elseBranch) _ => thenBranch.declarators ++ elseBranch.declarators
  | .forIn name _ body _ => name :: body.declarators
  | .whileLoop _ body _ => body.declarators
  | .empty _ | .expr _ _ | .ret _ _ | .function _ | .classDecl _ => []

/-- The variables that statements declare. -/
def declaratorsAll : List Stmt → List Ident
  | [] => []
  | stmt :: rest => stmt.declarators ++ declaratorsAll rest

end

/-- The view after a statement. What it declares in inner scopes is not in scope after it. -/
def Stmt.after (v : View) (n : Nat) : Stmt → View
  | .vars decl => v.declare n (decl.decls.map (·.name))
  | _ => v

/-- The names that a declaration uses. A first value sees the declarators before its own. -/
def initOccurrences (v : View) (n : Nat) : List VarDecl → List Occurrence
  | [] => []
  | decl :: rest =>
    decl.init.elim [] (·.occurrences v) ++ initOccurrences (v.add ⟨decl.name, n⟩) (n + 1) rest

mutual

/-- The names that a statement uses, where `n` declarators of the same function stand before it. -/
def Stmt.occurrences : View → Nat → Stmt → List Occurrence
  | v, _, .expr e _ | v, _, .ret (some e) _ => e.occurrences v
  | v, n, .vars decl => initOccurrences v n decl.decls
  | v, n, .block body _ => occurrencesAll v.inner n body
  | v, n, .ifElse cond thenBranch none _ => cond.occurrences v ++ thenBranch.occurrences v.inner n
  | v, n, .ifElse cond thenBranch (some elseBranch) _ =>
    cond.occurrences v ++ thenBranch.occurrences v.inner n ++
      elseBranch.occurrences v.inner (n + thenBranch.declarators.length)
  | v, n, .forIn name iterable body _ =>
    iterable.occurrences v ++ body.occurrences (v.inner.add ⟨name, n⟩) (n + 1)
  | v, n, .whileLoop cond body _ => cond.occurrences v ++ body.occurrences v.inner n
  | _, _, .empty _ | _, _, .ret none _ | _, _, .function _ | _, _, .classDecl _ => []

/-- The names that statements use one after the other. -/
def occurrencesAll : View → Nat → List Stmt → List Occurrence
  | _, _, [] => []
  | v, n, stmt :: rest =>
    stmt.occurrences v n ++ occurrencesAll (stmt.after v n) (n + stmt.declarators.length) rest

end

/-! ## Functions -/

mutual

/-- The functions in a statement, at any depth. -/
def Stmt.functions : Stmt → List (FunctionDecl Stmt)
  | .block body _ => functionsAll body
  | .ifElse _ thenBranch none _ => thenBranch.functions
  | .ifElse _ thenBranch (some elseBranch) _ => thenBranch.functions ++ elseBranch.functions
  | .forIn _ _ body _ => body.functions
  | .whileLoop _ body _ => body.functions
  | .function ⟨name, params, ret, .stmt body, span⟩ =>
    ⟨name, params, ret, .stmt body, span⟩ :: body.functions
  | .function ⟨name, params, ret, .expr e, span⟩ => [⟨name, params, ret, .expr e, span⟩]
  | .classDecl ⟨_, members, _⟩ => memberFunctions members
  | .empty _ | .expr _ _ | .ret _ _ | .vars _ => []

/-- The functions in statements. -/
def functionsAll : List Stmt → List (FunctionDecl Stmt)
  | [] => []
  | stmt :: rest => stmt.functions ++ functionsAll rest

/-- The functions in the members of a class. -/
def memberFunctions : List (MemberDecl Stmt) → List (FunctionDecl Stmt)
  | [] => []
  | ⟨_, .method ⟨name, params, ret, .stmt body, span⟩, _⟩ :: rest =>
    ⟨name, params, ret, .stmt body, span⟩ :: (body.functions ++ memberFunctions rest)
  | ⟨_, .method ⟨name, params, ret, .expr e, span⟩, _⟩ :: rest =>
    ⟨name, params, ret, .expr e, span⟩ :: memberFunctions rest
  | ⟨_, .fields _, _⟩ :: rest => memberFunctions rest

end

mutual

/-- The functions inside of a function in a statement are in the statement too. -/
theorem functions_subset {decl : FunctionDecl Stmt} {body : Stmt} (hbody : decl.body = .stmt body) :
    ∀ stmt : Stmt, decl ∈ stmt.functions → body.functions ⊆ stmt.functions
  | .block stmts _, h => by
    rw [Stmt.functions] at h ⊢
    exact functionsAll_subset hbody stmts h
  | .ifElse _ thenBranch none _, h => by
    rw [Stmt.functions] at h ⊢
    exact functions_subset hbody thenBranch h
  | .ifElse _ thenBranch (some elseBranch) _, h => by
    rw [Stmt.functions] at h ⊢
    rcases List.mem_append.1 h with h | h
    · exact List.subset_append_of_subset_left _ (functions_subset hbody thenBranch h)
    · exact List.subset_append_of_subset_right _ (functions_subset hbody elseBranch h)
  | .forIn _ _ inner _, h | .whileLoop _ inner _, h => by
    rw [Stmt.functions] at h ⊢
    exact functions_subset hbody inner h
  | .function ⟨_, _, _, .stmt inner, _⟩, h => by
    rw [Stmt.functions] at h ⊢
    rcases List.mem_cons.1 h with rfl | h
    · cases hbody
      exact List.subset_cons_self _ _
    · exact List.subset_cons_of_subset _ (functions_subset hbody inner h)
  | .function ⟨_, _, _, .expr _, _⟩, h => by
    rw [Stmt.functions] at h
    obtain rfl := List.mem_singleton.1 h
    cases hbody
  | .classDecl ⟨_, members, _⟩, h => by
    rw [Stmt.functions] at h ⊢
    exact memberFunctions_subset hbody members h
  | .empty _, h | .expr _ _, h | .ret _ _, h | .vars _, h => by
    rw [Stmt.functions] at h
    cases h

/-- The same of statements one after the other. -/
theorem functionsAll_subset {decl : FunctionDecl Stmt} {body : Stmt} (hbody : decl.body = .stmt body) :
    ∀ stmts : List Stmt, decl ∈ functionsAll stmts → body.functions ⊆ functionsAll stmts
  | [], h => by
    rw [functionsAll] at h
    cases h
  | stmt :: rest, h => by
    rw [functionsAll] at h ⊢
    rcases List.mem_append.1 h with h | h
    · exact List.subset_append_of_subset_left _ (functions_subset hbody stmt h)
    · exact List.subset_append_of_subset_right _ (functionsAll_subset hbody rest h)

/-- The same of the members of a class. -/
theorem memberFunctions_subset {decl : FunctionDecl Stmt} {body : Stmt}
    (hbody : decl.body = .stmt body) : ∀ members : List (MemberDecl Stmt),
      decl ∈ memberFunctions members → body.functions ⊆ memberFunctions members
  | [], h => by
    rw [memberFunctions] at h
    cases h
  | ⟨_, .method ⟨_, _, _, .stmt inner, _⟩, _⟩ :: rest, h => by
    rw [memberFunctions] at h ⊢
    rcases List.mem_cons.1 h with rfl | h
    · cases hbody
      exact List.subset_cons_of_subset _ (List.subset_append_left _ _)
    · refine List.subset_cons_of_subset _ ?_
      rcases List.mem_append.1 h with h | h
      · exact List.subset_append_of_subset_left _ (functions_subset hbody inner h)
      · exact List.subset_append_of_subset_right _ (memberFunctions_subset hbody rest h)
  | ⟨_, .method ⟨_, _, _, .expr _, _⟩, _⟩ :: rest, h => by
    rw [memberFunctions] at h ⊢
    rcases List.mem_cons.1 h with rfl | h
    · cases hbody
    · exact List.subset_cons_of_subset _ (memberFunctions_subset hbody rest h)
  | ⟨_, .fields _, _⟩ :: rest, h => by
    rw [memberFunctions] at h ⊢
    exact memberFunctions_subset hbody rest h

end

/-- A function statement is one of its own functions. -/
theorem mem_functions (decl : FunctionDecl Stmt) : decl ∈ (Stmt.function decl).functions := by
  obtain ⟨name, params, ret, body, span⟩ := decl
  cases body <;> simp [Stmt.functions]

/-- A method of a class is one of the functions of its members. -/
theorem mem_memberFunctions {members : List (MemberDecl Stmt)} {member : MemberDecl Stmt}
    {decl : FunctionDecl Stmt} (hmember : member ∈ members) (hkind : member.kind = .method decl) :
    decl ∈ memberFunctions members := by
  induction members with
  | nil => cases hmember
  | cons first rest ih =>
    obtain ⟨isStatic, kind, span⟩ := first
    rcases List.mem_cons.1 hmember with rfl | hmember
    · cases hkind
      obtain ⟨name, params, ret, body, span⟩ := decl
      cases body <;> simp [memberFunctions]
    · have hrest := ih hmember
      cases kind with
      | fields vars => simpa [memberFunctions] using hrest
      | method function =>
        obtain ⟨name, params, ret, body, span⟩ := function
        cases body <;> simp [memberFunctions, hrest]

/-- The code of a method: one expression, or statements one after the other. -/
inductive MethodCode where
  | expr (e : Expr)
  | stmts (body : List Stmt)

/-- The code of a function. -/
def FunctionBody.code : FunctionBody Stmt → MethodCode
  | .expr e => .expr e
  | .stmt body => .stmts [body]

/-- The variables that code declares. -/
def MethodCode.declarators : MethodCode → List Ident
  | .expr _ => []
  | .stmts body => declaratorsAll body

/-- The names that code uses. -/
def MethodCode.occurrences : MethodCode → List Occurrence
  | .expr e => e.occurrences .start
  | .stmts body => occurrencesAll .start 0 body

end ExpLang.Syntax
