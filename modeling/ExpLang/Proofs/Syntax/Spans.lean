import ExpLang.Syntax.Precedence
import Mathlib.Data.List.Forall2

/-!
# Abstract syntax with other spans

`mapSpans f` puts other spans in the place of all spans of a construct, from programs down to names,
and leaves the rest as it is. With one span for all of them it erases where a construct stands, and
mapping twice is mapping once, so constructs that differ by such a map are equal when spans are erased.

Grouping operators by priority makes spans by merging those of the operands. It commutes with a map
that respects merging.
-/

namespace ExpLang.Syntax

variable (f g : Span → Span)

/-- A name with another span. -/
def Ident.mapSpans (name : Ident) : Ident := ⟨name.name, f name.span⟩

/-- A type with other spans. -/
def TypeRef.mapSpans (type : TypeRef) : TypeRef :=
  ⟨type.name.mapSpans f, type.dims, f type.span⟩

mutual

/-- An expression with other spans. -/
def Expr.mapSpans : Expr → Expr
  | .int value span => .int value (f span)
  | .float value span => .float value (f span)
  | .bool value span => .bool value (f span)
  | .ident name => .ident (name.mapSpans f)
  | .unary op operand span => .unary op operand.mapSpans (f span)
  | .post op operand span => .post op operand.mapSpans (f span)
  | .binary op left right span => .binary op left.mapSpans right.mapSpans (f span)
  | .field target name span => .field target.mapSpans (name.mapSpans f) (f span)
  | .index target index span => .index target.mapSpans index.mapSpans (f span)
  | .call callee args span => .call callee.mapSpans (mapSpansArgs args) (f span)

/-- Arguments with other spans. -/
def mapSpansArgs : List Expr → List Expr
  | [] => []
  | arg :: args => arg.mapSpans :: mapSpansArgs args

end

/-- A declared variable with other spans. -/
def VarDecl.mapSpans (d : VarDecl) : VarDecl :=
  ⟨d.name.mapSpans f, d.type.map (·.mapSpans f), d.init.map (·.mapSpans f), d.deferred, f d.span⟩

/-- A declaration of variables with other spans. -/
def VarsDecl.mapSpans (d : VarsDecl) : VarsDecl :=
  ⟨d.isLazy, d.decls.map (·.mapSpans f), f d.span⟩

/-- A parameter with other spans. -/
def Param.mapSpans (p : Param) : Param :=
  ⟨p.name.mapSpans f, p.type.map (·.mapSpans f), p.default.map (·.mapSpans f), f p.span⟩

section Declarations

variable {σ τ : Type} (stmt : σ → τ)

/-- What a function does with other spans, where those of a statement are given. -/
def FunctionBody.mapSpans : FunctionBody σ → FunctionBody τ
  | .expr e => .expr (e.mapSpans f)
  | .stmt s => .stmt (stmt s)

/-- A function with other spans. -/
def FunctionDecl.mapSpans (d : FunctionDecl σ) : FunctionDecl τ :=
  ⟨d.name.mapSpans f, d.params.map (·.mapSpans f), d.ret.map (·.mapSpans f), d.body.mapSpans f stmt,
    f d.span⟩

/-- What a member is, with other spans. -/
def MemberKind.mapSpans : MemberKind σ → MemberKind τ
  | .fields vars => .fields (vars.mapSpans f)
  | .method function => .method (function.mapSpans f stmt)

/-- A member with other spans. -/
def MemberDecl.mapSpans (d : MemberDecl σ) : MemberDecl τ :=
  ⟨d.isStatic, d.kind.mapSpans f stmt, f d.span⟩

/-- A class with other spans. -/
def ClassDecl.mapSpans (d : ClassDecl σ) : ClassDecl τ :=
  ⟨d.name.mapSpans f, d.members.map (·.mapSpans f stmt), f d.span⟩

end Declarations

mutual

/-- A statement with other spans. -/
def Stmt.mapSpans : Stmt → Stmt
  | .empty span => .empty (f span)
  | .expr e span => .expr (e.mapSpans f) (f span)
  | .block body span => .block (mapSpansAll body) (f span)
  | .ifElse cond thenBranch none span => .ifElse (cond.mapSpans f) thenBranch.mapSpans none (f span)
  | .ifElse cond thenBranch (some elseBranch) span =>
    .ifElse (cond.mapSpans f) thenBranch.mapSpans (some elseBranch.mapSpans) (f span)
  | .forIn name iterable body span =>
    .forIn (name.mapSpans f) (iterable.mapSpans f) body.mapSpans (f span)
  | .whileLoop cond body span => .whileLoop (cond.mapSpans f) body.mapSpans (f span)
  | .ret value span => .ret (value.map (·.mapSpans f)) (f span)
  | .vars decl => .vars (decl.mapSpans f)
  | .function ⟨name, params, ret, .expr e, span⟩ =>
    .function (FunctionDecl.mapSpans f id ⟨name, params, ret, .expr e, span⟩)
  | .function ⟨name, params, ret, .stmt body, span⟩ =>
    .function (FunctionDecl.mapSpans f id ⟨name, params, ret, .stmt body.mapSpans, span⟩)
  | .classDecl ⟨name, members, span⟩ =>
    .classDecl ⟨name.mapSpans f, mapSpansMembers members, f span⟩

/-- Statements with other spans. -/
def mapSpansAll : List Stmt → List Stmt
  | [] => []
  | s :: rest => s.mapSpans :: mapSpansAll rest

/-- Members of a class with other spans. -/
def mapSpansMembers : List (MemberDecl Stmt) → List (MemberDecl Stmt)
  | [] => []
  | ⟨isStatic, .fields vars, span⟩ :: rest =>
    ⟨isStatic, .fields (vars.mapSpans f), f span⟩ :: mapSpansMembers rest
  | ⟨isStatic, .method ⟨name, params, ret, .expr e, place⟩, span⟩ :: rest =>
    ⟨isStatic, .method (FunctionDecl.mapSpans f id ⟨name, params, ret, .expr e, place⟩), f span⟩ ::
      mapSpansMembers rest
  | ⟨isStatic, .method ⟨name, params, ret, .stmt body, place⟩, span⟩ :: rest =>
    ⟨isStatic, .method (FunctionDecl.mapSpans f id ⟨name, params, ret, .stmt body.mapSpans, place⟩),
      f span⟩ :: mapSpansMembers rest

end

/-- A program with other spans. -/
def Program.mapSpans (p : Program) : Program := ⟨p.body.map (·.mapSpans f), f p.span⟩

/-- A program without its spans. -/
def Program.erase (p : Program) : Program := p.mapSpans fun _ => .synthetic

/-! ## Lists of constructs -/

/-- The spans of arguments are mapped one by one. -/
theorem mapSpansArgs_eq (args : List Expr) : mapSpansArgs f args = args.map (·.mapSpans f) := by
  induction args with
  | nil => rfl
  | cons arg args ih => rw [mapSpansArgs, ih, List.map_cons]

/-- The spans of a body are mapped one by one. -/
theorem mapSpansAll_eq (body : List Stmt) : mapSpansAll f body = body.map (·.mapSpans f) := by
  induction body with
  | nil => rfl
  | cons s body ih => rw [mapSpansAll, ih, List.map_cons]

/-- The spans of a conditional are those of its parts, the else branch being one if it is there. -/
theorem Stmt.mapSpans_ifElse (cond : Expr) (thenBranch : Stmt) (elseBranch : Option Stmt)
    (span : Span) : (Stmt.ifElse cond thenBranch elseBranch span).mapSpans f =
      .ifElse (cond.mapSpans f) (thenBranch.mapSpans f) (elseBranch.map (·.mapSpans f)) (f span) := by
  cases elseBranch <;> rfl

/-- The spans of a function statement are those of the function. -/
theorem Stmt.mapSpans_function (d : FunctionDecl Stmt) :
    (Stmt.function d).mapSpans f = .function (d.mapSpans f (·.mapSpans f)) := by
  obtain ⟨name, params, ret, body | body, span⟩ := d <;> rfl

/-- The spans of members are mapped one by one. -/
theorem mapSpansMembers_eq (members : List (MemberDecl Stmt)) :
    mapSpansMembers f members = members.map (·.mapSpans f (·.mapSpans f)) := by
  induction members with
  | nil => rfl
  | cons member members ih =>
    obtain ⟨isStatic, kind, span⟩ := member
    rcases kind with vars | ⟨name, params, ret, body | body, place⟩ <;>
      rw [mapSpansMembers, ih] <;> rfl

/-- The spans of a class statement are those of the class. -/
theorem Stmt.mapSpans_classDecl (d : ClassDecl Stmt) :
    (Stmt.classDecl d).mapSpans f = .classDecl (d.mapSpans f (·.mapSpans f)) := by
  obtain ⟨name, members, span⟩ := d
  rw [Stmt.mapSpans, mapSpansMembers_eq]
  rfl

/-- Where an expression stands after a map. -/
theorem Expr.span_mapSpans (e : Expr) : (e.mapSpans f).span = f e.span := by
  cases e <;> rfl

/-! ## Mapping twice -/

/-- Mapping the spans of a name twice maps them by the composition. -/
theorem Ident.mapSpans_mapSpans (name : Ident) :
    (name.mapSpans f).mapSpans g = name.mapSpans fun s => g (f s) := rfl

/-- Mapping the spans of a type twice maps them by the composition. -/
theorem TypeRef.mapSpans_mapSpans (type : TypeRef) :
    (type.mapSpans f).mapSpans g = type.mapSpans fun s => g (f s) := rfl

mutual

/-- Mapping the spans of an expression twice maps them by the composition. -/
theorem Expr.mapSpans_mapSpans : ∀ e : Expr, (e.mapSpans f).mapSpans g = e.mapSpans fun s => g (f s)
  | .int .. | .float .. | .bool .. | .ident _ => rfl
  | .unary _ operand _ | .post _ operand _ | .field operand _ _ => by
    simp only [Expr.mapSpans, operand.mapSpans_mapSpans, Ident.mapSpans_mapSpans]
  | .binary _ left right _ | .index left right _ => by
    simp only [Expr.mapSpans, left.mapSpans_mapSpans, right.mapSpans_mapSpans]
  | .call callee args _ => by
    simp only [Expr.mapSpans, callee.mapSpans_mapSpans, mapSpansArgs_mapSpansArgs args]

/-- Mapping the spans of arguments twice maps them by the composition. -/
theorem mapSpansArgs_mapSpansArgs : ∀ args : List Expr,
    mapSpansArgs g (mapSpansArgs f args) = mapSpansArgs (fun s => g (f s)) args
  | [] => rfl
  | arg :: args => by
    simp only [mapSpansArgs, arg.mapSpans_mapSpans, mapSpansArgs_mapSpansArgs args]

end

/-- Mapping the spans of a declarator twice maps them by the composition. -/
theorem VarDecl.mapSpans_mapSpans (d : VarDecl) :
    (d.mapSpans f).mapSpans g = d.mapSpans fun s => g (f s) := by
  simp [VarDecl.mapSpans, Ident.mapSpans_mapSpans, Function.comp_def, TypeRef.mapSpans_mapSpans,
    Expr.mapSpans_mapSpans]

/-- Mapping the spans of a declaration list twice maps them by the composition. -/
theorem VarsDecl.mapSpans_mapSpans (d : VarsDecl) :
    (d.mapSpans f).mapSpans g = d.mapSpans fun s => g (f s) := by
  simp [VarsDecl.mapSpans, Function.comp_def, VarDecl.mapSpans_mapSpans]

/-- Mapping the spans of a parameter twice maps them by the composition. -/
theorem Param.mapSpans_mapSpans (p : Param) :
    (p.mapSpans f).mapSpans g = p.mapSpans fun s => g (f s) := by
  simp [Param.mapSpans, Ident.mapSpans_mapSpans, Function.comp_def, TypeRef.mapSpans_mapSpans,
    Expr.mapSpans_mapSpans]

/-- A function whose body is mapped twice. -/
theorem FunctionDecl.mapSpans_mapSpans {σ τ υ : Type} (stmt : σ → τ) (stmt' : τ → υ)
    (d : FunctionDecl σ) : (d.mapSpans f stmt).mapSpans g stmt' =
      d.mapSpans (fun s => g (f s)) fun s => stmt' (stmt s) := by
  obtain ⟨name, params, ret, body | body, span⟩ := d <;>
    simp [FunctionDecl.mapSpans, FunctionBody.mapSpans, Ident.mapSpans_mapSpans, Function.comp_def,
      Param.mapSpans_mapSpans, TypeRef.mapSpans_mapSpans, Expr.mapSpans_mapSpans]

mutual

/-- Mapping the spans of a statement twice maps them by the composition. -/
theorem Stmt.mapSpans_mapSpans : ∀ s : Stmt, (s.mapSpans f).mapSpans g = s.mapSpans fun s => g (f s)
  | .empty _ => rfl
  | .expr e _ => by simp only [Stmt.mapSpans, e.mapSpans_mapSpans]
  | .block body _ => by simp only [Stmt.mapSpans, mapSpansAll_mapSpansAll body]
  | .ifElse cond thenBranch none _ => by
    simp only [Stmt.mapSpans, cond.mapSpans_mapSpans, thenBranch.mapSpans_mapSpans]
  | .ifElse cond thenBranch (some elseBranch) _ => by
    simp only [Stmt.mapSpans, cond.mapSpans_mapSpans, thenBranch.mapSpans_mapSpans,
      elseBranch.mapSpans_mapSpans]
  | .forIn name iterable body _ => by
    simp only [Stmt.mapSpans, name.mapSpans_mapSpans, iterable.mapSpans_mapSpans,
      body.mapSpans_mapSpans]
  | .whileLoop cond body _ => by
    simp only [Stmt.mapSpans, cond.mapSpans_mapSpans, body.mapSpans_mapSpans]
  | .ret value _ => by
    simp only [Stmt.mapSpans, Option.map_map, Function.comp_def, Expr.mapSpans_mapSpans]
  | .vars decl => by simp only [Stmt.mapSpans, decl.mapSpans_mapSpans]
  | .function ⟨name, params, ret, .expr e, span⟩ => by
    rw [Stmt.mapSpans_function, Stmt.mapSpans_function, FunctionDecl.mapSpans_mapSpans,
      Stmt.mapSpans_function]
    rfl
  | .function ⟨name, params, ret, .stmt body, span⟩ => by
    rw [Stmt.mapSpans_function, Stmt.mapSpans_function, FunctionDecl.mapSpans_mapSpans,
      Stmt.mapSpans_function]
    simp only [FunctionDecl.mapSpans, FunctionBody.mapSpans, body.mapSpans_mapSpans]
  | .classDecl ⟨name, members, _⟩ => by
    simp only [Stmt.mapSpans, name.mapSpans_mapSpans, mapSpansMembers_mapSpansMembers members]

/-- Mapping the spans of a body twice maps them by the composition. -/
theorem mapSpansAll_mapSpansAll : ∀ body : List Stmt,
    mapSpansAll g (mapSpansAll f body) = mapSpansAll (fun s => g (f s)) body
  | [] => rfl
  | s :: rest => by
    simp only [mapSpansAll, s.mapSpans_mapSpans, mapSpansAll_mapSpansAll rest]

/-- Mapping the spans of members twice maps them by the composition. -/
theorem mapSpansMembers_mapSpansMembers : ∀ members : List (MemberDecl Stmt),
    mapSpansMembers g (mapSpansMembers f members) = mapSpansMembers (fun s => g (f s)) members
  | [] => rfl
  | ⟨_, .fields vars, _⟩ :: rest => by
    simp only [mapSpansMembers, vars.mapSpans_mapSpans, mapSpansMembers_mapSpansMembers rest]
  | ⟨_, .method ⟨name, params, ret, .expr e, place⟩, _⟩ :: rest => by
    simp [mapSpansMembers, FunctionDecl.mapSpans, FunctionBody.mapSpans, Function.comp_def,
      name.mapSpans_mapSpans, Param.mapSpans_mapSpans, TypeRef.mapSpans_mapSpans,
      e.mapSpans_mapSpans, mapSpansMembers_mapSpansMembers rest]
  | ⟨_, .method ⟨name, params, ret, .stmt body, place⟩, _⟩ :: rest => by
    simp [mapSpansMembers, FunctionDecl.mapSpans, FunctionBody.mapSpans, Function.comp_def,
      name.mapSpans_mapSpans, Param.mapSpans_mapSpans, TypeRef.mapSpans_mapSpans,
      body.mapSpans_mapSpans, mapSpansMembers_mapSpansMembers rest]

end

/-- Spans that are mapped are erased like others. -/
theorem Program.erase_mapSpans (p : Program) : (p.mapSpans f).erase = p.erase := by
  simp [erase, mapSpans, Function.comp_def, Stmt.mapSpans_mapSpans]

/-! ## Operators -/

/-- A tree of operators with other spans in its operands. -/
def OperatorTree.mapSpans : OperatorTree → OperatorTree
  | .leaf operand => .leaf (operand.mapSpans f)
  | .node op left right => .node op left.mapSpans right.mapSpans

/-- Putting an operator into a tree goes along with mapping spans. -/
theorem OperatorTree.mapSpans_insert (op : BinaryOp) (operand : Expr) (tree : OperatorTree) :
    (tree.insert op operand).mapSpans f = (tree.mapSpans f).insert op (operand.mapSpans f) := by
  induction tree with
  | leaf e => rfl
  | node top left right _ ih =>
    simp only [insert, mapSpans]
    split
    · rw [mapSpans, ih]
    · rfl

variable {f}

/-- The expression of a tree of operators with other spans. -/
theorem OperatorTree.mapSpans_toExpr (hf : ∀ s t, f (s.merge t) = (f s).merge (f t))
    (tree : OperatorTree) : (tree.mapSpans f).toExpr = tree.toExpr.mapSpans f := by
  induction tree with
  | leaf e => rfl
  | node op left right ihl ihr =>
    simp only [mapSpans, toExpr, ihl, ihr, Expr.mapSpans, Expr.span_mapSpans, hf]

/-- Adding operators with the same symbols. -/
theorem OperatorTree.mapSpans_insertAll {operators operators' : List (String × Span)}
    (hop : List.Forall₂ (fun op op' => op'.1 = op.1) operators operators') {tree tree' : OperatorTree}
    {operands : List Expr} (h : tree.insertAll operators operands = .ok tree') :
    (tree.mapSpans f).insertAll operators' (operands.map (·.mapSpans f)) = .ok (tree'.mapSpans f) := by
  induction hop generalizing tree operands with
  | nil =>
    cases operands <;> cases h <;> rfl
  | @cons op op' operators operators' hsymbol _ ih =>
    obtain ⟨symbol, span⟩ := op
    obtain ⟨symbol', span'⟩ := op'
    obtain rfl : symbol' = symbol := hsymbol
    cases operands with
    | nil =>
      cases h
      rfl
    | cons operand operands =>
      rw [insertAll] at h
      rw [List.map_cons, insertAll]
      cases hfound : BinaryOp.ofSymbol? symbol' with
      | none =>
        rw [hfound] at h
        cases h
      | some b =>
        rw [hfound] at h
        have hrest := ih h
        rw [mapSpans_insert] at hrest
        exact hrest

/-- Operands with other spans are joined as before by operators with the same symbols. -/
theorem foldOperators_mapSpans (hf : ∀ s t, f (s.merge t) = (f s).merge (f t))
    {operators operators' : List (String × Span)}
    (hop : List.Forall₂ (fun op op' => op'.1 = op.1) operators operators') {operands : List Expr}
    {e : Expr} (h : foldOperators operands operators = .ok e) :
    foldOperators (operands.map (·.mapSpans f)) operators' = .ok (e.mapSpans f) := by
  cases operands with
  | nil => cases h
  | cons first rest =>
    rw [foldOperators] at h
    split at h
    · rename_i hlength
      cases hinsert : OperatorTree.insertAll (.leaf first) operators rest with
      | error e =>
        rw [hinsert] at h
        cases h
      | ok tree =>
        rw [hinsert] at h
        cases h
        have hinsert' := OperatorTree.mapSpans_insertAll hop hinsert (f := f)
        rw [List.map_cons, foldOperators, if_pos (by rw [List.length_map, hlength, hop.length_eq])]
        rw [OperatorTree.mapSpans] at hinsert'
        rw [hinsert']
        exact congrArg Except.ok (tree.mapSpans_toExpr hf)
    · cases h

end ExpLang.Syntax
