import Mathlib.Data.List.Nodup
import Mathlib.Data.List.Perm.Basic
import ExpLang.Proofs.Resolved.Units
import ExpLang.Resolved.Visit

/-!
# The nodes of a unit

The code of a unit is a forest: under each field stands its first value, under each method the
defaults of its parameters and its body, and under each statement and expression its parts. A node is
named by its address, that is by the member above it and the path down from there. A walk through a
member meets the node at each of its addresses, and each once.
-/

namespace ExpLang.Resolved

/-! ## Parts and paths -/

/-- The parts of an expression, from left to right. -/
def Expr.parts : Expr → List Expr
  | .binary _ left right _ => [left, right]
  | .pre _ operand _ | .post _ operand _ => [operand]
  | .access target _ _ => [target]
  | .index target key _ => [target, key]
  | .call callee args _ => callee :: args
  | .new _ args _ => args
  | .literal _ _ | .localVar _ _ | .argument _ _ | .member _ _ | .classRef _ _ | .this _
  | .unknown _ _ => []

/-- The parts of a statement, from left to right. -/
def Stmt.parts : Stmt → List Visit
  | .seq body _ => body.map .stmt
  | .expr e _ => [.expr e]
  | .ifElse cond thenBranch elseBranch _ =>
    .expr cond :: .stmt thenBranch :: elseBranch.toList.map .stmt
  | .whileLoop cond body _ => [.expr cond, .stmt body]
  | .forIn _ iterable body _ => [.expr iterable, .stmt body]
  | .forConst _ _ _ body _ => [.stmt body]
  | .forRange _ low high body _ => [.expr low, .expr high, .stmt body]
  | .ret value _ => value.toList.map .expr

namespace CodeUnit

/-- The parts of a thing that a unit holds. -/
def parts (u : CodeUnit) : Visit → List Visit
  | .ofClass id => (u.getClass id).fields.map .field ++ (u.getClass id).methods.map .method
  | .field id => (u.getField id).init.toList.map .expr
  | .method id =>
    ((u.getMethod id).params.toList.filterMap (·.default)).map .expr
      ++ (u.getMethod id).body.toList.map .stmt
  | .stmt s => s.parts
  | .expr e => e.parts.map .expr

/-- What a path leads to from a thing: each number on it is the position of a part. -/
def at? (u : CodeUnit) : Visit → List Nat → Option Visit
  | v, [] => some v
  | v, i :: path => (u.parts v)[i]?.bind (u.at? · path)

/-- What a path leads to from one of some things. -/
def atSome? (u : CodeUnit) (vs : List Visit) : List Nat → Option Visit
  | [] => none
  | i :: path => vs[i]?.bind (u.at? · path)

/-! ## Walks -/

/-- Paths lead to the things of a list, one path to each, and no other path leads to anything. -/
structure Covers (find : List Nat → Option Visit) (paths : List (List Nat)) (vs : List Visit) :
    Prop where
  nodup : paths.Nodup
  mem_iff : ∀ path, path ∈ paths ↔ (find path).isSome = true
  map_find : paths.map find = vs.map some

/-- A list has all things that paths lead to, each once for each path. -/
def Meets (find : List Nat → Option Visit) (vs : List Visit) : Prop := ∃ paths, Covers find paths vs

variable {u : CodeUnit} {v : Visit} {vs ws parts : List Visit}

/-- Nothing is met in no things. -/
theorem meets_nil : Meets (u.atSome? []) [] := by
  have hnone : ∀ path, u.atSome? [] path = none := by
    intro path
    cases path <;> simp [atSome?]
  exact ⟨[], .nil, fun path => by simp [hnone], rfl⟩

/-- The empty path leads to none of some things. -/
theorem Covers.nil_notMem {paths : List (List Nat)} (h : Covers (u.atSome? parts) paths vs) :
    [] ∉ paths := by
  intro hmem
  have hsome := (h.mem_iff []).1 hmem
  cases hsome

/-- A thing is met before its parts. -/
theorem Meets.node (h : Meets (u.atSome? (u.parts v)) ws) : Meets (u.at? v) (v :: ws) := by
  obtain ⟨paths, hpaths⟩ := h
  have hsame : ∀ path ∈ paths, u.at? v path = u.atSome? (u.parts v) path := by
    intro path hpath
    cases path with
    | nil => exact absurd hpath hpaths.nil_notMem
    | cons i path => rfl
  have hmem : ∀ path, path ∈ [] :: paths ↔ (u.at? v path).isSome = true := by
    intro path
    cases path with
    | nil => simp [at?]
    | cons i path =>
      rw [List.mem_cons, hpaths.mem_iff]
      simp [at?, atSome?]
  have hmap : ([] :: paths).map (u.at? v) = (v :: ws).map some := by
    rw [List.map_cons, List.map_cons, List.map_congr_left hsame, hpaths.map_find]
    rfl
  exact ⟨[] :: paths, List.nodup_cons.2 ⟨hpaths.nil_notMem, hpaths.nodup⟩, hmem, hmap⟩

/-- The path to a thing when there is one more thing before it. -/
def shift : List Nat → List Nat
  | [] => []
  | i :: path => (i + 1) :: path

/-- Paths behind one more thing are told apart as before. -/
theorem shift_injective : Function.Injective shift := by
  rintro (_ | ⟨i, p⟩) (_ | ⟨j, q⟩) h <;> simp_all [shift]

/-- What is in the first thing is met before what is in the others. -/
theorem Meets.cons (hv : Meets (u.at? v) vs) (hparts : Meets (u.atSome? parts) ws) :
    Meets (u.atSome? (v :: parts)) (vs ++ ws) := by
  obtain ⟨first, hfirst⟩ := hv
  obtain ⟨others, hothers⟩ := hparts
  have hshift : ∀ path ∈ others, u.atSome? (v :: parts) (shift path) = u.atSome? parts path := by
    intro path hpath
    cases path with
    | nil => exact absurd hpath hothers.nil_notMem
    | cons i path => rfl
  have hdisjoint : (first.map (0 :: ·)).Disjoint (others.map shift) := by
    intro path hpath hpath'
    obtain ⟨p, -, rfl⟩ := List.mem_map.1 hpath
    obtain ⟨q, -, hq⟩ := List.mem_map.1 hpath'
    cases q <;> cases hq
  have hnodup : (first.map (0 :: ·) ++ others.map shift).Nodup :=
    (hfirst.nodup.map List.cons_injective).append (hothers.nodup.map shift_injective) hdisjoint
  have hmem : ∀ path, path ∈ first.map (0 :: ·) ++ others.map shift ↔
      (u.atSome? (v :: parts) path).isSome = true := by
    intro path
    rw [List.mem_append]
    -- a path starts in the first thing or in another one, and never is empty
    cases path with
    | nil =>
      have hfree : ∀ q ∈ others, shift q ≠ [] := by
        intro q hq h
        cases q with
        | nil => exact hothers.nil_notMem hq
        | cons i q => cases h
      simpa [atSome?] using hfree
    | cons i path =>
      cases i with
      | zero =>
        have hfree : 0 :: path ∉ others.map shift := by
          intro h
          obtain ⟨q, -, hq⟩ := List.mem_map.1 h
          cases q <;> cases hq
        rw [or_iff_left hfree, List.mem_map_of_injective List.cons_injective, hfirst.mem_iff]
        rfl
      | succ i =>
        have hback : (i + 1) :: path = shift (i :: path) := rfl
        rw [hback, List.mem_map_of_injective shift_injective, hothers.mem_iff]
        simp [atSome?, shift]
  have hmap : (first.map (0 :: ·) ++ others.map shift).map (u.atSome? (v :: parts)) =
      (vs ++ ws).map some := by
    rw [List.map_append, List.map_append, List.map_map, List.map_map, ← hfirst.map_find,
      ← hothers.map_find, ← List.map_congr_left hshift]
    rfl
  exact ⟨_, hnodup, hmem, hmap⟩

/-- What is met from a thing is met from a list with that thing only. -/
theorem Meets.single (h : Meets (u.at? v) vs) : Meets (u.atSome? [v]) vs := by
  simpa using h.cons meets_nil

mutual

/-- A walk through an expression meets each of its nodes once. -/
theorem meets_expr (u : CodeUnit) (e : Expr) : Meets (u.at? (.expr e)) e.visits := by
  cases e with
  | binary op left right info =>
    rw [Expr.visits]
    exact ((meets_expr u left).cons (meets_expr u right).single).node
  | pre op operand info =>
    rw [Expr.visits]
    exact (meets_expr u operand).single.node
  | post op operand info =>
    rw [Expr.visits]
    exact (meets_expr u operand).single.node
  | access target m info =>
    rw [Expr.visits]
    exact (meets_expr u target).single.node
  | index target key info =>
    rw [Expr.visits]
    exact ((meets_expr u target).cons (meets_expr u key).single).node
  | call callee args info =>
    rw [Expr.visits]
    exact ((meets_expr u callee).cons (meets_exprs u args)).node
  | new id args info =>
    rw [Expr.visits]
    exact (meets_exprs u args).node
  | _ => exact meets_nil.node

/-- A walk through expressions meets each thing in them once. -/
theorem meets_exprs (u : CodeUnit) (es : List Expr) :
    Meets (u.atSome? (es.map .expr)) (Expr.visitsAll es) := by
  cases es with
  | nil => exact meets_nil
  | cons e rest =>
    rw [Expr.visitsAll]
    exact (meets_expr u e).cons (meets_exprs u rest)

end

mutual

/-- A walk through a statement meets each of its nodes once. -/
theorem meets_stmt (u : CodeUnit) (s : Stmt) : Meets (u.at? (.stmt s)) s.visits := by
  cases s with
  | seq body span =>
    rw [Stmt.visits]
    exact (meets_stmts u body).node
  | expr e span =>
    rw [Stmt.visits]
    exact (meets_expr u e).single.node
  | ifElse cond thenBranch elseBranch span =>
    cases elseBranch with
    | none =>
      rw [Stmt.visits]
      exact ((meets_expr u cond).cons (meets_stmt u thenBranch).single).node
    | some elseBranch =>
      rw [Stmt.visits, List.append_assoc]
      exact ((meets_expr u cond).cons
        ((meets_stmt u thenBranch).cons (meets_stmt u elseBranch).single)).node
  | whileLoop cond body span =>
    rw [Stmt.visits]
    exact ((meets_expr u cond).cons (meets_stmt u body).single).node
  | forIn var iterable body span =>
    rw [Stmt.visits]
    exact ((meets_expr u iterable).cons (meets_stmt u body).single).node
  | forConst var low high body span =>
    rw [Stmt.visits]
    exact (meets_stmt u body).single.node
  | forRange var low high body span =>
    rw [Stmt.visits, List.append_assoc]
    exact ((meets_expr u low).cons ((meets_expr u high).cons (meets_stmt u body).single)).node
  | ret value span =>
    cases value with
    | none => exact meets_nil.node
    | some e =>
      rw [Stmt.visits]
      exact (meets_expr u e).single.node

/-- A walk through statements meets each thing in them once. -/
theorem meets_stmts (u : CodeUnit) (body : List Stmt) :
    Meets (u.atSome? (body.map .stmt)) (Stmt.visitsAll body) := by
  cases body with
  | nil => exact meets_nil
  | cons s rest =>
    rw [Stmt.visitsAll]
    exact (meets_stmt u s).cons (meets_stmts u rest)

end

/-- A walk from a field meets each thing in it once. -/
theorem meets_field (u : CodeUnit) (id : FieldId) :
    Meets (u.at? (.field id)) (u.fieldVisits id) := by
  have hinit : Meets (u.atSome? ((u.getField id).init.toList.map .expr))
      ((u.getField id).init.elim [] Expr.visits) := by
    cases (u.getField id).init with
    | none => exact meets_nil
    | some e => exact (meets_expr u e).single
  exact hinit.node

/-- The defaults of parameters come before what else there is. -/
theorem meets_defaults (hparts : Meets (u.atSome? parts) ws) (params : List ParamDef) :
    Meets (u.atSome? ((params.filterMap (·.default)).map .expr ++ parts))
      (params.flatMap (·.default.elim [] Expr.visits) ++ ws) := by
  induction params with
  | nil => exact hparts
  | cons p rest ih =>
    rw [List.flatMap_cons, List.append_assoc]
    cases hdefault : p.default with
    | none =>
      rw [List.filterMap_cons_none hdefault]
      exact ih
    | some e =>
      rw [List.filterMap_cons_some hdefault]
      exact (meets_expr u e).cons ih

/-- A walk from a method meets each thing in it once. -/
theorem meets_method (u : CodeUnit) (id : MethodId) :
    Meets (u.at? (.method id)) (u.methodVisits id) := by
  have hbody : Meets (u.atSome? ((u.getMethod id).body.toList.map .stmt))
      ((u.getMethod id).body.elim [] Stmt.visits) := by
    cases (u.getMethod id).body with
    | none => exact meets_nil
    | some body => exact (meets_stmt u body).single
  exact (meets_defaults hbody _).node

/-- What a walk meets is at the end of a path. -/
theorem Meets.exists_path {find : List Nat → Option Visit} (h : Meets find vs) (hv : v ∈ vs) :
    ∃ path, find path = some v := by
  obtain ⟨paths, -, -, hmap⟩ := h
  have hmem : some v ∈ paths.map find := hmap ▸ List.mem_map_of_mem hv
  obtain ⟨path, -, hpath⟩ := List.mem_map.1 hmem
  exact ⟨path, hpath⟩

end CodeUnit

/-- Whether a thing met on a walk is a statement or an expression. -/
def Visit.isCode : Visit → Bool
  | .stmt _ | .expr _ => true
  | _ => false

namespace CodeUnit

variable {u : CodeUnit} {v w : Visit}

/-- The parts of code are code. -/
theorem isCode_parts (hv : v.isCode = true) (hw : w ∈ u.parts v) : w.isCode = true := by
  cases v with
  | stmt s =>
    have hparts : w ∈ s.parts := hw
    cases s <;> grind [Stmt.parts, Visit.isCode]
  | expr e =>
    obtain ⟨part, -, rfl⟩ := List.mem_map.1 hw
    rfl
  | _ => cases hv

/-- Statements and expressions have only statements and expressions in them. -/
theorem isCode_at? {path : List Nat} (hv : v.isCode = true) (hw : u.at? v path = some w) :
    w.isCode = true := by
  induction path generalizing v with
  | nil =>
    cases hw
    exact hv
  | cons i path ih =>
    obtain ⟨part, hpart, hw⟩ := Option.bind_eq_some_iff.1 hw
    exact ih (isCode_parts hv (List.mem_of_getElem? hpart)) hw

/-- A walk through an expression meets code only. -/
theorem isCode_of_mem_exprVisits {e : Expr} (hw : w ∈ e.visits) : w.isCode = true := by
  obtain ⟨path, hpath⟩ := (meets_expr default e).exists_path hw
  exact isCode_at? (v := .expr e) rfl hpath

/-- A walk through a statement meets code only. -/
theorem isCode_of_mem_stmtVisits {s : Stmt} (hw : w ∈ s.visits) : w.isCode = true := by
  obtain ⟨path, hpath⟩ := (meets_stmt default s).exists_path hw
  exact isCode_at? (v := .stmt s) rfl hpath

end CodeUnit

/-! ## Addresses -/

/-- A member as a thing met on a walk. -/
def Member.visit : Member → Visit
  | .field id => .field id
  | .method id => .method id

/-- The place of a node in a unit. -/
structure Address where
  /-- The member above the node. -/
  member : Member
  /-- The way down from the member. -/
  path : List Nat
  deriving DecidableEq, Repr, Inhabited

namespace CodeUnit

/-- Whether a member is one of the unit. -/
def has (u : CodeUnit) : Member → Bool
  | .field id => id < u.fields.size
  | .method id => id < u.methods.size

/-- The node at an address. -/
def nodeAt? (u : CodeUnit) (a : Address) : Option Visit :=
  if u.has a.member then u.at? a.member.visit a.path else none

/-- A member and what is in it. -/
def memberVisits (u : CodeUnit) : Member → List Visit
  | .field id => u.fieldVisits id
  | .method id => u.methodVisits id

/-- A walk from a member meets each thing in it once. -/
theorem meets_member (u : CodeUnit) (m : Member) :
    Meets (u.at? m.visit) (u.memberVisits m) := by
  cases m with
  | field id => exact meets_field u id
  | method id => exact meets_method u id

/-- The members of all classes, class by class. -/
def members (u : CodeUnit) : List Member :=
  u.classes.toList.flatMap fun c => c.fields.map .field ++ c.methods.map .method

variable {u : CodeUnit} {holes : TypeId → Prop} {bodies : MethodId → Prop}

/-- Every member of a unit stands once among the members of its classes. -/
theorem Sound.members_perm (hu : u.Sound holes bodies) :
    u.members.Perm
      ((List.range u.fields.size).map .field ++ (List.range u.methods.size).map .method) := by
  have hfields := hu.fields_once.map Member.field
  have hmethods := hu.methods_once.map Member.method
  rw [List.map_flatMap] at hfields hmethods
  exact (List.flatMap_append_perm _ _ _).symm.trans (hfields.append hmethods)

/-- The members of a sound unit are those that its classes list. -/
theorem Sound.mem_members (hu : u.Sound holes bodies) {m : Member} :
    m ∈ u.members ↔ u.has m = true := by
  rw [hu.members_perm.mem_iff]
  cases m <;> simp [has]

/-- No member of a sound unit is listed twice. -/
theorem Sound.nodup_members (hu : u.Sound holes bodies) : u.members.Nodup := by
  rw [hu.members_perm.nodup_iff]
  refine List.Nodup.append ?_ ?_ ?_
  · exact List.nodup_range.map fun _ _ h => Member.field.inj h
  · exact List.nodup_range.map fun _ _ h => Member.method.inj h
  · intro m hfield hmethod
    obtain ⟨i, -, rfl⟩ := List.mem_map.1 hfield
    obtain ⟨j, -, hj⟩ := List.mem_map.1 hmethod
    cases hj

/-- The addresses of the nodes of some members, in the order of a walk. -/
theorem exists_addresses_of_members (u : CodeUnit) {ms : List Member} (hms : ms.Nodup) :
    ∃ addresses : List Address, addresses.Nodup ∧
      (∀ a, a ∈ addresses ↔ a.member ∈ ms ∧ (u.at? a.member.visit a.path).isSome = true) ∧
      addresses.map (fun a => (a.member, u.at? a.member.visit a.path)) =
        ms.flatMap fun m => (u.memberVisits m).map fun v => (m, some v) := by
  induction ms with
  | nil => exact ⟨[], .nil, fun a => by simp, rfl⟩
  | cons m rest ih =>
    obtain ⟨hm, hrest⟩ := List.nodup_cons.1 hms
    obtain ⟨others, hnodup', hmem', hmap'⟩ := ih hrest
    obtain ⟨paths, hnodup, hmem, hmap⟩ := meets_member u m
    have hdisjoint : (paths.map (Address.mk m)).Disjoint others := by
      intro a ha hothers
      obtain ⟨path, -, rfl⟩ := List.mem_map.1 ha
      exact hm ((hmem' _).1 hothers).1
    have hmk : Function.Injective (Address.mk m) := fun _ _ h => (Address.mk.inj h).2
    have hall : ∀ a, a ∈ paths.map (Address.mk m) ++ others ↔
        a.member ∈ m :: rest ∧ (u.at? a.member.visit a.path).isSome = true := by
      intro a
      obtain ⟨member, path⟩ := a
      rw [List.mem_append, hmem', List.mem_cons]
      by_cases hmember : member = m
      · subst hmember
        simp [hm, hmem]
      · simp [hmember, Ne.symm hmember]
    have hpairs : paths.map (fun path => (m, u.at? m.visit path)) =
        (u.memberVisits m).map fun v => (m, some v) := by
      have hpair := congrArg (List.map (Prod.mk m)) hmap
      rwa [List.map_map, List.map_map] at hpair
    refine ⟨paths.map (Address.mk m) ++ others, (hnodup.map hmk).append hnodup' hdisjoint, hall, ?_⟩
    rw [List.map_append, List.map_map, List.flatMap_cons, ← hpairs, ← hmap']
    rfl

/-- A walk through all members of a unit meets the node at each address, and each once. -/
theorem Sound.exists_addresses (hu : u.Sound holes bodies) :
    ∃ addresses : List Address, addresses.Nodup ∧
      (∀ a, a ∈ addresses ↔ (u.nodeAt? a).isSome = true) ∧
      addresses.map (fun a => (a.member, u.nodeAt? a)) =
        u.members.flatMap fun m => (u.memberVisits m).map fun v => (m, some v) := by
  obtain ⟨addresses, hnodup, hmem, hmap⟩ := u.exists_addresses_of_members hu.nodup_members
  refine ⟨addresses, hnodup, fun a => ?_, ?_⟩
  · rw [hmem, hu.mem_members, nodeAt?]
    split <;> simp_all
  · rw [← hmap]
    refine List.map_congr_left fun a ha => ?_
    rw [nodeAt?, if_pos (hu.mem_members.1 ((hmem a).1 ha).1)]

end CodeUnit

end ExpLang.Resolved
