import ExpLang.Checking.Obligation
import ExpLang.Proofs.Acyclic
import Mathlib.Data.Finset.Image

/-!
# Code that is entered without going deeper

A call runs the body of a method one level deeper, and the number of levels is limited. Three other
pieces of code of a unit are entered at the level of the code that needs them: the defaults of the
parameters that a call leaves out, the first values of the fields of a new object, and the first
value of a field of a class when it is read first. `Piece` names them, and `CodeUnit.Enters` says
which piece can enter which: what is called through a value can be any method, everything else is
named in the code. A unit without `while` whose pieces do not come back to themselves is one that
`CodeUnit.Bounded` holds of.
-/

namespace ExpLang.Resolved

open Checking (calledMethod?)

mutual

/-- Whether a statement has no loop under a condition in it. -/
def Stmt.isWhileFree : Stmt → Bool
  | .seq body _ => Stmt.areWhileFree body
  | .ifElse _ thenBranch none _ => thenBranch.isWhileFree
  | .ifElse _ thenBranch (some elseBranch) _ => thenBranch.isWhileFree && elseBranch.isWhileFree
  | .whileLoop _ _ _ => false
  | .forIn _ _ body _ | .forConst _ _ _ body _ | .forRange _ _ _ body _ => body.isWhileFree
  | .expr _ _ | .ret _ _ => true

/-- Whether statements have no loop under a condition in them. -/
def Stmt.areWhileFree : List Stmt → Bool
  | [] => true
  | s :: rest => s.isWhileFree && Stmt.areWhileFree rest

end

/-- A piece of code that is entered without going deeper. -/
inductive Piece where
  /-- The first value of a field. -/
  | firstValue (id : FieldId)
  /-- The defaults of the parameters of a method. -/
  | defaults (id : MethodId)
  deriving DecidableEq, Repr

namespace CodeUnit

variable (u : CodeUnit)

/-- The expressions of a piece. -/
def code : Piece → List Expr
  | .firstValue id => (u.getField id).init.toList
  | .defaults id => (u.getMethod id).params.toList.filterMap (·.default)

/-- The pieces of a unit. -/
def pieces : List Piece :=
  (List.range u.fields.size).map .firstValue ++ (List.range u.methods.size).map .defaults

/-- The number of pieces of a unit, and one more. -/
def pieceBound : Nat := u.fields.size + u.methods.size + 1

/-- The pieces that reading a member can enter. -/
def memberPieces : Member → List Piece
  | .field id => if (u.getField id).modifiers.isStatic then [.firstValue id] else []
  | .method _ => []

/-- The pieces that calling an expression can enter: those of the method that it names, or those of
every method if it names none. -/
def calleePieces (callee : Expr) : List Piece :=
  match calledMethod? callee with
  | some id => [.defaults id]
  | none => (List.range u.methods.size).map .defaults

/-- The pieces that making an object can enter. -/
def classPieces (owner : ClassId) : List Piece :=
  ((u.getClass owner).fields.filter fun id => !(u.getField id).modifiers.isStatic).map .firstValue

mutual

/-- The pieces that finding the value of an expression can enter. -/
def exprPieces : Expr → List Piece
  | .binary _ left right _ => exprPieces left ++ exprPieces right
  | .pre _ operand _ | .post _ operand _ => exprPieces operand
  | .member m _ => u.memberPieces m
  | .access target m _ => exprPieces target ++ u.memberPieces m
  | .index target key _ => exprPieces target ++ exprPieces key
  | .call callee args _ => exprPieces callee ++ exprsPieces args ++ u.calleePieces callee
  | .new owner args _ => exprsPieces args ++ u.classPieces owner
  | .literal _ _ | .localVar _ _ | .argument _ _ | .classRef _ _ | .this _ | .unknown _ _ => []

/-- The pieces that finding the values of expressions can enter. -/
def exprsPieces : List Expr → List Piece
  | [] => []
  | e :: rest => exprPieces e ++ exprsPieces rest

end

/-- The second piece can enter the first one. -/
def Enters (q p : Piece) : Prop := ∃ e ∈ u.code p, q ∈ u.exprPieces e

/-- No method has a loop under a condition, and no piece of code that is entered without going deeper
comes back to itself. -/
structure Bounded : Prop where
  whileFree : ∀ i body, (u.getMethod i).body = some body → body.isWhileFree = true
  acyclic : Acyclic u.Enters

/-- Whether no method has a loop under a condition. -/
def isWhileFree : Bool := u.methods.toList.all (·.body.all (·.isWhileFree))

/-- Whether no method has a loop under a condition, and each piece enters pieces of smaller ranks
only. -/
def isBoundedBy (rank : Piece → Nat) : Bool :=
  u.isWhileFree &&
    u.pieces.all fun p => (u.code p).all fun e => (u.exprPieces e).all fun q => rank q < rank p

variable {u}

/-- A piece with code is one of the unit. -/
theorem mem_pieces {p : Piece} {e : Expr} (he : e ∈ u.code p) : p ∈ u.pieces := by
  have hmissing {α : Type} [Inhabited α] {xs : Array α} {i : Nat} (h : ¬ i < xs.size) :
      xs.getD i default = default := by rw [Array.getD, dif_neg h]
  cases p with
  | firstValue id =>
    by_cases hid : id < u.fields.size
    · exact List.mem_append_left _ (List.mem_map.2 ⟨id, List.mem_range.2 hid, rfl⟩)
    · rw [code, getField, hmissing hid] at he
      cases he
  | defaults id =>
    by_cases hid : id < u.methods.size
    · exact List.mem_append_right _ (List.mem_map.2 ⟨id, List.mem_range.2 hid, rfl⟩)
    · rw [code, getMethod, hmissing hid] at he
      cases he

/-- The pieces of a bounded unit have ranks, which are below their number plus one. -/
theorem Bounded.exists_rank (h : u.Bounded) :
    ∃ rank : Piece → Nat, (∀ p, rank p < u.pieceBound) ∧
      ∀ q p, u.Enters q p → rank q < rank p := by
  obtain ⟨rank, hle, hlt⟩ := h.acyclic.exists_rank u.pieces.toFinset
    (fun _ _ ⟨_, he, _⟩ => List.mem_toFinset.2 (mem_pieces he))
  have hcard : u.pieces.toFinset.card ≤ u.fields.size + u.methods.size := by
    refine (List.toFinset_card_le _).trans (Nat.le_of_eq ?_)
    simp [pieces]
  exact ⟨rank, fun p => Nat.lt_succ_of_le ((hle p).trans hcard), hlt⟩

/-- The bodies of a unit without loops under conditions have none. -/
theorem isWhileFree_body (h : u.isWhileFree = true) {i : MethodId} {body : Stmt}
    (hbody : (u.getMethod i).body = some body) : body.isWhileFree = true := by
  by_cases hi : i < u.methods.size
  · rw [getMethod, ← Array.getElem_eq_getD (h := hi)] at hbody
    have hall := List.all_eq_true.1 h _ (Array.getElem_mem_toList hi)
    simpa [hbody] using hall
  · rw [getMethod, Array.getD, dif_neg hi] at hbody
    cases hbody

/-- Ranks show that a unit is bounded. -/
theorem bounded_of_rank {rank : Piece → Nat} (h : u.isBoundedBy rank = true) : u.Bounded := by
  obtain ⟨hwhile, hrank⟩ := Bool.and_eq_true_iff.1 h
  simp only [List.all_eq_true, decide_eq_true_eq] at hrank
  refine ⟨fun i body hbody => isWhileFree_body hwhile hbody, Acyclic.of_rank rank ?_⟩
  rintro q p ⟨e, he, hq⟩
  exact hrank p (mem_pieces he) e he q hq

end CodeUnit

end ExpLang.Resolved
