import ExpLang.Grammar.Matching
import ExpLang.Proofs.Matching.ParseTree
import Mathlib.Data.ENat.Basic

/-!
# A reference semantics of matchers

What a matcher makes of a text, as a function of the skipper in force and of the cursor. There is
no arena, nothing is rolled back and the cursor is a value: each construct is given by the outcomes
of its parts.

A grammar may be left-recursive, so that the outcome of a matcher may depend on itself. The function
therefore takes a depth to which matchers are entered, and `none` says that the depth was too small.
It knows no budget.
-/

namespace ExpLang

variable {κ : Type}

/-- What a matcher makes of a text: a tree or nothing, and where the text is read on. -/
structure Outcome (κ : Type) where
  /-- The tree. -/
  found : Option (ParseTree κ)
  /-- The cursor after it. -/
  stop : Cursor

namespace ParseTree

/-- The tree of an optional part that is missing. -/
def missing (pos : Nat) : ParseTree κ := ⟨.empty, .point pos, [], [], none⟩

/-- The tree of a token. -/
def token (span : Span) : ParseTree κ := ⟨.token, span, [], [], none⟩

/-- The span over the trees that are not missing parts, or the empty span at `pos`. -/
def cover (trees : List (ParseTree κ)) (pos : Nat) : Span :=
  (Span.cover ((trees.filter (!·.kind.isEmpty)).map (·.span))).getD (.point pos)

end ParseTree

namespace Outcome

/-- Nothing, and nothing read. -/
def refused (c : Cursor) : Outcome κ := ⟨none, c⟩

/-- A token, if `read` finds one after the gap. -/
def token (sk : Skipper) (read : Cursor → Option Cursor) (c : Cursor) : Outcome κ :=
  match read (sk.skip c) with
  | none => refused c
  | some stop => ⟨some (.token ⟨(sk.skip c).pos, stop.pos⟩), stop⟩

/-- A missing part in the place of nothing. -/
def orMissing (o : Outcome κ) (c : Cursor) : Outcome κ :=
  match o.found with
  | none => ⟨some (.missing c.pos), c⟩
  | some _ => o

/-- The tree of a rule whose body is no sequence around the tree of the body. -/
def ofRule (o : Outcome κ) (name : κ) (rule : Rule κ) : Outcome κ :=
  ⟨o.found.map fun t =>
    ⟨.rule name, t.span, [t], if rule.arity = 0 then [] else [t.capture], t.hole⟩, o.stop⟩

/-- How far an outcome gets: nothing is least, a complete tree is most, and of two trees with a hole
the one whose hole stands later gets further. -/
def reach (o : Outcome κ) : ℕ∞ :=
  match o.found with
  | none => 0
  | some t => t.hole.elim ⊤ fun hole => hole.pos + 1

/-- The one of two outcomes that gets further, the first if both get equally far; anything is
better than nothing. -/
def orFurther (first second : Outcome κ) : Outcome κ :=
  if first.found.isNone || first.reach < second.reach then second else first

/-- Nothing is never better. -/
theorem orFurther_refused {first : Outcome κ} {c : Cursor} (h : first.found.isNone = false) :
    first.orFurther (refused c) = first := by
  simp [orFurther, refused, reach, h]

/-- A complete tree is better than none and than one with a hole. -/
theorem orFurther_complete {first second : Outcome κ} (h : first.reach < ⊤)
    (hsecond : second.reach = ⊤) : first.orFurther second = second := by
  simp [orFurther, hsecond, h]

/-- Of three outcomes the first that gets furthest is found from either end. -/
theorem orFurther_assoc (a b c : Outcome κ) :
    (a.orFurther b).orFurther c = a.orFurther (b.orFurther c) := by
  have hnone : b.found.isNone = true → ¬ a.reach < b.reach := by
    intro h
    rw [Option.isNone_iff_eq_none] at h
    simp [reach, h]
  unfold orFurther
  split_ifs <;> grind

end Outcome

/-- What the items of a sequence make of a text. -/
inductive SeqOutcome (κ : Type) where
  /-- An item before the cut does not apply. -/
  | refused
  /-- The parts, each with whether it is captured, where they could not go on, if they could not,
  and the cursor after them. -/
  | ended (parts : List (ParseTree κ × Bool)) (hole : Option Hole) (stop : Cursor)

namespace SeqOutcome

/-- Put a part in front. -/
def cons (part : ParseTree κ × Bool) : SeqOutcome κ → SeqOutcome κ
  | refused => refused
  | ended parts hole stop => ended (part :: parts) hole stop

/-- The outcome of a sequence from that of its items. -/
def outcome (kind : NodeKind κ) (start : Cursor) : SeqOutcome κ → Outcome κ
  | refused => .refused start
  | ended parts hole stop =>
    ⟨some ⟨kind, ParseTree.cover (parts.map (·.1)) start.pos, parts.map (·.1),
      (parts.filter (·.2)).map (·.1.capture), hole⟩, stop⟩

end SeqOutcome

/-- What the elements of a list make of a text. -/
structure ListOutcome (κ : Type) where
  /-- Elements and separators as they stand. -/
  parts : List (ParseTree κ) := []
  /-- The elements. -/
  elements : List (ParseTree κ) := []
  /-- The separators. -/
  separators : List (ParseTree κ) := []
  /-- Where the list could not go on, if it could not. -/
  hole : Option Hole := none
  /-- The cursor after the list. -/
  stop : Cursor

namespace ListOutcome

/-- Put an element in front. -/
def element (t : ParseTree κ) (r : ListOutcome κ) : ListOutcome κ :=
  { r with parts := t :: r.parts, elements := t :: r.elements }

/-- Put a separator in front, if there is one. -/
def separator (t : Option (ParseTree κ)) (r : ListOutcome κ) : ListOutcome κ :=
  match t with
  | none => r
  | some t => { r with parts := t :: r.parts, separators := t :: r.separators }

/-- The outcome of a list of at least `least` elements. -/
def outcome (least : Nat) (start : Cursor) (r : ListOutcome κ) : Outcome κ :=
  if r.hole.isNone && r.elements.length < least then .refused start
  else
    ⟨some ⟨.list, ParseTree.cover r.parts start.pos, r.parts, [.list r.elements r.separators],
      r.hole⟩, r.stop⟩

end ListOutcome

section Constructs

variable (describe : Matcher κ → String) (sk : Skipper) (ref : Matcher κ → Cursor → Option (Outcome κ))

/-- What the items of a sequence make of the text at a cursor. Before a cut an item that does not
apply refuses the sequence, after one it leaves a hole where its token would start. -/
def referenceItems : Bool → List (Matcher κ) → Cursor → Option (SeqOutcome κ)
  | _, [], c => some (.ended [] none c)
  | committed, item :: items, c =>
    if item.isSure then referenceItems true items c
    else do
      let o ← ref item c
      match o.found with
      | none =>
        if committed then return .ended [] (some ⟨describe item, (sk.skip c).pos⟩) c
        else return .refused
      | some t => match t.hole with
        | some hole => return .ended [(t, item.isStored)] (some hole) o.stop
        | none => return (← referenceItems committed items o.stop).cons (t, item.isStored)

/-- What several alternatives make of the text at a cursor: the first complete tree, or else the
tree with the last hole, the earlier alternative if two holes stand at one place. -/
def referenceChoice : List (Matcher κ) → Cursor → Option (Outcome κ)
  | [], c => some (.refused c)
  | m :: rest, c => do
    let o ← ref m c
    match o.found with
    | none => referenceChoice rest c
    | some t =>
      if t.isComplete then return o
      else return o.orFurther (← referenceChoice rest c)

/-- What the separator before an element makes of the text at a cursor, as the tree of the separator
and the cursor after it. The first element has no separator. -/
def referenceSeparator (separator : Option (Matcher κ)) (first : Bool) (c : Cursor) :
    Option (Option (ParseTree κ) × Outcome κ) := do
  match separator, first with
  | some m, false =>
    let o ← ref m c
    return (o.found, o)
  | _, _ => return (none, ⟨some (.missing c.pos), c⟩)

/-- What the elements of a list make of the text at a cursor, where the number bounds them. A
separator is given back if no element follows, and an element that reads nothing ends the list. -/
def referenceElements (element : Matcher κ) (separator : Option (Matcher κ)) :
    Nat → Bool → Cursor → Option (ListOutcome κ)
  | 0, _, _ => none
  | bound + 1, first, c => do
    let (before, sep) ← referenceSeparator ref separator first c
    match sep.found with
    | none => return { stop := c }
    | some t => match t.hole with
      | some hole => return .separator before { hole := some hole, stop := sep.stop }
      | none =>
        let o ← ref element sep.stop
        match o.found with
        | none => return { stop := c }
        | some t =>
          if t.hole.isSome || o.stop.pos == c.pos then
            return .separator before (.element t { hole := t.hole, stop := o.stop })
          else
            let r ← referenceElements element separator bound false o.stop
            return .separator before (.element t r)

end Constructs

/-- What a matcher makes of the text at a cursor, where matchers are entered to a depth; none if
that is not deep enough. -/
def Grammar.reference [DecidableEq κ] [RuleName κ] (g : Grammar κ) :
    Nat → Skipper → Matcher κ → Cursor → Option (Outcome κ)
  | 0, _, _, _ => none
  | depth + 1, sk, m, c => match m with
    | .literal text => some (.token sk (readLiteral text) c)
    | .literals set => some (.token sk (readLiterals set) c)
    | .pattern reader _ => some (.token sk reader.readAt c)
    | .seq items =>
      (referenceItems g.describe sk (reference g depth sk) false items c).map (·.outcome .group c)
    | .any alternatives => referenceChoice (reference g depth sk) alternatives c
    | .list element separator least =>
      (referenceElements (reference g depth sk) element separator depth true c).map
        (·.outcome least c)
    | .optional body => (reference g depth sk body c).map (·.orMissing c)
    | .rule name => match g.rule? name with
      | none => some (.refused c)
      | some rule => match rule.body with
        | .seq items =>
          (referenceItems g.describe sk (reference g depth sk) false items c).map
            (·.outcome (.rule name) c)
        | body => (reference g depth sk body c).map (·.ofRule name rule)
    | .ref index => match g.refs[index]? with
      | none => some (.refused c)
      | some target => reference g depth sk target c
    | .sure => some ⟨some (.missing c.pos), c⟩
    | .skip skipper body => reference g depth skipper body c

end ExpLang
