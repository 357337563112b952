import ExpLang.Proofs.Lexing.Apart
import ExpLang.Proofs.Syntax.Constructs

/-!
# Which tokens are tried where

A `Site` is what is known about a place in the text from what was read before it: which tokens can be
read next, and whether a fraction or a postfix operator was refused there already. The course of a
matcher at a site says what is known where it ends, what is known where it is refused, whether it can
be committed and fail, and whether it can go through without reading anything. It is computed from the
matcher alone, and exists only if no token is tried where it must not be: an integer before a fraction
was refused, an operator between operands before a postfix operator was, or anything but an operand
behind an operator.

Rules refer to each other, so their courses are given as a table. That the table is right is a finite
check of every rule at every site, `course_body`.
-/

namespace ExpLang.Syntax

/-- What is known about a place in the text. -/
structure Site where
  /-- What can be read next. -/
  mode : Mode
  /-- Whether a fraction was refused here. -/
  noFloat : Bool := false
  /-- Whether a postfix operator was refused here. -/
  noPostfix : Bool := false
  deriving DecidableEq

namespace Site

/-- One site is known at least as well as another one. -/
def Le (s s' : Site) : Prop :=
  s.mode = s'.mode ∧ (s'.noFloat = true → s.noFloat = true) ∧
    (s'.noPostfix = true → s.noPostfix = true)

instance (s s' : Site) : Decidable (s.Le s') := inferInstanceAs (Decidable (_ ∧ _ ∧ _))

/-- A site is known as well as itself. -/
theorem Le.refl (s : Site) : s.Le s := ⟨rfl, id, id⟩

/-- What is known at both of two sites. -/
def join? (s s' : Site) : Option Site :=
  if s.mode = s'.mode then
    some ⟨s.mode, s.noFloat && s'.noFloat, s.noPostfix && s'.noPostfix⟩
  else
    none

/-- Two sites are known at least as well as the one that they join to. -/
theorem le_of_join? {s s' t : Site} (h : s.join? s' = some t) : s.Le t ∧ s'.Le t := by
  unfold join? at h
  split at h
  · rename_i hmode
    cases h
    exact ⟨⟨rfl, fun h => (Bool.and_eq_true_iff.1 h).1, fun h => (Bool.and_eq_true_iff.1 h).1⟩,
      ⟨hmode.symm, fun h => (Bool.and_eq_true_iff.1 h).2, fun h => (Bool.and_eq_true_iff.1 h).2⟩⟩
  · cases h

/-- Whether a token may be tried at a site. -/
def allows (s : Site) (t : Token) : Bool :=
  t.isAllowed s.mode && (t != .int || s.noFloat) && (t != .op .binaryOp || s.noPostfix)

/-- What is known where a token was refused. -/
def refusing (s : Site) (t : Token) : Site :=
  ⟨s.mode, s.noFloat || t == .float, s.noPostfix || t == .op .postfixOp⟩

end Site

/-- What a matcher that goes through has read. -/
inductive Width where
  /-- One token. -/
  | token
  /-- Something. -/
  | solid
  /-- Something, or an optional part is missing. -/
  | optional
  /-- Something, or nothing. -/
  | hollow
  deriving DecidableEq

/-- Whether something is read in any case. -/
def Width.isSolid : Width → Bool
  | token | solid => true
  | optional | hollow => false

/-- What a matcher does at a site. -/
structure Course where
  /-- What is known where it has gone through. -/
  after : Site
  /-- What is known where it is refused. -/
  refused : Site
  /-- What it has read where it has gone through. -/
  width : Width
  /-- Whether it can be committed and fail. -/
  breaks : Bool
  deriving DecidableEq

/-- The classes of tokens that are no fixed texts. -/
def Token.classes : List Token := [.float, .int, .bool, .name]

/-- A text that starts with a token of a class and with none of an earlier class. -/
def Token.sample : Token → List Char
  | .float => ".1".toList
  | .int => "1".toList
  | .bool => "true".toList
  | _ => "a".toList

open Classical in
/-- The class of tokens that a reader reads. -/
noncomputable def Token.ofReader? (reader : TokenReader) : Option Token :=
  classes.find? fun t => t.read = reader.readAt

/-- A known token that reads as a reader does is the token of that reader. -/
theorem Token.ofReader?_eq_some {t : Token} {reader : TokenReader} (ht : t ∈ classes)
    (hread : t.read = reader.readAt) : ofReader? reader = some t := by
  have hsamples : ∀ t ∈ classes, (t.read ⟨0, t.sample⟩).isSome = true := by decide +kernel
  have hsome := hsamples t ht
  have hne {u : Token} (hnone : u.read ⟨0, t.sample⟩ = none) : ¬ u.read = reader.readAt := by
    intro hu
    rw [hread, ← hu, hnone] at hsome
    cases hsome
  simp only [classes, List.mem_cons, List.not_mem_nil, or_false] at ht
  rcases ht with rfl | rfl | rfl | rfl
  · simp [ofReader?, classes, hread]
  · have hfloat := hne (u := .float) (by decide +kernel)
    simp [ofReader?, classes, hread, hfloat]
  · have hfloat := hne (u := .float) (by decide +kernel)
    have hint := hne (u := .int) (by decide +kernel)
    simp [ofReader?, classes, hread, hfloat, hint]
  · have hfloat := hne (u := .float) (by decide +kernel)
    have hint := hne (u := .int) (by decide +kernel)
    have hbool := hne (u := .bool) (by decide +kernel)
    simp [ofReader?, classes, hread, hfloat, hint, hbool]

/-- The token that a matcher reads. -/
noncomputable def token? : Matcher Kind → Option Token
  | .literal text =>
    if keywords.contains text then some (.word text)
    else if marks.contains text then some (.mark text) else none
  | .literals set =>
    ([OpSet.prefixOp, .binaryOp, .postfixOp, .initMark].find? (·.literals = set)).map .op
  | .pattern reader _ => Token.ofReader? reader
  | _ => none

/-- The course of a token. -/
def Site.read (s : Site) (t : Token) : Option Course :=
  if s.allows t then some ⟨⟨t.after, false, false⟩, s.refusing t, .token, false⟩ else none

section

variable (table : Kind → Site → Option Course)

mutual

/-- The course of a matcher, where those of rules are given. -/
noncomputable def course (s : Site) : Matcher Kind → Option Course
  | .seq items => if items.any (·.isStored) then courseItems s false false s items else none
  | .any alternatives => courseAny s alternatives
  | .list element separator least => do
    let first ← course s element
    let (next, breaks) ← courseSeparator first.after separator
    let later ← course next element
    if first.width.isSolid && later.width.isSolid && decide (later.after.Le first.after) then
      let ending := if separator.isNone then later.refused else first.after
      let after ← if least = 0 then first.refused.join? ending else some ending
      some ⟨after, s, if least = 0 then .hollow else .solid,
        first.breaks || breaks || later.breaks⟩
    else none
  | .optional body => do
    let r ← course s body
    let after ← r.after.join? r.refused
    if r.width.isSolid then some ⟨after, s, .optional, r.breaks⟩ else none
  | .rule name => table name s
  | .literal text => (token? (.literal text)).bind s.read
  | .literals set => (token? (.literals set)).bind s.read
  | .pattern reader what => (token? (.pattern reader what)).bind s.read
  | .ref _ | .sure | .skip _ _ => none

/-- The course of the items of a sequence that started at a site, where `led` says whether something
was read before them. -/
noncomputable def courseItems (start : Site) (committed led : Bool) (s : Site) :
    List (Matcher Kind) → Option Course
  | [] => if led then some ⟨s, start, .solid, false⟩ else none
  | item :: items =>
    if item.isSure then courseItems start true led s items
    else do
      let r ← course s item
      let rest ← courseItems start committed (led || r.width.isSolid) r.after items
      if r.width = .hollow && !led then none
      else some { rest with breaks := committed || r.breaks || rest.breaks }

/-- The course of a choice. -/
noncomputable def courseAny (s : Site) : List (Matcher Kind) → Option Course
  | [] => none
  | [m] => (course s m).bind fun r => if r.width.isSolid then some { r with width := .solid } else none
  | m :: rest => do
    let r ← course s m
    let later ← courseAny (if r.breaks then s else r.refused) rest
    let after ← r.after.join? later.after
    if r.width.isSolid then some ⟨after, later.refused, .solid, r.breaks || later.breaks⟩ else none

/-- Where the elements after the first one start, and whether the separator can be committed and
fail. -/
noncomputable def courseSeparator (s : Site) : Option (Matcher Kind) → Option (Site × Bool)
  | none => some (s, false)
  | some m => (course s m).bind fun r => if r.width.isSolid then some (r.after, r.breaks) else none

end

end

/-- The courses of the rules. Statements and declarations end with a token after which anything can
be read. An expression ends where a postfix operator was refused. -/
def ruleCourse (k : Kind) (s : Site) : Option Course :=
  match k with
  | .float => s.read .float
  | .int => s.read .int
  | .bool => s.read .bool
  | .id => s.read .name
  | .unop => s.read (.op .prefixOp)
  | .binop => s.read (.op .binaryOp)
  | .postOp => s.read (.op .postfixOp)
  | .emptyStm => s.read (.mark [';'])
  | .literal => if s.mode = .name then none else some ⟨⟨.any, false, false⟩, { s with noFloat := true }, .solid, false⟩
  | .atom => if s.mode = .name then none else some ⟨⟨.any, false, false⟩, { s with noFloat := true }, .solid, true⟩
  | .parenExpr => if s.mode = .name then none else some ⟨⟨.any, false, false⟩, s, .solid, true⟩
  | .unopExpr | .operand | .expr =>
    if s.mode = .name then none else some ⟨⟨.any, false, true⟩, s, .solid, true⟩
  | .params | .stms => if s = ⟨.any, false, false⟩ then some ⟨s, s, .hollow, true⟩ else none
  | .access =>
    if s.mode = .any then some ⟨⟨.any, false, false⟩, { s with noPostfix := true }, .solid, true⟩ else none
  | .default | .init => if s.mode = .any then some ⟨⟨.any, false, true⟩, s, .solid, true⟩ else none
  | .accessField | .typeDecl => if s.mode = .any then some ⟨⟨.any, false, false⟩, s, .solid, false⟩ else none
  | _ => if s.mode = .any then some ⟨⟨.any, false, false⟩, s, .solid, true⟩ else none

/-- All sites. -/
def Site.all : List Site :=
  [Mode.any, .operand, .name].flatMap fun mode => [false, true].flatMap fun noFloat =>
    [false, true].map fun noPostfix => ⟨mode, noFloat, noPostfix⟩

/-- Every site is in the list of sites. -/
theorem Site.mem_all (s : Site) : s ∈ Site.all := by
  obtain ⟨mode, noFloat, noPostfix⟩ := s
  cases mode <;> cases noFloat <;> cases noPostfix <;> decide

/-- Every kind is in the list of kinds. -/
theorem Kind.mem_all (k : Kind) : k ∈ Kind.all := by
  cases k <;> decide

/-- The course in the table is the course of the body. A rule without captures reads one token, and
only lists of parameters and of statements can read nothing. -/
noncomputable def isCourseOf (k : Kind) (rule : Rule Kind) (s : Site) (r : Course) : Bool :=
  decide (course ruleCourse s rule.body = some r) && (rule.arity != 0 || r.width == .token) &&
    (r.width.isSolid || (r.width == .hollow && (k == .params || k == .stms)))

/-- The class of tokens that a rule defines. -/
def Kind.tokenClass? : Kind → Option Token
  | .float => some .float
  | .int => some .int
  | .bool => some .bool
  | .id => some .name
  | _ => none

/-- The table of courses is right for rules that define no class of tokens. -/
theorem ruleCourse_check : ∀ k ∈ Kind.all, k.tokenClass? = none → ∀ s ∈ Site.all,
    (ruleCourse k s).all (fun r =>
      (language.rule? k).any fun rule => isCourseOf k rule s r) = true := by
  decide +kernel

/-- The rule of a class of tokens has its reader as the body. -/
theorem rule?_of_tokenClass? {k : Kind} {t : Token} (h : k.tokenClass? = some t) :
    t ∈ Token.classes ∧ (∀ s, ruleCourse k s = s.read t) ∧ ∃ reader what,
      language.rule? k = some ⟨0, .pattern reader what⟩ ∧ t.read = reader.readAt := by
  cases k <;> cases h <;> exact ⟨by decide, fun _ => rfl, _, _, rfl, rfl⟩

/-- A token that a site reads is allowed there and leads to the site after it. -/
theorem Site.read_eq_some {s : Site} {t : Token} {r : Course} (h : s.read t = some r) :
    s.allows t = true ∧ r = ⟨⟨t.after, false, false⟩, s.refusing t, .token, false⟩ := by
  unfold Site.read at h
  split at h
  · cases h
    exact ⟨‹_›, rfl⟩
  · cases h

/-- The course of a rule is that of its body. -/
theorem course_body {k : Kind} {s : Site} {r : Course} (hr : ruleCourse k s = some r) :
    ∃ rule, language.rule? k = some rule ∧ course ruleCourse s rule.body = some r ∧
      (rule.arity = 0 → r.width = .token) ∧
      (r.width.isSolid = true ∨ r.width = .hollow ∧ (k = .params ∨ k = .stms)) := by
  cases hclass : k.tokenClass? with
  | none =>
    have hcheck := ruleCourse_check k (Kind.mem_all k) hclass s (Site.mem_all s)
    rw [hr, Option.all_some, Option.any_eq_true] at hcheck
    obtain ⟨rule, hrule, hcheck⟩ := hcheck
    simp only [isCourseOf, Bool.and_eq_true, decide_eq_true_eq, Bool.or_eq_true, bne_iff_ne,
      beq_iff_eq] at hcheck
    obtain ⟨⟨hbody, hwidth⟩, hhollow⟩ := hcheck
    exact ⟨rule, hrule, hbody, hwidth.resolve_left ∘ not_not.2, hhollow⟩
  | some t =>
    obtain ⟨ht, hcourse, reader, what, hrule, hread⟩ := rule?_of_tokenClass? hclass
    rw [hcourse] at hr
    refine ⟨_, hrule, ?_, fun _ => ?_, .inl ?_⟩
    · rw [course, token?, Token.ofReader?_eq_some ht hread]
      exact hr
    · rw [(Site.read_eq_some hr).2]
    · rw [(Site.read_eq_some hr).2]
      rfl

section Tokens

variable {t : Token}

/-- The token of a literal reads as the literal. -/
theorem token?_literal {text : List Char} (h : token? (.literal text) = some t) :
    t.Known ∧ t.read = readLiteral text := by
  simp only [token?] at h
  split at h
  · rename_i hword
    cases h
    exact ⟨List.contains_iff_mem.1 hword, rfl⟩
  · split at h
    · rename_i hmark
      cases h
      exact ⟨List.contains_iff_mem.1 hmark, rfl⟩
    · cases h

/-- The token of a set of literals reads as the set. -/
theorem token?_literals {set : Literals} (h : token? (.literals set) = some t) :
    t.Known ∧ t.read = readLiterals set := by
  obtain ⟨op, hop, rfl⟩ := Option.map_eq_some_iff.1 h
  have hset := List.find?_some hop
  rw [decide_eq_true_eq] at hset
  exact ⟨trivial, by rw [Token.read, hset]⟩

/-- The token of a pattern reads as its reader. -/
theorem token?_pattern {reader : TokenReader} {what : String}
    (h : token? (.pattern reader what) = some t) : t.Known ∧ t.read = reader.readAt := by
  rw [token?, Token.ofReader?] at h
  have hclass : t ∈ Token.classes := List.mem_of_find?_eq_some h
  have hread : t.read = reader.readAt := by simpa using List.find?_some h
  refine ⟨?_, hread⟩
  simp only [Token.classes, List.mem_cons, List.not_mem_nil, or_false] at hclass
  rcases hclass with rfl | rfl | rfl | rfl <;> trivial

end Tokens

end ExpLang.Syntax
