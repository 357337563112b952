import ExpLang.Proofs.Lexing.Apart

/-!
# Texts that are cut off behind a token

A token that is taken from a text is also taken if the text is cut off somewhere behind it, and so is the
gap before it. Cutting off a text can only make fewer tokens possible, so that those which were tried
before a literal, or before an operator, and refused are refused again.
-/

namespace ExpLang

open Text

namespace Skipper

/-- A skipper passes over a text before another one, and would also do so if the other one were cut off
behind its first character. -/
structure Gap (sk : Skipper) (gap rest : List Char) : Prop where
  skip_eq : ∀ pos, sk.skip ⟨pos, gap ++ rest⟩ = ⟨pos + byteLength gap, rest⟩
  solid : ∀ pos, sk.skip ⟨pos, rest⟩ = ⟨pos, rest⟩
  cut : ∀ {d ds tail}, rest = d :: (ds ++ tail) → ∀ pos,
    sk.skip ⟨pos, gap ++ d :: ds⟩ = ⟨pos + byteLength gap, d :: ds⟩

/-- Passing blanks passes a run of them up to what is no blank. -/
theorem passBlanks_run {xs r : List Char} (hxs : ∀ c ∈ xs, isBlank c = true) (hr : Stops isBlank r)
    (pos : Nat) : passBlanks pos (xs ++ r) = ⟨pos + byteLength xs, r⟩ := by
  induction xs generalizing pos with
  | nil =>
    cases r with
    | nil => rfl
    | cons c r => exact if_neg (Bool.eq_false_iff.1 (stops_cons.1 hr))
  | cons x xs ih =>
    rw [List.cons_append, passBlanks, if_pos (hxs x List.mem_cons_self),
      ih fun c hc => hxs c (List.mem_cons_of_mem _ hc), byteLength, Nat.add_assoc]

/-- A solid text that is cut off behind its first character is solid. -/
theorem Solid.cut {d : Char} {ds tail : List Char} (h : Solid (d :: (ds ++ tail))) :
    Solid (d :: ds) := by
  obtain ⟨hblank, hcomment⟩ := h.head
  refine solid_cons hblank fun hd => ?_
  cases ds with
  | nil => exact ⟨fun h => (by cases h), fun h => (by cases h)⟩
  | cons e ds => exact hcomment hd

/-- Skipping passes over the gap at a cursor. -/
theorem exists_gap_skip (sk : Skipper) (c : Cursor) :
    ∃ gap, sk.Gap gap (sk.skip c).rest ∧ c.rest = gap ++ (sk.skip c).rest ∧
      (sk.skip c).pos = c.pos + byteLength gap := by
  cases sk with
  | none =>
    exact ⟨[], ⟨fun _ => rfl, fun _ => rfl, fun _ _ => rfl⟩, rfl, rfl⟩
  | blanks =>
    obtain ⟨pos, rest⟩ := c
    obtain ⟨xs, r, rfl, hxs, hr⟩ := exists_run isBlank rest
    have hskip (pos : Nat) : blanks.skip ⟨pos, xs ++ r⟩ = ⟨pos + byteLength xs, r⟩ :=
      passBlanks_run hxs hr pos
    have hsolid (pos : Nat) : blanks.skip ⟨pos, r⟩ = ⟨pos, r⟩ :=
      passBlanks_run (List.forall_mem_nil _) hr pos
    rw [hskip]
    refine ⟨xs, ⟨hskip, hsolid, fun hcut pos => ?_⟩, rfl, rfl⟩
    subst hcut
    exact passBlanks_run hxs (stops_cons.2 (stops_cons.1 hr)) pos
  | blanksAndComments =>
    obtain ⟨gap, rest, hrest, hgap, hskip⟩ := exists_skip c
    rw [hskip]
    refine ⟨gap, ⟨hgap.pass_eq, hgap.solid, fun hcut pos => ?_⟩, hrest, rfl⟩
    subst hcut
    exact hgap.replace (List.cons_ne_nil _ _) hgap.solid.cut pos

end Skipper

namespace Syntax

variable {t : Token} {x r tail : List Char}

/-- A run that stops in a text stops in the text that is cut off there. -/
theorem Stops.cut {p : Char → Bool} (h : Stops p (r ++ tail)) : Stops p r := by
  cases r with
  | nil => rfl
  | cons c r => exact h

/-- What is longest in a text is longest in the text that is cut off behind it. -/
theorem LongestOf.cut {texts : List (List Char)} (h : LongestOf texts x (r ++ tail)) :
    LongestOf texts x r :=
  ⟨h.1, fun y hy hle => h.2 y hy (hle.trans (by rw [← List.append_assoc]; exact List.prefix_append _ _))⟩

/-- A token is taken from a text that is cut off behind it. -/
theorem Token.Takes.cut (h : t.Takes x (r ++ tail)) : t.Takes x r := by
  cases t with
  | word | float | int | bool | name => exact ⟨h.1, Stops.cut h.2⟩
  | mark | op => exact LongestOf.cut h

/-- No token is taken from a text that starts with another character. -/
theorem Token.refuses_of_starts {c : Char} {cs : List Char} (ht : t.Known)
    (h : t.starts c = false) : t.Refuses (c :: cs) := by
  intro x r heq hx
  obtain ⟨d, xs, rfl, hd⟩ := hx.head ht
  cases heq
  rw [h] at hd
  cases hd

/-- A known token is refused at the end of a text. -/
theorem Token.refuses_nil (ht : t.Known) : t.Refuses [] := by
  intro x r heq hx
  obtain ⟨d, xs, rfl, -⟩ := hx.head ht
  cases heq

/-! ## Tokens that were refused -/

/-- No fraction can be taken where the text goes on and none can be taken. -/
theorem float_refuses_cut (h : Token.float.Refuses (r ++ tail)) : Token.float.Refuses r := by
  rintro x rest rfl hx
  refine noFraction_of_refuses h x hx.1 ?_
  rw [List.append_assoc]
  exact List.prefix_append _ _

/-- A name that is no truth value is none where it ends. -/
theorem bool_refuses_cut (hx : Token.name.Takes x (r ++ tail))
    (h : Token.bool.Refuses (x ++ (r ++ tail))) : Token.bool.Refuses (x ++ r) := by
  intro y rest heq hy
  -- A truth value is also taken as a name, and a name is taken in one way only.
  have hname : Token.name.Takes y rest :=
    ⟨Token.run_of_mem_words (List.mem_append_right _ hy.1), hy.2⟩
  obtain ⟨rfl, rfl⟩ := Token.Takes.unique (t := .name) trivial hx.cut hname heq
  exact h x _ rfl ⟨hy.1, hx.2⟩

/-- Postfix operators have the same length, so none is the beginning of another one. -/
theorem post_refuses_cut (h : (Token.op .postfixOp).Refuses (r ++ tail)) :
    (Token.op .postfixOp).Refuses r := by
  have hsame : ∀ y ∈ (Token.op .postfixOp).texts, ∀ z ∈ (Token.op .postfixOp).texts,
      y <+: z → z <+: y := by decide
  rintro x rest rfl hx
  refine h x (rest ++ tail) (List.append_assoc _ _ _) ⟨hx.1, fun y hy hle => ?_⟩
  rcases List.prefix_or_prefix_of_prefix hle (List.prefix_append x _) with hyx | hxy
  · exact hyx
  · exact hsame x hx.1 y hy hxy

end Syntax

end ExpLang
