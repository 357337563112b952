import ExpLang.Proofs.Lexing.Tokens

/-!
# Tokens that stand apart

A token of a tree stands apart from the text behind it when no token that could be tried at its
beginning takes more than it. `Apart` says so by the shape of the token. It is what reading a token
gives, provided that the text goes on as it has to after the token (`Takes.apart`), and a space that
is put into the text behind the token leaves it apart (`Apart.space`).

Where a token stands apart from two texts, everything that is tried at its beginning takes the same
before both: a beginning of the token, or nothing (`Apart.takes`).
-/

namespace ExpLang.Syntax

open Text

/-- The shapes of tokens. -/
inductive Shape where
  /-- A letter, then word characters. -/
  | word
  /-- A digit, then digits and underscores. -/
  | int
  /-- A fraction. -/
  | float
  /-- A fixed token or an operator. -/
  | symbol
  deriving DecidableEq

/-- A text does not start with a fraction. -/
def NoFraction (cs : List Char) : Prop := ∀ x, Fraction x → ¬ x <+: cs

/-- A token of some shape stands apart from the text behind it. -/
def Apart : Shape → List Char → List Char → Prop
  | .word, w, a => Run letters .word w ∧ Stops isWordChar a ∧ Stops isIdentChar a
  | .int, w, a => Run .digit Token.intChars w ∧ Stops Token.intChars.contains a ∧ NoFraction (w ++ a)
  | .float, w, a => Fraction w ∧ Stops isDigit a
  | .symbol, w, a => w ∈ symbols ∧ (∀ x ∈ symbols, x <+: w ++ a → x <+: w) ∧ NoFraction (w ++ a)

section Lists

variable {α : Type} {x y u v : List α}

/-- A text without a mark that stands before the mark and more stands before the mark. -/
theorem isPrefix_of_not_mem {mark : α} (h : x <+: u ++ mark :: v) (hx : mark ∉ x) : x <+: u := by
  rcases List.prefix_or_prefix_of_prefix h (List.prefix_append u (mark :: v)) with hxu | ⟨z, rfl⟩
  · exact hxu
  · cases z with
    | nil => simp
    | cons d z =>
      rw [List.prefix_append_right_inj, List.cons_prefix_cons] at h
      rw [h.1] at hx
      exact absurd (List.mem_append_right u List.mem_cons_self) hx

end Lists

/-- A run of characters of a class ends before a text that does not go on with one. -/
theorem eq_append_of_stops {p : Char → Bool} {w a x r : List Char} (heq : w ++ a = x ++ r)
    (hx : ∀ c ∈ x, p c = true) (ha : Stops p a) : ∃ y, w = x ++ y ∧ r = y ++ a := by
  rcases List.append_eq_append_iff.1 heq with ⟨z, rfl, rfl⟩ | ⟨y, rfl, rfl⟩
  · cases z with
    | nil => exact ⟨[], by simp, by simp⟩
    | cons c z =>
      have hc := hx c (List.mem_append_right w List.mem_cons_self)
      rw [List.cons_append, stops_cons, hc] at ha
      cases ha
  · exact ⟨y, rfl, rfl⟩

/-- All characters of a word are word characters. -/
theorem forall_isWordChar {x : List Char} (h : Run letters .word x) :
    ∀ c ∈ x, isWordChar c = true := by
  obtain ⟨c, xs, rfl, hc, hxs⟩ := h
  exact List.forall_mem_cons.2 ⟨(of_letter hc).1, hxs⟩

/-! ## First characters -/

/-- Whether a token of some shape can start with a character. -/
def Shape.starts : Shape → Char → Bool
  | word, c => letters.contains c
  | int, c => isDigit c
  | float, c => isDigit c || c == '.'
  | symbol, c => symbolChars.contains c

/-- The shape of what a token takes. -/
def Token.shape : Token → Shape
  | word _ | bool | name => .word
  | int => .int
  | float => .float
  | mark _ | op _ => .symbol

/-- Only a fraction shares its first character with other shapes. -/
theorem Shape.eq_or_float {k k' : Shape} {c : Char} (h : k.starts c = true)
    (h' : k'.starts c = true) : k = k' ∨ k = .float ∧ k' ≠ .word ∨ k' = .float ∧ k ≠ .word := by
  have hletter (hc : letters.contains c = true) :
      isDigit c = false ∧ c ≠ '.' ∧ c ∉ symbolChars := by
    refine ⟨(of_letter hc).2.2.1, ?_, fun hmem => ?_⟩
    · rintro rfl
      revert hc
      decide
    · rw [(of_mem_symbolChars hmem).1] at hc
      cases hc
  have hdigit (hc : isDigit c = true) : c ∉ symbolChars := by
    intro hmem
    rw [(of_mem_symbolChars hmem).2.1] at hc
    cases hc
  cases k <;> cases k' <;> simp_all [Shape.starts]

/-- What a token takes starts as its shape does. -/
theorem Token.shape_starts {t : Token} {c : Char} (ht : t.Known) (h : t.starts c = true) :
    t.shape.starts c = true := by
  have hsymbol (h : t.texts.any (·.head? == some c) = true) : Shape.symbol.starts c = true := by
    obtain ⟨xs, hxs⟩ := mem_of_starts h
    exact List.contains_iff_mem.2
      (List.mem_flatten.2 ⟨_, Takes.mem_symbols ht hxs, List.mem_cons_self⟩)
  cases t with
  | mark text => exact hsymbol h
  | op set => exact hsymbol h
  | word | bool | name | int | float => exact h

/-- A token that stands apart starts as its shape does. -/
theorem Apart.head {k : Shape} {w a : List Char} (h : Apart k w a) :
    ∃ c ws, w = c :: ws ∧ k.starts c = true := by
  cases k with
  | word | int =>
    obtain ⟨⟨c, ws, rfl, hc, -⟩, -⟩ := h
    exact ⟨c, ws, rfl, hc⟩
  | float => exact Token.Takes.head (t := .float) trivial h
  | symbol =>
    have hne : ∀ text ∈ symbols, text ≠ [] := by decide +kernel
    obtain ⟨c, ws, rfl⟩ := List.exists_cons_of_ne_nil (hne w h.1)
    exact ⟨c, ws, rfl, List.contains_iff_mem.2 (List.mem_flatten.2 ⟨_, h.1, List.mem_cons_self⟩)⟩

/-! ## What is taken at the beginning of a token -/

section Takes

variable {k : Shape} {t : Token} {w a a' x r : List Char}

/-- Where a token stands apart, what is taken at its beginning is a beginning of it, before any text
that it stands apart from. What is left of the token is inside of it for the next token. -/
def TakesSame (t : Token) (w a' x : List Char) : Prop :=
  ∃ y, w = x ++ y ∧ t.Takes x (y ++ a') ∧ ∀ c ∈ y.head?, t.after.inside c = true

/-- A token of its own kind is taken as a whole. -/
theorem takesSame_self (ht : t.Known) (hw : t.Takes w a) (hw' : t.Takes w a') (hx : t.Takes x r)
    (heq : w ++ a = x ++ r) : TakesSame t w a' x := by
  obtain ⟨rfl, -⟩ := hw.unique ht hx heq
  exact ⟨[], by simp, hw', nofun⟩

/-- A keyword at the beginning of a word, which may go on with a character that ends keywords but not
names. -/
theorem takesSame_word {text : List Char} (ht : text ∈ keywords) (h : Apart .word w a)
    (h' : Apart .word w a') (hx : Token.Takes (.word text) x r) (heq : w ++ a = x ++ r) :
    TakesSame (.word text) w a' x := by
  obtain ⟨rfl, hr⟩ := hx
  have hword := forall_isWordChar (Token.run_of_mem_words (List.mem_append_left truthValues ht))
  obtain ⟨y, rfl, rfl⟩ := eq_append_of_stops heq hword h.2.1
  refine ⟨y, rfl, ⟨rfl, ?_⟩, fun c hc => ?_⟩
  · cases y with
    | nil => exact h'.2.2
    | cons c y => exact stops_cons.2 (stops_cons.1 hr)
  · obtain ⟨ys, rfl⟩ := List.head?_eq_some_iff.1 hc
    have hc' := forall_isWordChar h.1 c (by simp)
    simp [Token.after, Mode.inside, hc', stops_cons.1 hr]

/-- A truth value at the beginning of a word is the whole word. -/
theorem takesSame_bool (h : Apart .word w a) (h' : Apart .word w a') (hx : Token.Takes .bool x r)
    (heq : w ++ a = x ++ r) : TakesSame .bool w a' x := by
  have hword := forall_isWordChar (Token.run_of_mem_words (List.mem_append_right keywords hx.1))
  obtain ⟨y, rfl, rfl⟩ := eq_append_of_stops heq hword h.2.1
  cases y with
  | nil => exact ⟨[], rfl, ⟨hx.1, h'.2.1⟩, nofun⟩
  | cons c y =>
    have hc := stops_cons.1 hx.2
    rw [forall_isWordChar h.1 c (by simp)] at hc
    cases hc

/-- What is left of a symbol behind the longest beginning that a token takes. After a postfix operator
was refused there is no operator between operands that is the beginning of one. -/
theorem inside_of_symbols : ∀ t ∈ symbolTokens, ∀ w ∈ symbols,
    (t = .op .binaryOp → w ∉ (Token.op .postfixOp).texts) → ∀ x ∈ t.texts, x <+: w →
      (∀ z ∈ t.texts, z <+: w → z <+: x) →
        (w.drop x.length).head?.all t.after.inside = true := by decide +kernel

/-- A fixed token or an operator at the beginning of a symbol. -/
theorem takesSame_symbol (ht : t.Known) (h : Apart .symbol w a) (h' : Apart .symbol w a')
    (hpost : t = .op .binaryOp → (Token.op .postfixOp).Refuses (w ++ a))
    (hx : LongestOf t.texts x r) (htakes : ∀ {r}, LongestOf t.texts x r → t.Takes x r)
    (heq : w ++ a = x ++ r) : TakesSame t w a' x := by
  have hmem {z : List Char} (hz : z ∈ t.texts) : z ∈ symbols := Token.Takes.mem_symbols ht hz
  have hxw : x <+: w := h.2.1 x (hmem hx.1) (heq ▸ List.prefix_append x r)
  have hlongest : ∀ z ∈ t.texts, z <+: w → z <+: x := fun z hz hzw =>
    hx.2 z hz (heq ▸ hzw.trans (List.prefix_append w a))
  have hnot : t = .op .binaryOp → w ∉ (Token.op .postfixOp).texts := by
    intro hop hw
    refine hpost hop w a rfl ⟨hw, fun z hz hzw => ?_⟩
    exact h.2.1 z (Token.Takes.mem_symbols (t := .op .postfixOp) trivial hz) hzw
  have hinside := inside_of_symbols t (Token.mem_symbolTokens ht hx.1) w h.1 hnot x hx.1 hxw hlongest
  obtain ⟨y, rfl⟩ := hxw
  rw [List.drop_left] at hinside
  refine ⟨y, rfl, htakes ⟨hx.1, fun z hz hzr => ?_⟩, fun c hc => ?_⟩
  · rw [← List.append_assoc] at hzr
    exact hlongest z hz (h'.2.1 z (hmem hz) hzr)
  · rw [hc] at hinside
    exact hinside

/-- The point is the only symbol at the beginning of a fraction. -/
theorem eq_point_of_isPrefix {e : Char} (rest : List Char) (hx : x ∈ symbols)
    (h : x <+: '.' :: e :: rest) (he : isDigit e = true) : x = ['.'] := by
  have hall : ∀ x ∈ symbols, x ≠ [] ∧ (x.head? = some '.' → x = ['.'] ∨ x[1]? = some '.') := by
    decide +kernel
  obtain ⟨hne, hpoint⟩ := hall x hx
  obtain ⟨c, xs, rfl⟩ := List.exists_cons_of_ne_nil hne
  rw [List.cons_prefix_cons] at h
  obtain ⟨rfl, h⟩ := h
  rcases hpoint rfl with hx | hsecond
  · exact hx
  · cases xs with
    | nil => cases hsecond
    | cons d xs =>
      rw [List.cons_prefix_cons] at h
      cases hsecond
      rw [← h.1, not_isDigit_point] at he
      cases he

/-- A fixed token or an operator at the beginning of a fraction is its point. -/
theorem takesSame_point (ht : t.Known) (h : Apart .float w a) (hx : LongestOf t.texts x r)
    (htakes : ∀ {r}, LongestOf t.texts x r → t.Takes x r) (heq : w ++ a = x ++ r) :
    TakesSame t w a' x := by
  have hmem {z : List Char} (hz : z ∈ t.texts) : z ∈ symbols := Token.Takes.mem_symbols ht hz
  obtain ⟨⟨ds, es, rfl, hds, ⟨e, es', rfl, he, hes⟩⟩, ha⟩ := h
  cases ds with
  | cons d ds =>
    -- A fraction that starts with a digit starts with no symbol.
    have hne : ∀ text ∈ symbols, text ≠ [] := by decide +kernel
    obtain ⟨c, xs, rfl⟩ := List.exists_cons_of_ne_nil (hne x (hmem hx.1))
    have hcd : d = c := (List.cons.inj heq).1
    have hd := (of_mem_symbolChars (List.mem_flatten.2 ⟨_, hmem hx.1, List.mem_cons_self⟩)).2.1
    rw [← hcd, hds d List.mem_cons_self] at hd
    cases hd
  | nil =>
    have hpoint {z s : List Char} (hz : z ∈ t.texts) (h : z <+: '.' :: e :: s) : z = ['.'] :=
      eq_point_of_isPrefix s (hmem hz) h he
    have hx' : x = ['.'] := by
      refine hpoint hx.1 (s := es' ++ a) ?_
      change x <+: [] ++ '.' :: e :: es' ++ a
      rw [heq]
      exact List.prefix_append x r
    subst hx'
    refine ⟨e :: es', rfl, htakes ⟨hx.1, fun z hz hzr => ?_⟩, fun c hc => ?_⟩
    · exact ⟨[], by rw [hpoint hz hzr, List.append_nil]⟩
    · have hafter : ∀ t ∈ symbolTokens, ['.'] ∈ t.texts → t.after = .name := by decide +kernel
      cases hc
      rw [hafter t (Token.mem_symbolTokens ht hx.1) hx.1]
      simp only [Mode.inside, Bool.or_eq_true]
      exact .inr he

/-- Everything that is tried at the beginning of a token takes the same before two texts that it
stands apart from. An integer is tried only where a fraction was refused, and an operator between
operands only where a postfix operator was. -/
theorem Apart.takes (ht : t.Known) (h : Apart k w a) (h' : Apart k w a')
    (hfloat : t = .int → Token.float.Refuses (w ++ a))
    (hpost : t = .op .binaryOp → (Token.op .postfixOp).Refuses (w ++ a))
    (hx : t.Takes x r) (heq : w ++ a = x ++ r) : TakesSame t w a' x := by
  obtain ⟨c, ws, hw, hc⟩ := h.head
  obtain ⟨d, xs, hd, hd'⟩ := hx.head ht
  have hcd : c = d := by
    rw [hw, hd] at heq
    exact (List.cons.inj heq).1
  subst hcd
  have hshape := Shape.eq_or_float hc (Token.shape_starts ht hd')
  cases k with
  | word =>
    cases t with
    | word text => exact takesSame_word ht h h' hx heq
    | bool => exact takesSame_bool h h' hx heq
    | name => exact takesSame_self ht ⟨h.1, h.2.1⟩ ⟨h'.1, h'.2.1⟩ hx heq
    | int | float | mark | op => simp [Token.shape] at hshape
  | int =>
    cases t with
    | int => exact takesSame_self ht ⟨h.1, h.2.1⟩ ⟨h'.1, h'.2.1⟩ hx heq
    | float => exact absurd (heq ▸ List.prefix_append x r) (h.2.2 x hx.1)
    | word | bool | name | mark | op => simp [Token.shape] at hshape
  | float =>
    cases t with
    | float => exact takesSame_self ht h h' hx heq
    | int => exact absurd h (hfloat rfl w a rfl)
    | mark text => exact takesSame_point ht h hx id heq
    | op set => exact takesSame_point ht h hx id heq
    | word | bool | name => simp [Token.shape] at hshape
  | symbol =>
    cases t with
    | float => exact absurd (heq ▸ List.prefix_append x r) (h.2.2 x hx.1)
    | mark text => exact takesSame_symbol ht h h' hpost hx id heq
    | op set => exact takesSame_symbol ht h h' hpost hx id heq
    | word | bool | name | int => simp [Token.shape] at hshape

end Takes

/-! ## Putting a space into the text behind a token -/

/-- A run without spaces that stops in front of a text stops there when a space is put into it. -/
theorem stops_space {p : Char → Bool} {s b : List Char} (h : Stops p (s ++ b)) (hp : p ' ' = false) :
    Stops p (s ++ ' ' :: b) := by
  cases s with
  | nil => exact stops_cons.2 hp
  | cons c s => exact stops_cons.2 (stops_cons.1 h)

/-- There is no space in a fraction. -/
theorem not_mem_fraction {x : List Char} (h : Fraction x) : ' ' ∉ x := by
  have hspace : isDigit ' ' = false := by decide
  have hdigits {cs : List Char} (hcs : ∀ c ∈ cs, isDigit c = true) : ' ' ∉ cs := by
    intro hmem
    rw [hcs ' ' hmem] at hspace
    cases hspace
  obtain ⟨ds, es, rfl, hds, ⟨e, es, rfl, he, hes⟩⟩ := h
  have hes' := hdigits (List.forall_mem_cons.2 ⟨he, hes⟩)
  simp [hdigits hds, hes']

/-- A text that does not start with a fraction does not either with a space put into it. -/
theorem NoFraction.space {w s b : List Char} (h : NoFraction (w ++ (s ++ b))) :
    NoFraction (w ++ (s ++ ' ' :: b)) := by
  intro x hx hle
  rw [← List.append_assoc] at hle h
  exact h x hx ((isPrefix_of_not_mem hle (not_mem_fraction hx)).trans (List.prefix_append (w ++ s) b))

/-- A token stays apart when a space is put into the text behind it. -/
theorem Apart.space {k : Shape} {w s b : List Char} (h : Apart k w (s ++ b)) :
    Apart k w (s ++ ' ' :: b) := by
  cases k with
  | word => exact ⟨h.1, stops_space h.2.1 (by decide), stops_space h.2.2 (by decide)⟩
  | int => exact ⟨h.1, stops_space h.2.1 (by decide), h.2.2.space⟩
  | float => exact ⟨h.1, stops_space h.2 (by decide)⟩
  | symbol =>
    refine ⟨h.1, fun x hx hle => h.2.1 x hx ?_, h.2.2.space⟩
    have hspace : ' ' ∉ x := by
      intro hmem
      have hblank := (of_mem_symbolChars (List.mem_flatten.2 ⟨x, hx, hmem⟩)).2.2.2.2
      revert hblank
      decide
    rw [← List.append_assoc] at hle ⊢
    exact (isPrefix_of_not_mem hle hspace).trans (List.prefix_append (w ++ s) b)

/-! ## Tokens that are read stand apart -/

section Read

variable {t : Token} {w a : List Char}

/-- Where a fraction is refused there is none. -/
theorem noFraction_of_refuses {cs : List Char} (h : Token.float.Refuses cs) : NoFraction cs := by
  rintro x ⟨ds, es, rfl, hds, ⟨e, es, rfl, he, hes⟩⟩ ⟨r, rfl⟩
  obtain ⟨more, r, rfl, hmore, hr⟩ := exists_run isDigit r
  refine h (ds ++ '.' :: (e :: es ++ more)) r (by simp) ⟨⟨ds, _, rfl, hds, ?_⟩, hr⟩
  refine ⟨e, es ++ more, rfl, he, fun c hc => ?_⟩
  rcases List.mem_append.1 hc with hc | hc
  · exact hes c hc
  · exact hmore c hc

/-- A symbol that goes on with another one is taken as the other one, or cannot go on so. -/
theorem symbols_extend : ∀ t ∈ symbolTokens, ∀ w ∈ t.texts, ∀ x ∈ symbols, w <+: x →
    x ∈ t.texts ∨ (t = .op .binaryOp ∧ x ∈ (Token.op .postfixOp).texts) ∨
      (x.drop w.length).head?.all (fun c => !isBlank c && c != '/' && !t.after.starts c) = true := by
  decide +kernel

/-- No symbol is longer than the one that is taken. -/
theorem symbols_le_of_takes (ht : t.Known) (hw : LongestOf t.texts w a)
    (hpost : t = .op .binaryOp → (Token.op .postfixOp).Refuses (w ++ a))
    (ha : t.after.Follows a) : ∀ x ∈ symbols, x <+: w ++ a → x <+: w := by
  intro x hx hle
  rcases List.prefix_or_prefix_of_prefix hle (List.prefix_append w a) with hxw | hwx
  · exact hxw
  · rcases symbols_extend t (Token.mem_symbolTokens ht hw.1) w hw.1 x hx hwx with
      hmem | ⟨hop, hmem⟩ | hnext
    · exact hw.2 x hmem hle
    · have hsizes : ∀ y ∈ (Token.op .postfixOp).texts, y.length = 2 := by decide
      obtain ⟨r, hr⟩ := hle
      refine absurd ⟨hmem, fun y hy hyr => ?_⟩ (hpost hop x r hr.symm)
      exact List.prefix_of_prefix_length_le hyr (List.prefix_append x r)
        (Nat.le_of_eq ((hsizes y hy).trans (hsizes x hmem).symm))
    · obtain ⟨z, rfl⟩ := hwx
      cases z with
      | nil => simp
      | cons c z =>
        rw [List.prefix_append_right_inj] at hle
        obtain ⟨r, rfl⟩ := hle
        simp only [List.drop_left, List.head?_cons, Option.all_some, Bool.and_eq_true,
          Bool.not_eq_true', bne_iff_ne] at hnext
        rcases ha c (by simp) with hblank | hslash | hstarts
        · simp [hblank] at hnext
        · exact absurd hslash hnext.1.2
        · simp [hstarts] at hnext

/-- No fraction starts with a symbol that is taken. -/
theorem noFraction_of_takes (ht : t.Known) (hw : w ∈ t.texts) (ha : t.after.Follows a) :
    NoFraction (w ++ a) := by
  have hmem : w ∈ symbols := Token.Takes.mem_symbols ht hw
  rintro x ⟨ds, es, rfl, hds, ⟨e, es, rfl, he, -⟩⟩ ⟨r, hr⟩
  cases ds with
  | cons d ds =>
    have hne : ∀ text ∈ symbols, text ≠ [] := by decide +kernel
    obtain ⟨c, ws, rfl⟩ := List.exists_cons_of_ne_nil (hne w hmem)
    have hcd : d = c := (List.cons.inj hr).1
    have hd := (of_mem_symbolChars (List.mem_flatten.2 ⟨_, hmem, List.mem_cons_self⟩)).2.1
    rw [← hcd, hds d List.mem_cons_self] at hd
    cases hd
  | nil =>
    have hpoint : w = ['.'] := by
      refine eq_point_of_isPrefix (es ++ r) hmem ?_ he
      change w <+: [] ++ '.' :: e :: es ++ r
      rw [hr]
      exact List.prefix_append w a
    subst hpoint
    have hafter : ∀ t ∈ symbolTokens, ['.'] ∈ t.texts → t.after = .name := by decide +kernel
    rw [hafter t (Token.mem_symbolTokens ht hw) hw] at ha
    have ha' : a = e :: es ++ r := (List.cons.inj hr).2.symm
    have hdigit : isDigit e = true := he
    rcases ha e (by simp [ha']) with hblank | rfl | hletter
    · simp [(not_of_isBlank hblank).1] at hdigit
    · revert hdigit
      decide
    · simp [(of_letter hletter).2.2.1] at hdigit

/-- What stands behind a word and can be read next is in neither of the two classes of which it is
not in one. -/
theorem stops_of_follows {p : Char → Bool} (hletter : ∀ c, letters.contains c = true → p c = true)
    (hdigit : ∀ c, isDigit c = true → p c = true) (ha : Mode.any.Follows a) (hp : Stops p a) :
    Stops isWordChar a ∧ Stops isIdentChar a := by
  cases a with
  | nil => exact ⟨stops_nil _, stops_nil _⟩
  | cons c a =>
    have hc : p c = false := stops_cons.1 hp
    rw [stops_cons, stops_cons]
    have hsymbol : c ∈ symbolChars → isWordChar c = false ∧ isIdentChar c = false := fun hmem =>
      ⟨(of_mem_symbolChars hmem).2.2.1, (of_mem_symbolChars hmem).2.2.2.1⟩
    rcases ha c rfl with hblank | rfl | hstarts
    · exact (not_of_isBlank hblank).2
    · exact hsymbol (by decide +kernel)
    · simp only [Mode.starts, Bool.or_eq_true, List.contains_iff_mem] at hstarts
      rcases hstarts with (hc' | hc') | hc'
      · rw [hletter c hc'] at hc
        cases hc
      · rw [hdigit c hc'] at hc
        cases hc
      · exact hsymbol hc'

/-- A token that is read stands apart from a text that goes on as it has to after the token. -/
theorem Token.Takes.apart (ht : t.Known) (h : t.Takes w a)
    (hfloat : t = .int → Token.float.Refuses (w ++ a))
    (hpost : t = .op .binaryOp → (Token.op .postfixOp).Refuses (w ++ a))
    (ha : t.after.Follows a) : Apart t.shape w a := by
  have hword : Stops isWordChar a → Mode.any.Follows a → Stops isWordChar a ∧ Stops isIdentChar a :=
    fun hstops ha => stops_of_follows (fun _ hc => (of_letter hc).1)
      (fun _ hc => isWordChar_of_isDigit hc) ha hstops
  cases t with
  | word text =>
    obtain ⟨rfl, hstops⟩ := h
    exact ⟨run_of_mem_words (List.mem_append_left _ ht),
      stops_of_follows (fun _ hc => (of_letter hc).2.1) (fun _ hc => isIdentChar_of_isDigit hc) ha
        hstops⟩
  | bool => exact ⟨run_of_mem_words (List.mem_append_right _ h.1), hword h.2 ha⟩
  | name => exact ⟨h.1, hword h.2 ha⟩
  | int => exact ⟨h.1, h.2, noFraction_of_refuses (hfloat rfl)⟩
  | float => exact h
  | mark text =>
    exact ⟨mem_symbols ht h.1, symbols_le_of_takes ht h hpost ha, noFraction_of_takes ht h.1 ha⟩
  | op set =>
    exact ⟨mem_symbols ht h.1, symbols_le_of_takes ht h hpost ha, noFraction_of_takes ht h.1 ha⟩

end Read

end ExpLang.Syntax
