import ExpLang.Proofs.Lexing.Characters
import ExpLang.Proofs.Lexing.Gaps
import ExpLang.Proofs.Lexing.Readers

/-!
# The tokens of the language

The matchers of the language that read text are few: keywords, marks, four sets of operators and four
patterns. `Token.Takes` says of each which text it takes before which other text.

A token is read at the beginning of a text, and what the token before it was restricts what it can
be. `Mode` tells the restrictions apart. After an operator an operand starts, after the point of an
access a name does, and anything else may be followed by any token. `Mode.Follows` says how a text
goes on that is read next.

Readers also fail in places where no token of the final tree starts: a mark or an operator may be the
beginning of a longer one, and a keyword the beginning of a name. `Mode.Inside` says which characters
can follow then, and no token that is tried there starts with one of them.
-/

namespace ExpLang.Syntax

open Text

/-- The words that are fixed tokens. -/
def keywords : List (List Char) :=
  ["lazy", "var", "function", "static", "class", "else", "if", "for", "in", "while", "return"].map
    String.toList

/-- The other fixed tokens. -/
def marks : List (List Char) :=
  ["[]", ":", "=", ";", ",", "=>", "(", ")", "\x7b", "\x7d", ".", "[", "]"].map String.toList

/-- The sets of operators of which the longest one is taken. -/
inductive OpSet where
  | prefixOp
  | binaryOp
  | postfixOp
  | initMark
  deriving DecidableEq

/-- The members of a set of operators. -/
def OpSet.literals : OpSet → Literals
  | prefixOp => .ofList (["++", "--", "+", "-", "!", "~"].map String.toList)
  | binaryOp => .ofList ((BinaryOp.all.map BinaryOp.symbol).map String.toList)
  | postfixOp => .ofList (["++", "--"].map String.toList)
  | initMark => .ofList (["=>", "="].map String.toList)

/-- The kinds of tokens. -/
inductive Token where
  /-- A keyword. -/
  | word (text : List Char)
  /-- A fixed token that is no word. -/
  | mark (text : List Char)
  /-- The longest of some operators. -/
  | op (set : OpSet)
  /-- A fraction. -/
  | float
  /-- An integer. -/
  | int
  /-- A truth value. -/
  | bool
  /-- A name. -/
  | name
  deriving DecidableEq

namespace Token

/-- The texts of a token that is no word and no literal. -/
def texts : Token → List (List Char)
  | mark text => [text]
  | op set => set.literals.toList
  | _ => []

/-- The characters of an integer. -/
def intChars : CharSet := .union .digit (.single '_')

/-- Whether a fixed token is one of the language. -/
def Known : Token → Prop
  | word text => text ∈ keywords
  | mark text => text ∈ marks
  | _ => True

/-- The reader of a token. -/
def read : Token → Cursor → Option Cursor
  | word text | mark text => readLiteral text
  | op set => readLiterals set.literals
  | float => floatPattern.reader.readAt
  | int => intPattern.reader.readAt
  | bool => boolPattern.reader.readAt
  | name => idPattern.reader.readAt

/-- Which text a token takes before which other text. -/
def Takes : Token → List Char → List Char → Prop
  | word text, x, r => x = text ∧ Stops isIdentChar r
  | mark text, x, r => LongestOf (mark text).texts x r
  | op set, x, r => LongestOf (op set).texts x r
  | float, x, r => Fraction x ∧ Stops isDigit r
  | int, x, r => Run .digit intChars x ∧ Stops intChars.contains r
  | bool, x, r => x ∈ truthValues ∧ Stops isWordChar r
  | name, x, r => Run letters .word x ∧ Stops isWordChar r

variable {t : Token}

/-- A token is read exactly where it can be taken. -/
theorem readsBy (h : t.Known) : ReadsBy t.read t.Takes := by
  cases t with
  | word text =>
    have hwords : ∀ text ∈ keywords, text.getLast?.any isIdentChar = true := by decide
    have hword := hwords text h
    intro c c'
    refine (readLiteral_readsBy text c c').trans ?_
    simp [Takes, atWordEnd, hword, Stops]
  | mark text =>
    have hmarks : ∀ text ∈ marks, text.getLast?.any isIdentChar = false := by decide
    have hmark := hmarks text h
    intro c c'
    refine (readLiteral_readsBy text c c').trans ?_
    simp only [Takes, texts, LongestOf, atWordEnd, hmark]
    grind
  | op set => exact Literals.Ordered.readsBy (by cases set <;> decide +kernel)
  | float => exact float_readsBy
  | int => exact int_readsBy
  | bool => exact bool_readsBy
  | name => exact id_readsBy

/-- A token is taken in one way only. -/
theorem Takes.unique {x r x' r' : List Char} (ht : t.Known) (h : t.Takes x r) (h' : t.Takes x' r')
    (heq : x ++ r = x' ++ r') : x = x' ∧ r = r' := by
  have hread := (readsBy ht ⟨0, x ++ r⟩ ⟨0 + byteLength x, r⟩).2 ⟨x, rfl, rfl, h⟩
  have hread' := (readsBy ht ⟨0, x ++ r⟩ ⟨0 + byteLength x', r'⟩).2 ⟨x', heq, rfl, h'⟩
  rw [hread] at hread'
  have hr : r = r' := congrArg Cursor.rest (Option.some.inj hread')
  rw [hr] at heq
  exact ⟨List.append_cancel_right heq, hr⟩

/-- A token cannot be taken at the beginning of a text. -/
def Refuses (t : Token) (cs : List Char) : Prop := ∀ x r, cs = x ++ r → ¬ t.Takes x r

end Token

/-- The fixed tokens and operators. -/
def symbolTokens : List Token :=
  marks.map .mark ++ [.op .prefixOp, .op .binaryOp, .op .postfixOp, .op .initMark]

/-- The texts of the fixed tokens and operators. -/
def symbols : List (List Char) := symbolTokens.flatMap Token.texts

/-- The characters of the fixed tokens and operators. -/
def symbolChars : List Char := symbols.flatten

/-- The characters of fixed tokens and operators are in none of the classes. -/
theorem of_mem_symbolChars {c : Char} (h : c ∈ symbolChars) :
    letters.contains c = false ∧ isDigit c = false ∧ isWordChar c = false ∧
      isIdentChar c = false ∧ isBlank c = false := by
  have hall : symbolChars.all (fun c => decide (letters.contains c = false ∧ isDigit c = false ∧
      isWordChar c = false ∧ isIdentChar c = false ∧ isBlank c = false)) = true := by decide +kernel
  exact of_decide_eq_true (List.all_eq_true.1 hall c h)

/-- What can be read next. -/
inductive Mode where
  /-- Any token. -/
  | any
  /-- The beginning of an operand. -/
  | operand
  /-- A name. -/
  | name
  deriving DecidableEq

namespace Mode

/-- The characters other than letters and digits with which an operand can start. -/
def operandChars : List Char := ['.', '+', '-', '!', '~', '(']

/-- Whether a token that can be read next starts with a character. -/
def starts : Mode → Char → Bool
  | any, c => letters.contains c || isDigit c || symbolChars.contains c
  | operand, c => letters.contains c || isDigit c || operandChars.contains c
  | name, c => letters.contains c

/-- Whether a character can follow the beginning of a token that was taken for the whole. -/
def inside : Mode → Char → Bool
  | any, c => isWordChar c && !isIdentChar c
  | operand, c => ['=', '>', ']'].contains c
  | name, c => c == '.' || isDigit c

/-- A text goes on with a gap or with what can be read next. -/
def Follows (mode : Mode) (cs : List Char) : Prop :=
  ∀ c ∈ cs.head?, isBlank c = true ∨ c = '/' ∨ mode.starts c = true

/-- No token that can be read next starts inside of a longer one. -/
theorem not_starts_of_inside {mode : Mode} {c : Char} (h : mode.inside c = true) :
    mode.starts c = false := by
  refine Bool.eq_false_iff.2 fun hstarts => ?_
  cases mode with
  | any =>
    simp only [inside, Bool.and_eq_true, Bool.not_eq_true'] at h
    simp only [starts, Bool.or_eq_true, List.contains_iff_mem] at hstarts
    rcases hstarts with (hletter | hdigit) | hsymbol
    · simp [(of_letter hletter).2.1] at h
    · simp [isIdentChar_of_isDigit hdigit] at h
    · simp [(of_mem_symbolChars hsymbol).2.2.1] at h
  | operand =>
    have hall : ['=', '>', ']'].all (!starts operand ·) = true := by decide
    have hnot := List.all_eq_true.1 hall c (List.contains_iff_mem.1 h)
    rw [hstarts] at hnot
    cases hnot
  | name =>
    simp only [inside, Bool.or_eq_true, beq_iff_eq] at h
    rcases h with rfl | hdigit
    · revert hstarts
      decide
    · simp [(of_letter hstarts).2.2.1] at hdigit

/-- Inside of a token there is no gap. -/
theorem solid_of_inside {mode : Mode} {c : Char} (h : mode.inside c = true) (cs : List Char) :
    Skipper.Solid (c :: cs) := by
  have hblank : isBlank c = false := by
    refine Bool.eq_false_iff.2 fun hblank => ?_
    have hnot := not_of_isBlank hblank
    cases mode with
    | any => simp [inside, hnot] at h
    | operand =>
      have hall : ['=', '>', ']'].all (!isBlank ·) = true := by decide
      have hsolid := List.all_eq_true.1 hall c (List.contains_iff_mem.1 h)
      rw [hblank] at hsolid
      cases hsolid
    | name =>
      simp only [inside, Bool.or_eq_true, beq_iff_eq] at h
      rcases h with rfl | hdigit
      · revert hblank
        decide
      · simp [hnot] at hdigit
  refine Skipper.solid_cons hblank ?_
  rintro rfl
  have hslash : mode.inside '/' = false := by cases mode <;> decide
  rw [hslash] at h
  cases h

end Mode

namespace Token

/-- What can be read after a token. -/
def after : Token → Mode
  | mark text => if text = ['.'] then .name else if text ∈ [['='], ['[']] then .operand else .any
  | op .postfixOp => .any
  | op _ => .operand
  | _ => .any

/-- Whether a token can be read next. -/
def isAllowed : Mode → Token → Bool
  | .any, _ => true
  | .operand, t => [float, int, bool, name, op .prefixOp, mark ['(']].contains t
  | .name, t => t == name

/-- Whether a token can start with a character. -/
def starts : Token → Char → Bool
  | mark text, c => (mark text).texts.any (·.head? == some c)
  | op set, c => (op set).texts.any (·.head? == some c)
  | float, c => isDigit c || c == '.'
  | int, c => isDigit c
  | _, c => letters.contains c

variable {t : Token} {x r : List Char}

/-- A known token with fixed texts is one of the symbols. -/
theorem mem_symbolTokens (ht : t.Known) (hx : x ∈ t.texts) : t ∈ symbolTokens := by
  cases t with
  | mark text => exact List.mem_append_left _ (List.mem_map.2 ⟨text, ht, rfl⟩)
  | op set => cases set <;> decide
  | _ => cases hx

/-- Keywords and truth values are made like names. -/
theorem run_of_mem_words {text : List Char} (h : text ∈ keywords ++ truthValues) :
    Run letters .word text := by
  have hall : ∀ text ∈ keywords ++ truthValues, Run letters .word text := by decide
  exact hall text h

/-- The text that a fixed token or an operator takes is one of its texts. -/
theorem Takes.mem_symbols (ht : t.Known) (hx : x ∈ t.texts) : x ∈ symbols :=
  List.mem_flatMap.2 ⟨t, mem_symbolTokens ht hx, hx⟩

/-- A token takes something, and starts as its kind does. -/
theorem Takes.head (ht : t.Known) (h : t.Takes x r) : ∃ c xs, x = c :: xs ∧ t.starts c = true := by
  have hsymbol (hx : x ∈ t.texts) : ∃ c xs, x = c :: xs ∧ t.texts.any (·.head? == some c) = true := by
    have hne : ∀ text ∈ symbols, text ≠ [] := by decide +kernel
    obtain ⟨c, xs, rfl⟩ := List.exists_cons_of_ne_nil (hne x (Takes.mem_symbols ht hx))
    exact ⟨c, xs, rfl, List.any_eq_true.2 ⟨_, hx, by simp⟩⟩
  cases t with
  | mark text => exact hsymbol h.1
  | op set => exact hsymbol h.1
  | word text =>
    obtain ⟨rfl, -⟩ := h
    obtain ⟨c, xs, rfl, hc, -⟩ := run_of_mem_words (List.mem_append_left _ ht)
    exact ⟨c, xs, rfl, hc⟩
  | bool =>
    obtain ⟨c, xs, rfl, hc, -⟩ := run_of_mem_words (List.mem_append_right _ h.1)
    exact ⟨c, xs, rfl, hc⟩
  | name | int =>
    obtain ⟨⟨c, xs, rfl, hc, -⟩, -⟩ := h
    exact ⟨c, xs, rfl, hc⟩
  | float =>
    obtain ⟨⟨ds, es, rfl, hds, -⟩, -⟩ := h
    cases ds with
    | nil => exact ⟨'.', es, rfl, by decide⟩
    | cons d ds =>
      have hd : isDigit d = true := hds d List.mem_cons_self
      exact ⟨d, _, rfl, by simp [starts, hd]⟩

/-- What a fixed token or an operator starts with is the first character of one of its texts. -/
theorem mem_of_starts {c : Char} (h : t.texts.any (·.head? == some c) = true) :
    ∃ xs, c :: xs ∈ t.texts := by
  obtain ⟨text, htext, hhead⟩ := List.any_eq_true.1 h
  obtain ⟨xs, rfl⟩ := List.head?_eq_some_iff.1 (beq_iff_eq.1 hhead)
  exact ⟨xs, htext⟩

/-- A token that can be read next starts with a character that can be read next. -/
theorem starts_of_isAllowed {mode : Mode} {c : Char} (ht : t.Known)
    (hallowed : t.isAllowed mode = true) (h : t.starts c = true) : mode.starts c = true := by
  cases mode with
  | any =>
    have hsymbol (h : t.texts.any (·.head? == some c) = true) : Mode.any.starts c = true := by
      obtain ⟨xs, hxs⟩ := mem_of_starts h
      have hmem : c ∈ symbolChars :=
        List.mem_flatten.2 ⟨_, Takes.mem_symbols ht hxs, List.mem_cons_self⟩
      simp only [Mode.starts, List.contains_iff_mem.2 hmem, Bool.or_true]
    cases t with
    | mark text => exact hsymbol h
    | op set => exact hsymbol h
    | word | bool | name =>
      change letters.contains c = true at h
      simp [Mode.starts, h]
    | int =>
      change isDigit c = true at h
      simp [Mode.starts, h]
    | float =>
      simp only [starts, Bool.or_eq_true, beq_iff_eq] at h
      rcases h with h | rfl
      · simp [Mode.starts, h]
      · decide +kernel
  | operand =>
    have hsymbol (hmem : t ∈ [op .prefixOp, mark ['(']])
        (h : t.texts.any (·.head? == some c) = true) : Mode.operand.starts c = true := by
      have hall : ∀ t ∈ [op .prefixOp, mark ['(']], ∀ text ∈ t.texts,
          text.head?.all Mode.operandChars.contains = true := by decide
      obtain ⟨xs, hxs⟩ := mem_of_starts h
      have hc : Mode.operandChars.contains c = true := hall t hmem _ hxs
      simp only [Mode.starts, hc, Bool.or_true]
    simp only [isAllowed, List.contains_iff_mem, List.mem_cons, List.not_mem_nil, or_false]
      at hallowed
    rcases hallowed with rfl | rfl | rfl | rfl | rfl | rfl
    · simp only [starts, Bool.or_eq_true, beq_iff_eq] at h
      rcases h with h | rfl
      · simp [Mode.starts, h]
      · decide
    · change isDigit c = true at h
      simp [Mode.starts, h]
    · change letters.contains c = true at h
      simp [Mode.starts, h]
    · change letters.contains c = true at h
      simp [Mode.starts, h]
    · exact hsymbol (by decide) h
    · exact hsymbol (by decide) h
  | name =>
    rw [isAllowed, beq_iff_eq] at hallowed
    subst hallowed
    exact h

/-- A text at which a token is read that can be read next goes on as it should. -/
theorem Takes.follows {mode : Mode} (ht : t.Known) (hallowed : t.isAllowed mode = true)
    (h : t.Takes x r) : mode.Follows (x ++ r) := by
  obtain ⟨c, xs, rfl, hc⟩ := h.head ht
  intro d hd
  cases hd
  exact .inr (.inr (starts_of_isAllowed ht hallowed hc))

/-- No token that can be read next is taken inside of a longer one. -/
theorem refuses_of_inside {mode : Mode} {c : Char} {cs : List Char} (ht : t.Known)
    (hallowed : t.isAllowed mode = true) (h : mode.inside c = true) : t.Refuses (c :: cs) := by
  intro x r heq hx
  obtain ⟨d, xs, rfl, hd⟩ := hx.head ht
  cases heq
  have hstarts := starts_of_isAllowed ht hallowed hd
  rw [Mode.not_starts_of_inside h] at hstarts
  cases hstarts

end Token

/-- A gap goes on as any text should. -/
theorem Mode.follows_of_gap (mode : Mode) {gap rest : List Char}
    (hgap : Skipper.Passes Skipper.passGap gap rest) (hrest : gap = [] → mode.Follows rest) :
    mode.Follows (gap ++ rest) := by
  cases gap with
  | nil => exact hrest rfl
  | cons c gap =>
    intro d hd
    cases hd
    rcases hgap.head with hblank | hslash
    · exact .inl hblank
    · exact .inr (.inl hslash)

end ExpLang.Syntax
