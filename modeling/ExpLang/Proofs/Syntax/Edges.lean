import ExpLang.Proofs.Lexing.Skipping
import ExpLang.Proofs.Matching.Tightness
import ExpLang.Proofs.Syntax.Cutting
import ExpLang.Proofs.Syntax.Excerpts
import ExpLang.Proofs.Syntax.Ranks

/-!
# No construct starts or ends with a gap

In each rule of the language the first part that is not missing reads something: lists that may be
empty stand behind a keyword, a bracket, a name or an operand. So a node of a parsed source starts
where its first token starts and ends where its last one ends, and what is passed over between tokens
lies inside of a node or outside of it, never at one of its ends.
-/

namespace ExpLang

open Text

variable {κ : Type}

namespace Skipper

variable {sk : Skipper} {source : Source}

/-- Nothing is passed over in front of spans that follow each other. -/
theorem Tiles.skipFrom_start {pos stop : Nat} {spans : List Span}
    (h : sk.Tiles source pos spans stop) : ∀ s ∈ spans, sk.skipFrom source s.start = s.start := by
  induction spans generalizing pos with
  | nil => exact fun _ hs => absurd hs List.not_mem_nil
  | cons span rest ih =>
    obtain ⟨hstart, -, hrest⟩ := h
    rw [List.forall_mem_cons]
    refine ⟨?_, ih hrest⟩
    rw [hstart, skipFrom_skipFrom]

end Skipper

namespace Syntax

/-- The sequences in the rules open with something that is read. -/
theorem hugs_check : ∀ k ∈ Kind.all, ∀ rule ∈ language.rule? k,
    rule.body.hugs Kind.isSolid = true := by
  decide +kernel

/-- The sequences of the language open with something that is read. -/
theorem language_hugging : language.Hugging Kind.isSolid where
  reads := language_ranked.reads
  hugs k rule hrule := hugs_check k k.mem_all rule hrule
  refs _ h := absurd h List.not_mem_nil

/-- In a source that parses, whatever is passed over between tokens, each node with a token covers
exactly the text from the start of its first token to the end of its last one. Nothing would be passed
over where it starts, and what it ends with is a token that is some text. A node without a token covers
nothing. The bound is that of 32-bit offsets. -/
theorem node_spans_tight : grammar = .ok language ∧
    ∀ (start : Kind) (source : Source) (config : ParseConfig) (parsed : Parsed Kind),
      source.size < UInt32.size → language.parse start source config = .ok parsed →
      ∀ i n, parsed.tree.nodes.Under parsed.root i → parsed.tree.nodes[i]? = some n →
        ∃ t, parsed.tree.nodes.treeAt? i = some t ∧ t.kind = n.kind ∧
          (t.tokens = [] → n.span.isEmpty = true) ∧
          ∀ h : t.tokens ≠ [],
            n.span = ⟨(t.tokens.head h).start, (t.tokens.getLast h).stop⟩ ∧
            config.skipper.skipFrom source n.span.start = n.span.start ∧
            ∀ s ∈ t.tokens, s.start < s.stop := by
  refine ⟨grammar_eq, fun start source config parsed _ hparse i n hi hn => ?_⟩
  obtain ⟨root, hroot, htight⟩ := language_hugging.parse_tight hparse
  obtain ⟨stop, htiles⟩ := Grammar.tiles_of_parse language_isSkipFree hparse hroot
  obtain ⟨t, ht, htighthere, hsubset⟩ := htight.under hroot hi
  have hspan := Arena.span_of_treeAt? hn ht
  refine ⟨t, ht, (Arena.node_of_treeAt? hn ht).1, fun hnil => ?_, fun hne => ?_⟩
  · rw [← hspan]
    exact htighthere.isEmpty_span hnil
  · have hends := hspan.symm.trans (htighthere.span_eq hne)
    have hfirst := htiles.skipFrom_start _ (hsubset (List.head_mem hne))
    refine ⟨hends, ?_, htighthere.token_lt⟩
    rw [hends]
    exact hfirst

/-- A declaration between blanks and a comment. -/
theorem node_spans_tight_declaration :
    ∃ parsed n t, language.parse .stms (.ofText "main" "  var x : Foo ; // done") (parseConfig 2000) =
        .ok parsed ∧
      parsed.tree.nodes[parsed.root]? = some n ∧ n.kind = .rule .stms ∧ n.span = ⟨2, 15⟩ ∧
      parsed.tree.nodes.treeAt? parsed.root = some t ∧
      ∃ h : t.tokens ≠ [], (t.tokens.head h).start = 2 ∧ (t.tokens.getLast h).stop = 15 := by
  have hok : ((language.parse .stms (.ofText "main" "  var x : Foo ; // done")
      (parseConfig 2000)).toOption.any fun parsed => parsed.tree.nodes[parsed.root]?.any fun n =>
        n.kind = .rule .stms && n.span = ⟨2, 15⟩) = true := by decide +kernel
  cases hparse : language.parse .stms (.ofText "main" "  var x : Foo ; // done")
      (parseConfig 2000) with
  | error e =>
    rw [hparse] at hok
    cases hok
  | ok parsed =>
    rw [hparse, Except.toOption, Option.any_some, Option.any_eq_true] at hok
    obtain ⟨n, hn, hnode⟩ := hok
    rw [Bool.and_eq_true, decide_eq_true_eq, decide_eq_true_eq] at hnode
    obtain ⟨t, ht, -, hnil, hne⟩ := node_spans_tight.2 _ _ _ parsed (by decide) hparse parsed.root n
      .refl hn
    have htokens : t.tokens ≠ [] := by
      intro h
      have hempty := hnil h
      rw [hnode.2] at hempty
      cases hempty
    obtain ⟨hspan, -, -⟩ := hne htokens
    rw [hnode.2, Span.mk.injEq] at hspan
    exact ⟨parsed, n, t, rfl, hn, hnode.1, hnode.2, ht, htokens, hspan.1.symm, hspan.2.symm⟩

end Syntax

end ExpLang
