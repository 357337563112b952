import ExpLang.Text.Blank
import ExpLang.Text.Word
import ExpLang.Grammar.Reader
import ExpLang.Compilation
import ExpLang.Evaluation.Session
import ExpLang.Proofs.Matching.Refinement
import ExpLang.Proofs.Matching.Tiling
import ExpLang.Proofs.Matching.Framing
import ExpLang.Proofs.Matching.Budget
import ExpLang.Proofs.Matching.Recursion
import ExpLang.Proofs.Matching.Forest
import ExpLang.Proofs.Matching.Validation
import ExpLang.Proofs.Checking.Verdicts
import ExpLang.Proofs.Compilation
import ExpLang.Proofs.Evaluation.Termination
import ExpLang.Proofs.Evaluation.Endless
import ExpLang.Proofs.Finiteness
import ExpLang.Proofs.Unresolved
import ExpLang.Proofs.Syntax.Agreement
import ExpLang.Proofs.Syntax.Ranks
import ExpLang.Proofs.Syntax.Whitespace
import ExpLang.Proofs.Frames
import ExpLang.Proofs.Syntax.Lexemes
import ExpLang.Proofs.Syntax.Grouping
import ExpLang.Proofs.Lexing.Cuts
import ExpLang.Proofs.Syntax.Excerpts
import ExpLang.Proofs.Scoping.Programs
import ExpLang.Proofs.Syntax.Rereading
import ExpLang.Proofs.Resolved.Registers
import ExpLang.Proofs.Types.Verdicts
import ExpLang.Proofs.Typing.Constants
import ExpLang.Proofs.Typing.Operands
import ExpLang.Proofs.Syntax.Splitting
import ExpLang.Proofs.Evaluation.Powers
import ExpLang.Proofs.Evaluation.Initializers
import ExpLang.Proofs.Loops
import ExpLang.Proofs.Evaluation.Compounds
import ExpLang.Proofs.Arguments
import ExpLang.Proofs.Types.Forest
import ExpLang.Proofs.Types.Tables
import ExpLang.Proofs.Evaluation.Depth
import ExpLang.Proofs.Reports.Cascades
import ExpLang.Proofs.Reports.Policies
import ExpLang.Proofs.Syntax.Edges
import ExpLang.Proofs.Matching.Descriptions
import ExpLang.Proofs.Lexing.Skipping
import ExpLang.Proofs.Lowering.Naming
import ExpLang.Proofs.Text.Lines
