import Verbatim.Proofs.MiniJavaLossless
import Verbatim.Proofs.PositionSlices
import Verbatim.Proofs.VerifyOutcomes

/-! The checks of sources find nothing to complain about: what is parsed strictly is restored, survives its
document and has its tokens in their places, and parsing it again changes nothing. -/

namespace Verbatim.MiniJava

open Verify (restoring interConverting maxLine Lines leading Longest)

/-- Each token is found where its span says. -/
private theorem lexFrom_placed (fuel : Nat) {front text : List Char} (short : (front ++ text).length < 2 ^ 31) :
    ∀ lexeme ∈ lexFrom fuel (.behind front) text,
      (Span.of lexeme.start lexeme.text).slice? (front ++ text) = some lexeme.text.toList := by
  induction fuel generalizing front text with
  | zero => simpa only [lexFrom, List.forall_mem_singleton] using Span.slice?_empty short
  | succ fuel ih =>
    cases text with
    | nil => simpa only [lexFrom, List.forall_mem_singleton] using Span.slice?_empty short
    | cons c rest =>
      rw [lexFrom, List.forall_mem_cons, Position.advance_behind]
      generalize c :: rest = text at short ⊢
      have whole : front ++ (String.ofList (text.take (frontToken text).2)).toList ++ text.drop (frontToken text).2 =
          front ++ text := by
        rw [String.toList_ofList, List.append_assoc, List.take_append_drop]
      rw [← whole] at short ⊢
      refine ⟨Span.slice?_of short, ?_⟩
      rw [String.toList_ofList] at short ⊢
      exact ih short

private theorem placed_lex {source : String} (short : source.length < 2 ^ 31) :
    ∀ lexeme ∈ lex source, (Span.of lexeme.start lexeme.text).slice? source.toList = some lexeme.text.toList := by
  have whole : ([] ++ source.toList).length < 2 ^ 31 := by rwa [List.nil_append, String.length_toList]
  rw [lex, Position.start_eq_behind]
  exact lexFrom_placed source.length whole

def Oversized (source : String) : Prop :=
  Builder.wordLimit ≤ source.utf8ByteSize ∨ Builder.wordLimit ≤ Call.sizeOf (calls source) + 1

theorem build_of_strict {source : String} {tree : SyntaxTree} (parsed : grammar.tree source .strict = .ok tree) :
    Builder.build (calls source) = .ok tree := by
  rw [tree_eq_build, Assembly.build_eq_ok_iff] at parsed
  exact parsed.2

private theorem refused_cases {source : String} {fault : Fault} (refused : grammar.tree source .strict = .error fault) :
    (∃ diagnostic, fault = .error (.parse diagnostic)) ∨
      (∃ violation, fault = .violation violation) ∧ Oversized source := by
  rw [tree_eq_build] at refused
  by_cases fits : source.utf8ByteSize < Builder.wordLimit ∧ Call.sizeOf (calls source) + 1 < Builder.wordLimit
  · obtain ⟨tree, parsed⟩ := (exists_tree_iff source).mpr fits
    rw [tree_eq_build] at parsed
    rcases Assembly.build_strict parsed with built | ⟨diagnostic, stopped⟩
    · rw [built] at refused
      cases refused
    · rw [stopped] at refused
      cases refused
      exact .inl ⟨diagnostic, rfl⟩
  · rw [not_and_or, Nat.not_lt, Nat.not_lt] at fits
    rcases Assembly.build_eq_error refused with ⟨diagnostic, -, same⟩ | broken
    · exact .inl ⟨diagnostic, same⟩
    · exact .inr ⟨broken, fits⟩

private theorem positions_of_build {source : String} {tree : SyntaxTree} (short : source.length < 2 ^ 31)
    (built : Builder.build (calls source) = .ok tree) : Verify.positions tree source = .ok () := by
  obtain ⟨root, found, leaves⟩ := SyntaxTree.leaves_of_build built
  rw [tokensOf_calls, tokens_parse, List.map_map] at leaves
  simp only [Verify.positions, found]
  refine Verify.leafPositions_eq_ok_iff.mpr fun leaf member => ?_
  have token : leaf.token ∈ (lex source).map (RawToken.placed ∘ Lexeme.raw) := by
    rw [← leaves]
    exact List.mem_map_of_mem member
  obtain ⟨lexeme, inside, same⟩ := List.mem_map.mp token
  rw [← same]
  exact placed_lex short lexeme inside

variable {m : Type → Type} [Monad m]

/-- The outcomes of all checks of a source, from what a strict parse makes of it and of its leading lines. -/
structure ChecksAgree (processor : Processor m) (source : String) : Prop where
  parsed {tree : SyntaxTree} (succeeded : grammar.tree source .strict = .ok tree) :
    (restoring processor source).run = pure (.ok tree) ∧ tree.text = source ∧
      (interConverting processor source).run = pure (.ok ())
  refused {fault : Fault} (failed : grammar.tree source .strict = .error fault) :
    (restoring processor source).run = pure (.error (.processor fault)) ∧
      (interConverting processor source).run = pure (.error (.processor fault)) ∧
      ((∃ diagnostic, fault = .error (.parse diagnostic)) ∨
        (∃ violation, fault = .violation violation) ∧ Oversized source)
  searched : ∃ lines result, Lines source.toList lines ∧ (maxLine processor source).run = pure result ∧
    Longest (fun count => grammar.tree (leading lines count) .strict) lines.length result ∧
    ((∃ count, result = .ok count) ∨ ∃ count ≤ lines.length, Oversized (leading lines count))

variable [LawfulMonad m] {source : String}

private theorem checks_succeed {tree : SyntaxTree} (short : source.length < 2 ^ 31)
    (parsed : grammar.tree source .strict = .ok tree) :
    let processor : Processor m := .ofGrammar grammar
    (restoring processor source).run = pure (.ok tree) ∧ tree.text = source ∧
      (interConverting processor source).run = pure (.ok ()) := by
  intro processor
  have built := build_of_strict parsed
  have text : tree.text = source := by rw [(SyntaxTree.readsBack_of_build built).text, textOf_calls]
  have generated : tree.generate = source := (SyntaxTree.generate_of_build built).trans text
  obtain ⟨document, written, read⟩ :=
    Xml.exists_write built fun name inside => vocabulary_writable name (calls_known inside)
  have made : processor.treeFromSource source .strict = settle (.ok tree) := congrArg settle parsed
  have restored : processor.sourceFromTree tree = settle (.ok source) :=
    congrArg (fun text => settle (.ok text)) generated
  have printed : processor.xmlFromTree tree = settle (.ok document) :=
    congrArg (fun result => settle (Fault.ofError result)) written
  have back : processor.treeFromXml document = settle (.ok tree) := congrArg settle read
  have placed := positions_of_build short built
  exact ⟨Verify.restoring_eq_ok made restored printed back placed, text, Verify.interConverting_eq_ok made restored⟩

private theorem restoring_eq (short : source.length < 2 ^ 31) :
    (restoring (.ofGrammar grammar : Processor m) source).run =
      pure ((grammar.tree source .strict).mapError .processor) := by
  cases parsed : grammar.tree source .strict with
  | ok tree => exact (checks_succeed short parsed).1
  | error fault => exact Verify.restoring_eq_error (congrArg settle parsed)

/-- The search among the leading lines parses each of them without a complaint of its own. -/
private theorem exists_maxLine (short : source.length < 2 ^ 31) :
    ∃ lines result, Lines source.toList lines ∧
      (maxLine (.ofGrammar grammar : Processor m) source).run = pure result ∧
      Longest (fun count => grammar.tree (leading lines count) .strict) lines.length result := by
  have split := Verify.lines_linesOf source.toList
  have settled : ∀ count ≤ (Verify.linesOf source.toList).length,
      (restoring (.ofGrammar grammar : Processor m) (leading (Verify.linesOf source.toList) count)).run =
        pure ((grammar.tree (leading (Verify.linesOf source.toList) count) .strict).mapError .processor) := by
    intro count _
    have shorter := Verify.length_leading_le split count
    rw [String.length_toList] at shorter
    exact restoring_eq (Nat.lt_of_le_of_lt shorter short)
  obtain ⟨result, found, longest⟩ := Verify.exists_maxLineFrom settled
  exact ⟨_, result, split, found, longest⟩

/-- Nothing but the source itself can fail a check: all of them come to what a strict parse comes to. -/
theorem checks_agree (source : String) (short : source.length < 2 ^ 31) :
    ChecksAgree (.ofGrammar grammar : Processor m) source where
  parsed := checks_succeed short
  refused failed :=
    ⟨Verify.restoring_eq_error (congrArg settle failed), Verify.interConverting_eq_error (congrArg settle failed),
      refused_cases failed⟩
  searched := by
    obtain ⟨lines, result, split, found, longest⟩ := exists_maxLine (m := m) short
    refine ⟨lines, result, split, found, longest, ?_⟩
    cases result with
    | ok count => exact .inl ⟨count, rfl⟩
    | error violation =>
      obtain ⟨count, ⟨-, below⟩, broken⟩ := longest
      rcases refused_cases broken with ⟨diagnostic, other⟩ | ⟨-, large⟩
      · cases other
      · exact .inr ⟨count, below, large⟩

theorem commented_class_checks_agree :
    let source := "class A \x7b\x7d\n/* é\r\n */ class"
    source.length < 2 ^ 31 ∧ ChecksAgree (.ofGrammar grammar : Processor Id) source := by
  intro source
  have short : source.length < 2 ^ 31 := by decide
  exact ⟨short, checks_agree source short⟩

end Verbatim.MiniJava
