import Verbatim.Processor
import Verbatim.Proofs.AssemblyTokens
import Verbatim.Proofs.DocumentRoundTrip
import Verbatim.Proofs.MiniJavaEvents
import Verbatim.Proofs.MiniJavaTokens

/-! A lenient parse loses nothing. Whatever the source is, its tokens are the leaves of a tree, and both
the tree and its document give the source back. The names in such a tree are those of the grammar, so
there are few of them and all can be written. -/

namespace Verbatim.MiniJava

def vocabulary : List String :=
  groupName :: expressionName ::
    ((List.range 24).map (fun place => (Rule.ofNat place).name) ++
      (List.range 76).map fun place => (Kind.ofNat place).name)

private theorem group_known : groupName ∈ vocabulary := List.mem_cons_self

private theorem expression_known : expressionName ∈ vocabulary := List.mem_cons_of_mem _ List.mem_cons_self

private theorem rule_known (rule : Rule) : rule.name ∈ vocabulary := by
  have place : rule.ctorIdx < 24 := by cases rule <;> decide
  refine List.mem_cons_of_mem _ (List.mem_cons_of_mem _ (List.mem_append_left _ ?_))
  exact List.mem_map.mpr ⟨rule.ctorIdx, List.mem_range.mpr place, by rw [Rule.ofNat_ctorIdx]⟩

private theorem kind_known (kind : Kind) : kind.name ∈ vocabulary := by
  have place : kind.ctorIdx < 76 := by cases kind <;> decide
  refine List.mem_cons_of_mem _ (List.mem_cons_of_mem _ (List.mem_append_right _ ?_))
  exact List.mem_map.mpr ⟨kind.ctorIdx, List.mem_range.mpr place, by rw [Kind.ofNat_ctorIdx]⟩

theorem vocabulary_writable : ∀ name ∈ vocabulary, Xml.isName name.toList = true := by decide +kernel

theorem tokens_parse (source : String) : (parse source).tokens = (lex source).map Lexeme.raw := by rw [parse]

theorem events_parse (source : String) : (parse source).events = events (lex source) := by rw [parse]

-- Elaboration would otherwise run the parser to see what its events are.
attribute [local irreducible] events

/-- The calls that a lenient parse makes. -/
def calls (source : String) : List Call := Assembly.plan (parse source).tokens 0 0 (parse source).events

theorem calls_known {source name : String} (inside : name ∈ Call.namesOf (calls source)) : name ∈ vocabulary := by
  rw [calls, tokens_parse, events_parse] at inside
  rcases Assembly.mem_namesOf_plan inside with (rfl | ⟨raw, member, rfl⟩) | ⟨rule, member⟩
  · exact group_known
  · obtain ⟨lexeme, -, rfl⟩ := List.mem_map.mp member
    exact kind_known lexeme.kind
  · rcases spoken_events member with rfl | ⟨known, rfl⟩
    · exact expression_known
    · exact rule_known known

theorem consistent_parse (source : String) :
    Assembly.Consistent .lenient (parse source).tokens.length 0 0 false (parse source).events := by
  rw [tokens_parse, events_parse, List.length_map]
  exact consistent_events (lex source)

private theorem texts_parse (source : String) : String.join ((parse source).tokens.map RawToken.text) = source := by
  have texts : ((lex source).map Lexeme.raw).map RawToken.text = (lex source).map Lexeme.text := by
    rw [List.map_map]
    rfl
  rw [tokens_parse, texts, join_lex]

theorem tokensOf_calls (source : String) : Call.tokensOf (calls source) = (parse source).tokens.map RawToken.placed :=
  Assembly.tokensOf_plan (parse source).tokens (parse source).events (consistent_parse source)

theorem textOf_calls (source : String) : Call.textOf (calls source) = source := by
  have texts : ((parse source).tokens.map RawToken.placed).map Token.text =
      (parse source).tokens.map RawToken.text := by
    rw [List.map_map]
    rfl
  rw [Call.textOf_eq_join, tokensOf_calls, texts, texts_parse]

private theorem fits_calls {source : String} (short : source.utf8ByteSize < Builder.wordLimit)
    (small : Call.sizeOf (calls source) + 1 < Builder.wordLimit) : Builder.Fits (calls source) := by
  refine ⟨?_, by rwa [textOf_calls], small⟩
  calc (Call.namesOf (calls source)).toFinset.card
    _ ≤ vocabulary.toFinset.card := by
      refine Finset.card_le_card fun name inside => ?_
      rw [List.mem_toFinset] at inside ⊢
      exact calls_known inside
    _ ≤ vocabulary.length := List.toFinset_card_le _
    _ ≤ Tag.nameLimit := by decide

private theorem settle_bind {m : Type → Type} [Monad m] [LawfulMonad m] {α β : Type} (value : α)
    (next : α → ExceptT Fault m β) :
    (settle (.ok value) >>= next) = next value :=
  pure_bind (Except.ok value) (ExceptT.bindCont next)

theorem tree_eq_build (source : String) (mode : ParseMode) :
    grammar.tree source mode = Assembly.build (parse source).tokens (parse source).events mode := by
  simp only [Grammar.tree, grammar]

theorem tree_eq_ok_iff (source : String) (tree : SyntaxTree) :
    grammar.tree source .lenient = .ok tree ↔ Builder.build (calls source) = .ok tree := by
  rw [tree_eq_build, Assembly.build_eq_ok_iff, ← calls]
  exact and_iff_right (consistent_parse source)

/-- Nothing but the sizes of text and buffer can keep a lenient parse from its tree. -/
theorem exists_tree_iff (source : String) :
    (∃ tree, grammar.tree source .lenient = .ok tree) ↔
      source.utf8ByteSize < Builder.wordLimit ∧ Call.sizeOf (calls source) + 1 < Builder.wordLimit := by
  simp only [tree_eq_ok_iff]
  constructor
  · rintro ⟨tree, built⟩
    obtain ⟨root, same, shown⟩ := Builder.build_eq_ok built
    have written : Draft.calls (.whole root) = calls source := same
    have short := shown.short
    have small := shown.small
    rw [written] at short small
    rw [textOf_calls] at short
    exact ⟨short, small⟩
  · rintro ⟨short, small⟩
    obtain ⟨tree, built⟩ := Assembly.exists_build (consistent_parse source) (fits_calls short small)
    exact ⟨tree, (Assembly.build_eq_ok_iff.mp built).2⟩

/-- A lenient parse of any source within the limits of a tree gives a tree with all its tokens, from which
the source is restored, also by way of the document. -/
theorem lenient_parse_lossless {m : Type → Type} [Monad m] [LawfulMonad m] (source : String)
    (short : source.utf8ByteSize < Builder.wordLimit) (small : Call.sizeOf (calls source) + 1 < Builder.wordLimit) :
    let processor : Processor m := .ofGrammar grammar
    ∃ tree root, processor.treeFromSource source .lenient = settle (.ok tree) ∧
      tree.text = source ∧ tree.generate = source ∧ tree.root? = some root ∧
      (tree.leaves root).map Leaf.token = (lex source).map (fun lexeme =>
        ⟨lexeme.kind.name, lexeme.text, lexeme.kind.channel, Span.of lexeme.start lexeme.text⟩) ∧
      (processor.xmlFromSource source .lenient >>= processor.sourceFromXml) = settle (.ok source) := by
  intro processor
  obtain ⟨tree, parsed⟩ := (exists_tree_iff source).mpr ⟨short, small⟩
  have built := (tree_eq_ok_iff source tree).mp parsed
  obtain ⟨root, found, leaves⟩ := SyntaxTree.leaves_of_build built
  have text : tree.text = source := by rw [(SyntaxTree.readsBack_of_build built).text, textOf_calls]
  have generated : tree.generate = source := (SyntaxTree.generate_of_build built).trans text
  have made : processor.treeFromSource source .lenient = settle (.ok tree) := congrArg settle parsed
  obtain ⟨document, written, read⟩ :=
    Xml.exists_write built fun name inside => vocabulary_writable name (calls_known inside)
  refine ⟨tree, root, made, text, generated, found, ?_, ?_⟩
  · rw [leaves, tokensOf_calls, tokens_parse, List.map_map]
    rfl
  · have printed : processor.xmlFromSource source .lenient = settle (.ok document) := by
      change (processor.treeFromSource source .lenient >>= fun tree => settle (Fault.ofError (Xml.write tree))) = _
      rw [made, settle_bind, written]
      rfl
    have restored : processor.sourceFromXml document = settle (.ok source) := by
      change (settle (Xml.read document) >>= fun tree => settle (.ok tree.generate)) = _
      rw [read, settle_bind, generated]
    rw [printed, settle_bind, restored]

theorem stopped_parse_lossless :
    let source := "class /**/ é"
    (source.utf8ByteSize < Builder.wordLimit ∧ Call.sizeOf (calls source) + 1 < Builder.wordLimit) ∧
    let processor : Processor Id := .ofGrammar grammar
    ∃ tree root, processor.treeFromSource source .lenient = settle (.ok tree) ∧
      tree.text = source ∧ tree.generate = source ∧ tree.root? = some root ∧
      (tree.leaves root).map Leaf.token = (lex source).map (fun lexeme =>
        ⟨lexeme.kind.name, lexeme.text, lexeme.kind.channel, Span.of lexeme.start lexeme.text⟩) ∧
      (processor.xmlFromSource source .lenient >>= processor.sourceFromXml) = settle (.ok source) := by
  intro source
  have small : Call.sizeOf (calls source) + 1 < Builder.wordLimit := by decide +kernel
  exact ⟨⟨by decide, small⟩, lenient_parse_lossless source (by decide) small⟩

end Verbatim.MiniJava
