import Verbatim.Proofs.AssemblyGroups
import Verbatim.Proofs.MiniJavaAcceptance
import Verbatim.Proofs.MiniJavaLossless
import Verbatim.Proofs.MiniJavaSites

/-! What the rule of a node says about it. Of the nodes of a tree those with one rule have one name, and a node is
told to be a group exactly if it was added for tokens that no rule attached. Where a source is parsed without an
error, this divides the tokens by their channels: what is hidden stands in groups, what is visible right below the
rules. -/

namespace Verbatim

namespace MiniJava

open RuleEvent (mem_attached_iff)

attribute [local irreducible] events

private theorem mem_visible_iff {lexemes : List Lexeme} {lexeme : Lexeme} {index : Nat}
    (found : lexemes[index]? = some lexeme) :
    index ∈ (visible lexemes).map Prod.snd ↔ lexeme.kind.channel = .visible := by
  have inside : index < lexemes.length := (List.getElem?_eq_some_iff.mp found).1
  rw [visible_eq_places, visiblePlaces, List.mem_filter, found]
  simp [inside]

private theorem token_of_visible {source : String} (accepted : ∀ diagnostic, .error diagnostic ∉ events (lex source))
    {index : Nat} (member : index ∈ (visible (lex source)).map Prod.snd) : .token index ∈ events (lex source) := by
  rwa [← attached_of_success ((accepted_iff_succeeds _).mp accepted), mem_attached_iff] at member

/-- The channel of a token in a tree is that of the lexeme which it comes from. -/
private theorem visible_iff_of_comes {source : String} {leaf : Leaf} {index : Nat}
    (comes : Assembly.Comes (parse source).tokens leaf index) :
    leaf.token.channel = .visible ↔ index ∈ (visible (lex source)).map Prod.snd := by
  obtain ⟨raw, found, same⟩ := comes
  rw [tokens_parse, List.getElem?_map] at found
  obtain ⟨lexeme, placed, rfl⟩ := Option.map_eq_some_iff.mp found
  rw [mem_visible_iff placed, same]
  rfl

/-- What is known of the nodes of a tree by their rules. -/
structure Identified (source : String) (tree : SyntaxTree) : Prop where
  named : ∀ one ∈ tree.nodes, ∀ other ∈ tree.nodes, one.rule = other.rule → one.name = other.name
  /-- The grammar uses neither the name nor the rule of groups. -/
  ungrouped : ∀ name id, .enter name id ∈ (parse source).events → name ≠ groupName ∧ id ≠ groupRule
  added : ∃ root, Assembly.Arranges (parse source).tokens (parse source).events tree root ∧
    tree.nodes.map Verbatim.Node.isGroup = root.added
  entered : ∀ node ∈ tree.nodes, node.isGroup = false → .enter node.name node.rule ∈ (parse source).events
  grouped : ∀ node ∈ tree.nodes, node.isGroup = true → ∀ item ∈ tree.children node, ∃ leaf, item = .leaf leaf ∧
    ((∀ diagnostic, .error diagnostic ∉ (parse source).events) → leaf.token.channel = .hidden)
  attached : ∀ node ∈ tree.nodes, node.isGroup = false →
    ∀ leaf, .leaf leaf ∈ tree.children node → leaf.token.channel = .visible

private theorem sited_parse {source name : String} {id : RuleId} (entered : .enter name id ∈ (parse source).events) :
    (name, id) ∈ sites := by
  rw [events_parse] at entered
  exact mem_sites_of_enter entered

private theorem looksGrouped_of_site {name : String} {id : RuleId} (site : (name, id) ∈ sites) :
    looksGrouped name id = false := by
  simp [looksGrouped, (ungrouped _ site).1]

/-- In the tree of every source a rule stands for one name, and a node looks like a group exactly if it was added
for tokens that no rule attached. -/
theorem rules_identify_nodes (source : String) (mode : ParseMode) (tree : SyntaxTree)
    (built : grammar.tree source mode = .ok tree) : Identified source tree := by
  rw [tree_eq_build] at built
  obtain ⟨consistent, made⟩ := Assembly.build_eq_ok_iff.mp built
  obtain ⟨root, arranged⟩ : ∃ root, Assembly.Arranges (parse source).tokens (parse source).events tree root := by
    obtain ⟨depth, marks, tail, -, shape, -⟩ := events_cases (lex source)
    rw [← events_parse] at shape
    exact Assembly.exists_arranges consistent made
      (Outline.filter_ne_nil_of_enter ⟨_, _, shape ▸ List.mem_cons_self⟩)
  have ruled : ∀ name id, .enter name id ∈ (parse source).events → looksGrouped name id = false :=
    fun _ _ entered => looksGrouped_of_site (sited_parse entered)
  have divided (node : Verbatim.Node) (inside : node ∈ tree.nodes) := arranged.divided made ruled inside
  constructor
  case named =>
    intro one inside other also same
    rcases divided one inside with ⟨group, -⟩ | ⟨-, entered, -⟩ <;>
      rcases divided other also with ⟨alike, -⟩ | ⟨-, begun, -⟩
    · rw [(Verbatim.Node.isGroup_iff.mp group).2, (Verbatim.Node.isGroup_iff.mp alike).2]
    · exact absurd (same.symm.trans (Verbatim.Node.isGroup_iff.mp group).1) (ungrouped _ (sited_parse begun)).2
    · exact absurd (same.trans (Verbatim.Node.isGroup_iff.mp alike).1) (ungrouped _ (sited_parse entered)).2
    · exact name_of_id _ (sited_parse entered) _ (sited_parse begun) same
  case ungrouped => exact fun name id entered => ungrouped _ (sited_parse entered)
  case added => exact ⟨root, arranged, arranged.isGroup_nodes ruled⟩
  case entered =>
    intro node inside rule
    rcases divided node inside with ⟨group, -⟩ | ⟨-, entered, -⟩
    · cases group.symm.trans rule
    · exact entered
  case grouped =>
    intro node inside group item member
    rcases divided node inside with ⟨-, free⟩ | ⟨rule, -⟩
    · obtain ⟨leaf, index, rfl, comes, absent⟩ := free item member
      refine ⟨leaf, rfl, fun accepted => ?_⟩
      rw [events_parse] at accepted absent
      cases channel : leaf.token.channel with
      | hidden => rfl
      | visible => exact absurd (token_of_visible accepted ((visible_iff_of_comes comes).mp channel)) absent
    · cases group.symm.trans rule
  case attached =>
    intro node inside rule leaf member
    rcases divided node inside with ⟨group, -⟩ | ⟨-, -, stated⟩
    · cases group.symm.trans rule
    · obtain ⟨index, comes, listed⟩ := stated leaf member
      rw [events_parse] at listed
      exact (visible_iff_of_comes comes).mpr (visible_of_token listed)

/-- Groups of a comment and white space between the tokens of a class. -/
theorem commented_class_identified :
    let source := "class /* é */ A{int b=-c(d)*2;}"
    (∀ diagnostic, .error diagnostic ∉ (parse source).events) ∧
      ∃ tree, grammar.tree source .lenient = .ok tree ∧ true ∈ tree.nodes.map Verbatim.Node.isGroup ∧
        Identified source tree := by
  intro source
  obtain ⟨course, small, grouped⟩ : (∀ event ∈ events (lex source), Outline.isCourse event = true) ∧
      Call.sizeOf (calls source) + 1 < Builder.wordLimit ∧ true ∈ (calls source).filterMap Call.grouped? := by
    decide +kernel
  obtain ⟨tree, built⟩ := (exists_tree_iff source).mpr ⟨by decide, small⟩
  refine ⟨?_, tree, built, ?_, rules_identify_nodes source .lenient tree built⟩
  · intro diagnostic member
    rw [events_parse] at member
    cases course _ member
  · have made := (SyntaxTree.readsBack_of_build ((tree_eq_ok_iff source tree).mp built)).made
    rwa [tree.isGroup_nodes, made]

end MiniJava

end Verbatim
