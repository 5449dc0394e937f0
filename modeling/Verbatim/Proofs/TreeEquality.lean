import Verbatim.Proofs.AssemblyTokens
import Verbatim.Proofs.DocumentRewriting
import Verbatim.Tree.Dump

/-! When trees are equal. Comparing walks step by step compares the calls that built the trees, and as each sequence
of calls has one buffer, one text and one table of names, equal trees differ in nothing but their stamps. -/

namespace Verbatim

namespace Visit

def agrees : Visit → Visit → Bool
  | .enter a, .enter b => a.name == b.name && a.rule == b.rule
  | .leaf a, .leaf b =>
    a.token.kind == b.token.kind && a.token.text == b.token.text && a.token.channel == b.token.channel &&
      a.token.span == b.token.span
  | .leave _, .leave _ => true
  | _, _ => false

/-- Goes through two walks in step and stops where they differ. -/
def agree : List Visit → List Visit → Bool
  | [], [] => true
  | a :: first, b :: second => if a.agrees b then agree first second else false
  | _, _ => false

private theorem agrees_iff (a b : Visit) : a.agrees b = true ↔ a.call = b.call := by
  cases a with
  | enter first => cases b <;> simp [agrees, call]
  | leave first => cases b <;> simp [agrees, call]
  | leaf first =>
    cases b with
    | enter | leave => simp [agrees, call]
    | leaf second =>
      obtain ⟨_, ⟨kind, text, channel, span⟩, _, _⟩ := first
      obtain ⟨_, ⟨kind', text', channel', span'⟩, _, _⟩ := second
      simp [agrees, call, and_assoc]

private theorem agree_iff (first second : List Visit) :
    agree first second = true ↔ first.map call = second.map call := by
  induction first generalizing second with
  | nil => cases second <;> simp [agree]
  | cons a first ih =>
    cases second with
    | nil => simp [agree]
    | cons b second =>
      rw [agree, List.map_cons, List.map_cons, List.cons.injEq, ← agrees_iff, ← ih]
      split
      next same => simp [same]
      next other => simp [other]

end Visit

namespace SyntaxTree

private theorem beq_iff (a b : SyntaxTree) : (a == b) = true ↔ a.calls = b.calls :=
  beq_iff_eq (a := a.calls)

theorem equivalence_beq : Equivalence fun a b : SyntaxTree => (a == b) = true where
  refl a := (beq_iff a a).mpr rfl
  symm same := (beq_iff _ _).mpr ((beq_iff _ _).mp same).symm
  trans first second := (beq_iff _ _).mpr (((beq_iff _ _).mp first).trans ((beq_iff _ _).mp second))

/-- Comparing two walks in step is comparing what they write down. -/
private theorem beq_eq_agree (a b : SyntaxTree) : (a == b) = Visit.agree a.walk b.walk := by
  rw [Bool.eq_iff_iff, beq_iff, Visit.agree_iff]
  rfl

section Stamp

variable (tree : SyntaxTree) (stamp : Nat)

private theorem visitsFrom_restamp (stop fuel index : Nat) (pending : List Node) :
    { tree with stamp := stamp }.visitsFrom stop fuel index pending = tree.visitsFrom stop fuel index pending := by
  induction fuel generalizing index pending with
  | zero => rfl
  | succ fuel ih =>
    simp only [visitsFrom, ih]
    rfl

/-- No walk looks at the stamp of a tree. -/
private theorem walk_restamp : { tree with stamp := stamp }.walk = tree.walk := by
  have root : { tree with stamp := stamp }.root? = tree.root? := rfl
  rw [walk, walk, root]
  cases tree.root? with
  | none => rfl
  | some node => exact visitsFrom_restamp tree stamp _ _ _ _

private theorem calls_restamp : { tree with stamp := stamp }.calls = tree.calls := by
  rw [SyntaxTree.calls, walk_restamp, SyntaxTree.calls]

private theorem beq_restamp (a b : SyntaxTree) (first second : Nat) :
    ({ a with stamp := first } == { b with stamp := second }) = (a == b) := by
  rw [Bool.eq_iff_iff, beq_iff, beq_iff, calls_restamp a first, calls_restamp b second]

/-- The tree without its stamp, which no two trees share. -/
def unstamped : SyntaxTree := { tree with stamp := 0 }

end Stamp

/-- Where a finished tree comes from, with the calls that built it: they are made one by one, follow the plan of a
parse, or are those of a document. The stamp of a tree is its own. -/
inductive Origin (tree : SyntaxTree) : List Call → Prop where
  | calls {calls} (built : Builder.build calls = .ok tree.unstamped) : Origin tree calls
  | parse {tokens events mode} (built : Assembly.build tokens events mode = .ok tree.unstamped) :
      Origin tree (Assembly.plan tokens 0 0 events)
  | document {document} (made : Xml.read document = .ok tree.unstamped) : Origin tree (Xml.calls document)

private theorem unstamped_of_build {calls : List Call} {tree : SyntaxTree} (built : Builder.build calls = .ok tree) :
    tree.unstamped = tree := by
  obtain ⟨last, -, finished⟩ := bind_eq_ok.mp built
  obtain ⟨-, -, rfl⟩ := Builder.finish_eq_ok finished
  rfl

/-- Wherever a tree comes from, it is what the builder makes of its calls. -/
theorem Origin.built {tree : SyntaxTree} {calls : List Call} (origin : Origin tree calls) :
    Builder.build calls = .ok tree.unstamped := by
  cases origin with
  | calls built => exact built
  | parse built => exact (Assembly.build_eq_ok_iff.mp built).2
  | document made => exact (Xml.described_of_read made).2.2.2

private theorem Origin.calls_eq {tree : SyntaxTree} {calls : List Call} (origin : Origin tree calls) :
    tree.calls = calls := by
  rw [← calls_restamp tree 0]
  exact (readsBack_of_build origin.built).made

variable {a b : SyntaxTree} {first second : List Call}

/-- The representation of a tree: its text, the bytes of its buffer and the table of its names. -/
structure SameBytes (a b : SyntaxTree) : Prop where
  text : a.text = b.text
  data : a.data = b.data
  names : a.names = b.names

private theorem SameBytes.restamped (same : SameBytes a b) : a = { b with stamp := a.stamp } := by
  obtain ⟨text, data, names⟩ := same
  cases a
  cases b
  cases text
  cases data
  cases names
  rfl

private theorem SameBytes.beq (same : SameBytes a b) : (a == b) = true := by
  rw [beq_iff, same.restamped, calls_restamp]

private theorem Origin.sameBytes (one : Origin a first) (other : Origin b first) : SameBytes a b := by
  have same : a.unstamped = b.unstamped := Except.ok.inj (one.built.symm.trans other.built)
  injection same with data text names
  exact ⟨text, data, names⟩

/-- Equality of trees is that of the calls that built them and that of their representations. It looks at no stamp,
and trees that are equal cannot be told apart by their texts, documents and dumps. -/
theorem equal_iff_same_calls (a b : SyntaxTree) (first second : List Call) (one : Origin a first)
    (other : Origin b second) :
    (a == b) = Visit.agree a.walk b.walk ∧ ((a == b) = true ↔ first = second) ∧
      ((a == b) = true ↔ a.text = b.text ∧ a.data = b.data ∧ a.names = b.names) ∧
      ((a == b) = true → a.text = b.text ∧ Xml.write a = Xml.write b ∧ a.dump = b.dump ∧ a.raw = b.raw) ∧
      (∀ stamp stamp', ({ a with stamp := stamp } == { b with stamp := stamp' }) = (a == b)) ∧
      Equivalence fun a b : SyntaxTree => (a == b) = true := by
  have calls : (a == b) = true ↔ first = second := by rw [beq_iff, one.calls_eq, other.calls_eq]
  have bytes (equal : (a == b) = true) : SameBytes a b := by
    obtain rfl := calls.mp equal
    exact one.sameBytes other
  refine ⟨beq_eq_agree a b, calls, ⟨?_, ?_⟩, ?_, beq_restamp a b, equivalence_beq⟩
  · intro equal
    exact ⟨(bytes equal).text, (bytes equal).data, (bytes equal).names⟩
  · rintro ⟨text, data, names⟩
    exact SameBytes.beq ⟨text, data, names⟩
  · intro equal
    rw [(bytes equal).restamped, Xml.write, Xml.write, calls_restamp, dump, dump, walk_restamp]
    exact ⟨rfl, rfl, rfl, rfl⟩

/-- Equal though neither their stamps nor their makers are the same. -/
theorem document_equals_its_calls :
    let document := "<unit rule-id='7'> <ID end-col='-1' start-line='3' start-col='0' end-line='4'>&#10;</ID ></unit>"
    let calls := [.start "unit" 7, .token ⟨"ID", "\n", .visible, ⟨⟨3, 0⟩, ⟨4, -1⟩⟩⟩, .finish]
    ∃ a b : SyntaxTree, Origin a (Xml.calls document) ∧ Origin b calls ∧ a.stamp ≠ b.stamp ∧ (a == b) = true ∧
      a.data = b.data ∧ Xml.write a = Xml.write b := by
  intro document calls
  obtain ⟨succeeds, same⟩ : (Xml.read document).toOption.isSome ∧ Xml.calls document = calls := by decide +kernel
  clear_value document calls
  obtain ⟨tree, made⟩ := Xml.exists_read document succeeds
  have built : Builder.build calls = .ok tree := same ▸ (Xml.described_of_read made).2.2.2
  have fresh : tree.unstamped = tree := unstamped_of_build built
  have one : Origin { tree with stamp := 1 } (Xml.calls document) := .document (made.trans (congrArg _ fresh.symm))
  have other : Origin { tree with stamp := 2 } calls := .calls (built.trans (congrArg _ fresh.symm))
  obtain ⟨-, equal, bytes, shown, -⟩ := equal_iff_same_calls _ _ _ _ one other
  have equal := equal.mpr same
  exact ⟨_, _, one, other, by simp, equal, (bytes.mp equal).2.1, (shown equal).2.1⟩

end SyntaxTree

end Verbatim
