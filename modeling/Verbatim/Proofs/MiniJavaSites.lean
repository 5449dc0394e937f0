import Verbatim.Proofs.MiniJavaEvents
import Verbatim.Proofs.MiniJavaGrammar

/-! The places of the grammar that enter nodes. Each of them has an id of its own or shares it with places of the
same name, and none looks like a group. They are collected from the bodies of the rules, and whatever a parser
enters is one of them. -/

namespace Verbatim.MiniJava

abbrev Site := String × RuleId

def Step.sites : Step → List Site
  | .call rule id => [(rule.name, id)]
  | .next first second => first.sites ++ second.sites
  | .choose _ yes no => yes.sites ++ no.sites
  | .loop _ body => body.sites
  | .done | .bump | .expect _ | .expression | .fail _ => []

def Rule.every : List Rule := (List.range 24).map Rule.ofNat

theorem Rule.mem_every (rule : Rule) : rule ∈ every := by
  have place : rule.ctorIdx < 24 := by cases rule <;> decide
  exact List.mem_map.mpr ⟨rule.ctorIdx, List.mem_range.mpr place, Rule.ofNat_ctorIdx rule⟩

def operatorSites : List Site :=
  Kind.every.filterMap fun kind => (binding? kind).map fun (_, _, id) => (expressionName, id)

def operandRules : List RuleId := [60, 61, 63, 65, 66, 68]

/-- The nodes around operands and operators, and the rules that are called between them. -/
def expressionSites : List Site :=
  (Rule.primary.name, 62) :: (Rule.arguments.name, 64) :: (Rule.arguments.name, 67) ::
    ((operandRules.map fun id => (expressionName, id)) ++ operatorSites)

def sites : List Site :=
  (Rule.compilationUnit.name, 1) :: (expressionSites ++ Rule.every.flatMap fun rule => rule.body.sites)

theorem name_of_id : ∀ one ∈ sites, ∀ other ∈ sites, one.2 = other.2 → one.1 = other.1 := by decide +kernel

theorem ungrouped : ∀ site ∈ sites, site.1 ≠ groupName ∧ site.2 ≠ groupRule := by decide +kernel

private theorem mem_sites_of_body {rule : Rule} : ∀ site ∈ rule.body.sites, site ∈ sites := by
  intro site member
  refine List.mem_cons_of_mem _ (List.mem_append_right _ ?_)
  exact List.mem_flatMap.mpr ⟨rule, rule.mem_every, member⟩

private theorem mem_sites_of_operand {id : RuleId} (listed : id ∈ operandRules) : (expressionName, id) ∈ sites := by
  refine List.mem_cons_of_mem _ (List.mem_append_left _ ?_)
  simp only [expressionSites, List.mem_cons, List.mem_append]
  exact .inr (.inr (.inr (.inl (List.mem_map_of_mem listed))))

private theorem mem_sites_of_binding {kind : Kind} {left right : Nat} {id : RuleId}
    (bound : binding? kind = some (left, right, id)) : (expressionName, id) ∈ sites := by
  refine List.mem_cons_of_mem _ (List.mem_append_left _ ?_)
  have listed : (expressionName, id) ∈ operatorSites := List.mem_filterMap.mpr ⟨kind, kind.mem_every, by rw [bound]; rfl⟩
  simp only [expressionSites, List.mem_cons, List.mem_append]
  exact .inr (.inr (.inr (.inr listed)))

/-- Marks that enter nodes at sites only. -/
def Sited (marks : List Mark) : Prop := ∀ name id, .enter name id ∈ marks → (name, id) ∈ sites

namespace Sited

variable {first second marks : List Mark} {name : String} {id : RuleId}

theorem nil : Sited [] := fun _ _ member => nomatch member

theorem take : Sited [.take] := by simp [Sited]

theorem append (front : Sited first) (back : Sited second) : Sited (first ++ second) := by
  intro name id member
  exact (List.mem_append.mp member).elim (front name id) (back name id)

theorem enter (site : (name, id) ∈ sites) (inner : Sited marks) : Sited (.enter name id :: marks) := by
  intro other rule member
  cases member with
  | head => exact site
  | tail _ member => exact inner other rule member

theorem exit (inner : Sited marks) : Sited (marks ++ [.exit]) := inner.append (by simp [Sited])

end Sited

/-- A parser that enters nodes at sites only, also where it fails. -/
def Keeps (parser : Parser) : Prop := ∀ ahead, Sited (parser ahead).marks

private theorem allowed_of_sites {step : Step} (listed : ∀ site ∈ step.sites, site ∈ sites) :
    step.Allowed (fun rule id => (rule.name, id) ∈ sites) fun _ => True := by
  induction step with
  | call rule id => exact listed _ List.mem_cons_self
  | next first second front back =>
    obtain ⟨early, late⟩ := List.forall_mem_append.mp listed
    exact ⟨front early, back late⟩
  | choose test yes no holds fails =>
    obtain ⟨here, there⟩ := List.forall_mem_append.mp listed
    exact ⟨holds here, fails there⟩
  | loop test body inner => exact inner listed
  | done | bump | expect kind | expression | fail wanted => trivial

def siting : Discipline where
  whole _ := Sited
  broken _ _ := Sited
  node _ _ name id := (name, id) ∈ sites
  calls rule id := (rule.name, id) ∈ sites
  tells _ := True
  nil _ := .nil
  take _ := .take
  append front back := front.append back
  breaks front back := front.append back
  fails _ _ := .nil
  full _ := .nil
  encloses site inside := inside.exit.enter site
  leaves site inside := inside.enter site
  expected _ := trivial
  body _ := allowed_of_sites mem_sites_of_body
  called _ site := site
  primary := by decide +kernel
  member := by decide +kernel
  call := by decide +kernel
  operand _ listed _ := mem_sites_of_operand (List.mem_append_left [63, 65, 66, 68] listed)
  trailer _ listed _ := mem_sites_of_operand (List.mem_append_right [60, 61] listed)
  operator _ bound := mem_sites_of_binding bound

private theorem keeps_parseKinds : Keeps parseKinds := by
  intro kinds
  have root : (Rule.compilationUnit.name, 1) ∈ sites := List.mem_cons_self
  have judged := (siting.governs_level (kinds.length + 1) depthLimit).rule .compilationUnit 1 root kinds
  rw [← parseKinds] at judged
  generalize parseKinds kinds = outcome at judged ⊢
  obtain ⟨marks, rest, - | wanted⟩ := outcome <;> exact judged

/-- All nodes that a parse enters are at sites of the grammar. -/
theorem mem_sites_of_enter {lexemes : List Lexeme} {name : String} {id : RuleId}
    (entered : .enter name id ∈ events lexemes) : (name, id) ∈ sites := by
  refine keeps_parseKinds ((visible lexemes).map fun entry => entry.1.kind) name id ?_
  simp only [events] at entered
  split at entered
  · exact mem_number entered
  · exact mem_number ((List.mem_append.mp entered).resolve_right (by simp))

end Verbatim.MiniJava
