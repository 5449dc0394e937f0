import Verbatim.Proofs.DocumentReading
import Verbatim.Proofs.TreeRefinement

/-! Trees survive as documents. Every name is checked in the order of the walk; if all of them can be
written, the lines are read one by one, and the reader makes for each line the call that it stands for. -/

namespace Verbatim.Xml

open SyntaxTree (indentation)

def unwritable (name : String) : Bool := !isName name.toList

section Lines

variable (depth : Nat) (rest : List Call) (pending : List String)

theorem lines_start (name : String) (rule : RuleId) :
    lines depth (.start name rule :: rest) pending =
      if isName name.toList then (lines (depth + 1) rest (name :: pending)).map
        ((indentation depth ++ ("<" ++ name ++ assignment ruleKey (Numeral.decimal rule.toNat) ++ ">")) :: ·)
      else .error (.invalidXmlName name) := by
  rw [lines, checkName]
  split
  · simp only [bind, Except.bind]
    cases lines (depth + 1) rest (name :: pending) <;> rfl
  · rfl

theorem lines_token (token : Token) :
    lines depth (.token token :: rest) pending =
      if isName token.kind.toList then (lines depth rest pending).map ((indentation depth ++ tokenElement token) :: ·)
      else .error (.invalidXmlName token.kind) := by
  rw [lines, checkName]
  split
  · cases lines depth rest pending <;> rfl
  · rfl

theorem lines_finish :
    lines depth (.finish :: rest) pending = (lines (depth - 1) rest (pending.drop 1)).map
      ((indentation (depth - 1) ++ ("</" ++ pending.headD "" ++ ">")) :: ·) := by
  simp only [lines, String.append_assoc]
  cases lines (depth - 1) rest (pending.drop 1) <;> rfl

end Lines

private theorem lines_eq_error {calls : List Call} {name : String}
    (first : (Call.namesOf calls).find? unwritable = some name)
    (depth : Nat) (pending : List String) : lines depth calls pending = .error (.invalidXmlName name) := by
  induction calls generalizing depth pending with
  | nil => cases first
  | cons call rest ih =>
    cases call with
    | start other rule =>
      rw [Call.namesOf_cons, Call.names, List.singleton_append, List.find?_cons] at first
      rw [lines_start]
      cases named : isName other.toList with
      | true => rw [unwritable, named] at first; rw [if_pos rfl, ih first]; rfl
      | false => rw [unwritable, named] at first; cases first; rfl
    | token token =>
      rw [Call.namesOf_cons, Call.names, List.singleton_append, List.find?_cons] at first
      rw [lines_token]
      cases named : isName token.kind.toList with
      | true => rw [unwritable, named] at first; rw [if_pos rfl, ih first]; rfl
      | false => rw [unwritable, named] at first; cases first; rfl
    | finish =>
      rw [lines_finish, ih first]
      rfl

theorem exists_lines {calls : List Call} (named : ∀ name ∈ Call.namesOf calls, isName name.toList = true) (depth : Nat)
    (pending : List String) : ∃ written, lines depth calls pending = .ok written := by
  induction calls generalizing depth pending with
  | nil => exact ⟨[], rfl⟩
  | cons call rest ih =>
    rw [Call.namesOf_cons] at named
    have later : ∀ name ∈ Call.namesOf rest, isName name.toList = true :=
      fun name inside => named name (List.mem_append_right _ inside)
    cases call with
    | start name rule =>
      obtain ⟨written, more⟩ := ih later (depth + 1) (name :: pending)
      rw [lines_start, if_pos (named name (by simp [Call.names])), more]
      exact ⟨_, rfl⟩
    | token token =>
      obtain ⟨written, more⟩ := ih later depth pending
      rw [lines_token, if_pos (named token.kind (by simp [Call.names])), more]
      exact ⟨_, rfl⟩
    | finish =>
      obtain ⟨written, more⟩ := ih later (depth - 1) (pending.drop 1)
      rw [lines_finish, more]
      exact ⟨_, rfl⟩

def document (lines : List String) : List Char := lines.flatMap fun line => line.toList ++ ['\n']

theorem toList_document (lines : List String) : (String.join (lines.map (· ++ "\n"))).toList = document lines := by
  induction lines with
  | nil => simp [document]
  | cons line rest ih => simp [document, String.join_cons] at ih ⊢; exact ih

/-- The reader between two elements, with the calls so far made on its builder. -/
def between (builder : Builder) : Reader := ⟨builder, none, builder.hasRoot && decide (builder.nesting = 0)⟩

theorem between_inside {builder : Builder} (inside : builder.nesting ≠ 0) :
    between builder = ⟨builder, none, false⟩ := by
  simp [between, inside]

private theorem between_ready {builder next : Builder} {call : Call} (made : builder.call call = .ok next) :
    between builder = ⟨builder, none, false⟩ := by
  rcases Builder.open_or_first made with inside | ⟨unrooted, -⟩
  · exact between_inside (Nat.ne_of_gt inside)
  · rw [between, unrooted, Bool.false_and]

private theorem blank_indentation (depth : Nat) : ∀ c ∈ (indentation depth).toList, isBlank c = true := by
  intro c inside
  rw [indentation, String.toList_ofList] at inside
  rw [List.eq_of_mem_replicate inside]
  decide

private theorem reads_line {reader : Reader} {names : List (List Char)} {tree : SyntaxTree} {element : String}
    {more : List String} {lead body : List Char} (idle : reader.token = none)
    (blank : ∀ c ∈ lead, isBlank c = true) (depth : Nat)
    (opened : element.toList = '<' :: body) (read : Reads reader names (element.toList ++ '\n' :: document more) tree) :
    Reads reader names (lead ++ document ((indentation depth ++ element) :: more)) tree := by
  have text : lead ++ document ((indentation depth ++ element) :: more) =
      (lead ++ (indentation depth).toList) ++ '<' :: (body ++ '\n' :: document more) := by
    simp [document, opened]
  rw [opened] at read
  rw [text]
  exact Reads.layout (List.forall_mem_append.mpr ⟨blank, blank_indentation depth⟩) idle read

/-- The lines of some calls, read by a builder that takes these calls. -/
private theorem reads_lines {calls : List Call} {builder done : Builder} {tree : SyntaxTree} {depth : Nat}
    {pending written : List String} {lead : List Char} (ran : builder.run calls = .ok done)
    (finished : done.finish = .ok tree) (printed : lines depth calls pending = .ok written)
    (named : ∀ name ∈ pending, isName name.toList = true) (nested : pending.length = builder.nesting)
    (blank : ∀ c ∈ lead, isBlank c = true) :
    Reads (between builder) (pending.map String.toList) (lead ++ document written) tree := by
  induction calls generalizing builder depth pending written lead with
  | nil =>
    cases ran
    cases printed
    obtain ⟨started, closed, -⟩ := Builder.finish_eq_ok finished
    rw [document, List.flatMap_nil, List.append_nil]
    refine Reads.last blank rfl fun offset => ?_
    simp [Reader.finish, between, started, closed, finished, Fault.ofViolation]
  | cons call rest ih =>
    obtain ⟨next, made, later⟩ := bind_eq_ok.mp ran
    obtain ⟨rooted, counted⟩ := Builder.nesting_call made
    have newline : ∀ c ∈ ['\n'], isBlank c = true := List.forall_mem_singleton.mpr (by decide)
    rw [between_ready made]
    cases call with
    | start name rule =>
      rw [lines_start] at printed
      split at printed
      next able =>
        obtain ⟨more, behind, rfl⟩ := map_eq_ok.mp printed
        have deeper : next.nesting = builder.nesting + 1 := counted
        have read := ih later behind (List.forall_mem_cons.mpr ⟨able, named⟩) (by simp [nested, deeper]) newline
        rw [between_inside (by omega)] at read
        exact reads_line rfl blank depth (by simp; rfl) (Reads.start able made read)
      next => cases printed
    | token token =>
      rw [lines_token] at printed
      split at printed
      next able =>
        obtain ⟨more, behind, rfl⟩ := map_eq_ok.mp printed
        have same : next.nesting = builder.nesting := counted
        have inside : builder.nesting ≠ 0 := by
          rcases Builder.open_or_first made with inside | ⟨-, opens⟩
          · exact Nat.ne_of_gt inside
          · cases opens
        have read := ih later behind named (by rw [nested, same]) newline
        rw [between_inside (by omega)] at read
        obtain ⟨body, opened⟩ := tokenElement_opens token
        exact reads_line rfl blank depth opened (Reads.token able made inside read)
      next => cases printed
    | finish =>
      rw [lines_finish] at printed
      obtain ⟨more, behind, rfl⟩ := map_eq_ok.mp printed
      have fewer : next.nesting + 1 = builder.nesting := counted
      cases pending with
      | nil => rw [← nested] at fewer; cases fewer
      | cons name outer =>
        obtain ⟨able, named⟩ := List.forall_mem_cons.mp named
        have read := ih later behind named (by simp at nested ⊢; omega) newline
        rw [between, rooted, Bool.true_and] at read
        exact reads_line rfl blank (depth - 1) (by simp; rfl) (Reads.finish able made read)

private theorem read_of_reads {text : String} {more : List Char} {tree : SyntaxTree}
    (spelled : text.toList = '<' :: more)
    (reads : Reads {} [] text.toList tree) : read text = .ok tree := by
  rw [spelled] at reads
  rw [read, scan, spelled]
  simp only
  rw [if_neg (by decide)]
  exact reads _ 0 (Nat.le_refl _)

variable {calls : List Call} {tree : SyntaxTree}

theorem write_eq_error (built : Builder.build calls = .ok tree) {name : String}
    (first : (Call.namesOf calls).find? unwritable = some name) : write tree = .error (.invalidXmlName name) := by
  rw [write, (SyntaxTree.readsBack_of_build built).made, lines_eq_error first]
  rfl

/-- What is written is read as the tree that it was written from. -/
theorem exists_write (built : Builder.build calls = .ok tree)
    (named : ∀ name ∈ Call.namesOf calls, isName name.toList = true) :
    ∃ text, write tree = .ok text ∧ read text = .ok tree := by
  obtain ⟨root, same, -⟩ := SyntaxTree.stands_of_build built
  obtain ⟨written, printed⟩ := exists_lines named 0 []
  obtain ⟨done, ran, finished⟩ := bind_eq_ok.mp built
  have reads : Reads {} [] (document written) tree := by
    have blank : ∀ c ∈ ([] : List Char), isBlank c = true := by simp
    exact reads_lines ran finished printed (by simp) rfl blank
  have opened : ∃ more, document written = '<' :: more := by
    rw [← same, Frame.calls_node, Frame.calls, List.cons_append, lines_start] at printed
    split at printed
    next =>
      obtain ⟨more, -, rfl⟩ := map_eq_ok.mp printed
      simp [document, indentation]
    next => cases printed
  obtain ⟨more, spelled⟩ := opened
  refine ⟨String.join (written.map (· ++ "\n")), ?_, ?_⟩
  · rw [write, (SyntaxTree.readsBack_of_build built).made, printed]
    rfl
  · rw [← toList_document] at spelled reads
    exact read_of_reads spelled reads

/-- Writing fails exactly with the first name that no tag can hold; without such a name the document of
a tree is read as that tree again. -/
theorem document_round_trip (calls : List Call) (tree : SyntaxTree) (built : Builder.build calls = .ok tree) :
    match (Call.namesOf tree.calls).find? fun name => !isName name.toList with
    | some name => write tree = .error (.invalidXmlName name)
    | none => ∃ document again, write tree = .ok document ∧ read document = .ok again ∧ (again == tree) = true ∧
        again.calls = tree.calls ∧ again.text = tree.text ∧ write again = .ok document := by
  rw [(SyntaxTree.readsBack_of_build built).made]
  split
  next name first => exact write_eq_error built first
  next all =>
    have named : ∀ name ∈ Call.namesOf calls, isName name.toList = true := by
      intro name inside
      simpa using List.find?_eq_none.mp all name inside
    obtain ⟨text, written, read⟩ := exists_write built named
    have same : (tree == tree) = true := beq_self_eq_true tree.calls
    exact ⟨text, tree, written, read, same, (SyntaxTree.readsBack_of_build built).made, rfl, written⟩

theorem hidden_text_round_trip :
    let root : Element := .node "unit" 4294967295
      [.token ⟨"ä-1", "\r <&>\n", .hidden, ⟨⟨1, -7⟩, ⟨0, -1⟩⟩⟩,
        .node "_" 0 [.token ⟨"EOF", "", .visible, ⟨⟨2, 0⟩, ⟨2, -1⟩⟩⟩]]
    ∃ tree, Builder.build root.calls = .ok tree ∧
      ∃ document again, write tree = .ok document ∧ read document = .ok again ∧ (again == tree) = true ∧
        again.calls = tree.calls ∧ again.text = tree.text ∧ write again = .ok document := by
  intro root
  have fits : Builder.Fits root.calls := .ofLength (by decide) (by decide) (by decide)
  obtain ⟨tree, built⟩ := Builder.exists_build ⟨_, _, _⟩ fits
  have made : tree.calls = root.calls := (SyntaxTree.readsBack_of_build built).made
  have named : (Call.namesOf tree.calls).find? (fun name => !isName name.toList) = none := by
    rw [made]
    decide
  have trip := document_round_trip root.calls tree built
  rw [named] at trip
  exact ⟨tree, built, trip⟩

end Verbatim.Xml
