import Verbatim.Proofs.DocumentAcceptance
import Verbatim.Proofs.RenderedTags

/-! The documents that stand for one tree. Layout between elements, the order of attributes and the form of tags
and texts are free; whatever is chosen, the parts of the document describe the same elements. -/

namespace Verbatim.Xml

open Verbatim.Xml.Part

mutual

/-- A text that is the element of a tree, from the start of its first tag to the end of its last. -/
inductive Renders : Element → List Char → Prop
  | node {name : String} {rule : RuleId} {children : List Element} {tag : RenderedTag} {raw trail : List Char}
    (starts : tag.OfNode name rule) (inner : RendersAll children raw) (spaces : ∀ c ∈ trail, isSpace c = true) :
    Renders (.node name rule children)
      ('<' :: (tag.text ++ '>' :: (raw ++ '<' :: ('/' :: (name.toList ++ trail) ++ ['>']))))
  | childless {name : String} {rule : RuleId} {tag : RenderedTag} (starts : tag.OfNode name rule) :
    Renders (.node name rule []) ('<' :: (tag.text ++ ['/', '>']))
  | token {token : Token} {tag : RenderedTag} {raw trail : List Char} (starts : tag.OfToken token)
    (inner : Content raw token.text.toList) (spaces : ∀ c ∈ trail, isSpace c = true) :
    Renders (.token token)
      ('<' :: (tag.text ++ '>' :: (raw ++ '<' :: ('/' :: (token.kind.toList ++ trail) ++ ['>']))))
  | textless {token : Token} {tag : RenderedTag} (starts : tag.OfToken token) (empty : token.text = "") :
    Renders (.token token) ('<' :: (tag.text ++ ['/', '>']))

/-- Elements one behind the other, with layout in front of, between and behind them. -/
inductive RendersAll : List Element → List Char → Prop
  | nil {space : List Char} (layout : Layout space) : RendersAll [] space
  | cons {element : Element} {rest : List Element} {space raw more : List Char} (layout : Layout space)
    (first : Renders element raw) (later : RendersAll rest more) : RendersAll (element :: rest) (space ++ (raw ++ more))

end

/-- Parts that are proper at their place and describe some elements, with the events that they come from. -/
structure Describes (place : Place) (events : List Event) (parts : List Part) (elements : List Element) : Prop where
  adds : ∀ contents : Contents, events.foldl Contents.take contents = parts.foldl Contents.add contents
  listed : ∀ tag, .start tag ∈ events ∨ .empty tag ∈ events → tag.read.Whole
  tidy : Tidy place parts
  elements : elementsOf parts = elements

private theorem foldl_add_pending (parts top below : List Part) (tag : TagText) (outer : List (TagText × List Part)) :
    parts.foldl Contents.add ⟨top, (tag, below) :: outer⟩ = ⟨top, (tag, below ++ parts) :: outer⟩ := by
  induction parts generalizing below with
  | nil => rw [List.append_nil]; rfl
  | cons part rest ih =>
    rw [List.foldl_cons, Contents.add, ih, List.append_assoc]
    rfl

private theorem foldl_add_top (parts top : List Part) : parts.foldl Contents.add ⟨top, []⟩ = ⟨top ++ parts, []⟩ := by
  induction parts generalizing top with
  | nil => rw [List.append_nil]; rfl
  | cons part rest ih =>
    rw [List.foldl_cons, Contents.add, ih, List.append_assoc]
    rfl

namespace Describes

variable {place : Place} {first second events : List Event} {front back parts : List Part}
  {before after elements below : List Element} {tag : TagText}

theorem append (leading : Describes place first front before) (trailing : Describes place second back after) :
    Describes place (first ++ second) (front ++ back) (before ++ after) where
  adds contents := by rw [List.foldl_append, List.foldl_append, leading.adds, trailing.adds]
  listed tag member := by
    rw [List.mem_append, List.mem_append, or_or_or_comm] at member
    exact member.elim (leading.listed tag) (trailing.listed tag)
  tidy := tidy_append.mpr ⟨leading.tidy, trailing.tidy⟩
  elements := by rw [elementsOf_append, leading.elements, trailing.elements]

private theorem ofPieces {text : List Char} (pieces : Pieces parts text)
    (blank : place ≠ .token → ∀ c ∈ text, isBlank c = true) : Describes place (eventsOf parts) parts [] := by
  refine ⟨?_, ?_, pieces.tidy blank, pieces.elementsOf_eq⟩
  · have texts := pieces.texts
    clear blank pieces
    induction parts with
    | nil => exact fun _ => rfl
    | cons part rest ih =>
      obtain ⟨word, words⟩ := List.forall_mem_cons.mp texts
      intro contents
      cases part with
      | text | cdata => exact ih words _
      | element => cases word
  · have texts := pieces.texts
    clear blank pieces
    induction parts with
    | nil => exact fun _ member => nomatch member
    | cons part rest ih =>
      obtain ⟨word, words⟩ := List.forall_mem_cons.mp texts
      intro tag member
      cases part with
      | text | cdata => exact ih words tag (by simpa [eventsOf, Part.events] using member)
      | element => cases word

theorem element (inner : Describes (if tag.Has ruleKey then .node else .token) events parts below)
    (whole : tag.read.Whole) (proper : Proper place (.element tag parts)) :
    Describes place (.start tag :: (events ++ [.finish])) [.element tag parts] (Part.element tag parts).elements where
  adds contents := by
    rw [List.foldl_cons, List.foldl_append, inner.adds, Contents.take, foldl_add_pending]
    rfl
  listed other member := by
    have cases : other = tag ∨ .start other ∈ events ∨ .empty other ∈ events := by simpa [or_assoc] using member
    rcases cases with rfl | within
    · exact whole
    · exact inner.listed other within
  tidy := tidy_element.mpr ⟨proper, inner.tidy⟩
  elements := List.append_nil _

private theorem emptyElement (whole : tag.read.Whole) (proper : Proper place (.element tag [])) :
    Describes place [.empty tag] [.element tag []] (Part.element tag []).elements where
  adds contents := rfl
  listed other member := by
    have same : other = tag := by simpa using member
    exact same ▸ whole
  tidy := tidy_element.mpr ⟨proper, tidy_nil _⟩
  elements := List.append_nil _

end Describes

private theorem yields_layout {space rest : List Char} {names : List (List Char)} {events : List Event}
    (layout : Layout space)
    (place : Place) (edge : Edge rest) (later : Yields names rest events) :
    ∃ found parts, Yields names (space ++ rest) (found ++ events) ∧ Describes place found parts [] := by
  obtain ⟨text, content, blank⟩ := layout.content
  obtain ⟨parts, pieces, read⟩ := content.yields .nil edge later
  exact ⟨eventsOf parts, parts, read, .ofPieces pieces fun _ => blank⟩

private theorem edge_renders {element : Element} {raw : List Char} (renders : Renders element raw) (rest : List Char) :
    Edge (raw ++ rest) := by
  cases renders with
  | node | childless | token | textless => exact .inr ⟨_, rfl⟩

section Tags

variable {tag : RenderedTag} {name rest trail : List Char} {names : List (List Char)} {events : List Event}

private theorem yields_start (formed : tag.Formed) (later : Yields (tag.name.toList :: names) rest events) :
    Yields names ('<' :: (tag.text ++ '>' :: rest)) (.start tag.scanned :: events) :=
  Yields.markup (fun offset => formed.scanMarkup_start offset names rest) (by simp; omega) later

private theorem yields_empty (formed : tag.Formed) (later : Yields names rest events) :
    Yields names ('<' :: (tag.text ++ '/' :: '>' :: rest)) (.empty tag.scanned :: events) :=
  Yields.markup (fun offset => formed.scanMarkup_empty offset names rest) (by simp; omega) later

private theorem yields_finish (named : isName name = true) (spaces : ∀ c ∈ trail, isSpace c = true)
    (later : Yields names rest events) :
    Yields (name :: names) ('<' :: ('/' :: (name ++ trail) ++ '>' :: rest)) (.finish :: events) :=
  Yields.markup (fun offset => scanMarkup_finish offset names rest named spaces) (by simp; omega) later

end Tags

mutual

private theorem yields_element (element : Element) {raw rest : List Char} {names : List (List Char)}
    {events : List Event}
    {place : Place} (renders : Renders element raw) (apart : place ≠ .token)
    (inside : ∀ token, element = .token token → place = .node) (later : Yields names rest events) :
    ∃ found parts, Yields names (raw ++ rest) (found ++ events) ∧ Describes place found parts [element] := by
  match element with
  | .node name rule children =>
    cases renders with
    | @node _ _ _ tag raw trail starts inner spaces =>
      have closing := yields_finish starts.formed.name spaces later
      obtain ⟨found, parts, read, describes⟩ :=
        @yields_elements children _ _ _ _ .node inner nofun (fun _ _ => rfl) (.inr ⟨_, rfl⟩) closing
      have proper : Proper place (.element tag.scanned parts) := ⟨starts.meaningful, apart, .inl starts.ruled⟩
      have whole := starts.formed.whole_scanned
      have inner : Describes (if tag.scanned.Has ruleKey then .node else .token) found parts children := by
        rwa [if_pos starts.ruled]
      have element := inner.element whole proper
      simp only [Part.elements, starts.meaning?_eq, describes.elements] at element
      refine ⟨_, _, ?_, element⟩
      have all := yields_start starts.formed read
      rw [starts.name] at all
      simpa only [List.append_assoc, List.cons_append, List.nil_append] using all
    | childless starts =>
      have proper : Proper place (.element _ []) := ⟨starts.meaningful, apart, .inl starts.ruled⟩
      have element := Describes.emptyElement starts.formed.whole_scanned proper
      simp only [Part.elements, starts.meaning?_eq, elementsOf] at element
      refine ⟨_, _, ?_, element⟩
      simpa only [List.append_assoc, List.cons_append, List.nil_append] using yields_empty starts.formed later
  | .token token =>
    have within := inside token rfl
    cases renders with
    | @token _ tag raw trail starts inner spaces =>
      have closing := yields_finish starts.formed.name spaces later
      obtain ⟨parts, pieces, read⟩ := inner.yields .nil (.inr ⟨_, rfl⟩) closing
      have proper : Proper place (.element tag.scanned parts) := ⟨starts.meaningful, apart, .inr within⟩
      have whole := starts.formed.whole_scanned
      have inner : Describes (if tag.scanned.Has ruleKey then .node else .token) (eventsOf parts) parts [] := by
        rw [if_neg starts.unruled]
        exact .ofPieces pieces fun other => absurd rfl other
      have element := inner.element whole proper
      simp only [Part.elements, starts.meaning?_eq, pieces.whole, List.nil_append, String.ofList_toList] at element
      refine ⟨_, _, ?_, element⟩
      have all := yields_start starts.formed read
      rw [starts.name] at all
      simpa only [List.append_assoc, List.cons_append, List.nil_append] using all
    | @textless _ tag starts empty =>
      have proper : Proper place (.element tag.scanned []) := ⟨starts.meaningful, apart, .inr within⟩
      have element := Describes.emptyElement starts.formed.whole_scanned proper
      have same : String.ofList (textOf []) = token.text := empty.symm
      simp only [Part.elements, starts.meaning?_eq, same] at element
      refine ⟨_, _, ?_, element⟩
      simpa only [List.append_assoc, List.cons_append, List.nil_append] using yields_empty starts.formed later

private theorem yields_elements (elements : List Element) {raw rest : List Char} {names : List (List Char)}
    {events : List Event} {place : Place} (renders : RendersAll elements raw) (apart : place ≠ .token)
    (inside : ∀ token, .token token ∈ elements → place = .node) (edge : Edge rest) (later : Yields names rest events) :
    ∃ found parts, Yields names (raw ++ rest) (found ++ events) ∧ Describes place found parts elements := by
  match elements with
  | [] =>
    cases renders with
    | nil layout => exact yields_layout layout place edge later
  | first :: others =>
    cases renders with
    | @cons _ _ space raw more layout renders others' =>
    obtain ⟨behind, last, read, describes⟩ := yields_elements others others' apart
      (fun token member => inside token (List.mem_cons_of_mem _ member)) edge later
    obtain ⟨own, single, whole, described⟩ := yields_element first renders apart
      (fun token same => inside token (same ▸ List.mem_cons_self)) read
    obtain ⟨front, blanks, all, leading⟩ := yields_layout layout place (edge_renders renders (more ++ rest)) whole
    refine ⟨front ++ (own ++ behind), blanks ++ (single ++ last), ?_, leading.append (described.append describes)⟩
    simpa only [List.append_assoc] using all

end

/-- A document that renders a tree has no byte order mark in front, and is scanned from its first character. -/
private theorem scan_rendering {document : String} {root : Element} {found : List Event}
    (renders : RendersAll [root] document.toList) (read : Yields [] document.toList found) :
    (scan document).Whole ∧ (scan document).events = found := by
  have unmarked : ∃ c rest, document.toList = c :: rest ∧ c.toNat ≠ 0xFEFF := by
    generalize document.toList = text at renders
    cases renders with
    | cons layout first later =>
      cases layout with
      | nil =>
        obtain empty | ⟨more, opened⟩ := edge_renders first []
        · cases first <;> cases empty
        · rw [List.append_nil] at opened
          exact ⟨'<', _, by rw [opened]; rfl, by decide⟩
      | @blank c rest blank _ =>
        refine ⟨c, _, rfl, fun mark => ?_⟩
        rw [isBlank, mark] at blank
        cases blank
      | comment closed _ => exact ⟨'<', _, rfl, by decide⟩
  obtain ⟨c, rest, spelled, unmarked⟩ := unmarked
  rw [scan, spelled]
  dsimp only
  rw [if_neg unmarked]
  rw [spelled] at read
  exact read _ 0 (Nat.le_refl _)

/-- However a tree is rendered as a document, the document is read as that tree. -/
theorem read_rendering (root : Element) (tree : SyntaxTree) (built : Builder.build root.calls = .ok tree)
    (document : String) (renders : RendersAll [root] document.toList) : read document = .ok tree := by
  obtain ⟨top, rfl⟩ : ∃ top : Frame, root = top.node := by
    cases root with
    | node name rule children => exact ⟨⟨name, rule, children⟩, rfl⟩
    | token token => cases built
  obtain ⟨found, parts, read, describes⟩ := yields_elements [top.node] renders (nofun : Place.outside ≠ .token)
    (by simp [Frame.node]) (.inl rfl) (Yields.nil [])
  rw [List.append_nil, List.append_nil] at read
  obtain ⟨whole, events⟩ := scan_rendering renders read
  have contents : contents document = ⟨parts, []⟩ := by
    rw [Xml.contents, Contents.of, events, describes.adds]
    exact foldl_add_top parts []
  have closed : (Xml.contents document).parts = parts := by
    rw [contents, Contents.parts_of_closed rfl]
  have calls : calls document = top.node.calls := by
    rw [Xml.calls, closed, describes.elements, Element.callsOf, Element.callsOf, List.append_nil]
  have fits : Builder.Fits (Xml.calls document) := by
    obtain ⟨_, same, shown⟩ := Builder.build_eq_ok built
    rw [calls, ← same]
    exact shown.fits
  have listed : ∀ tag ∈ (scan document).tags, tag.read.Whole := by
    intro tag inside
    apply describes.listed
    rw [← events]
    obtain ⟨event, member, starts⟩ := List.mem_filterMap.mp inside
    cases event with
    | start other => cases starts; exact .inl member
    | empty other => cases starts; exact .inr member
    | text | cdata | finish => cases starts
  obtain ⟨-, again, made, rebuilt⟩ | ⟨fails, -⟩ | ⟨cramped, -⟩ := judged_document whole listed fun _ : True => fits
  · rw [calls, built] at rebuilt
    cases rebuilt
    exact made
  · exact absurd ⟨by rw [contents], closed ▸ describes.tidy, top, closed ▸ describes.elements⟩ fails
  · exact absurd trivial cramped

def isPlain (c : Char) : Bool := c != '&' && c != '<' && c != Char.ofNat 39

def plainAssignment (key value : String) : Assignment := ⟨[' '], key, [], [], Char.ofNat 39, value.toList, value.toList⟩

private theorem formed_plainAssignment {key value : String} (named : isName key.toList = true)
    (free : value.toList.all isPlain = true) : (plainAssignment key value).Formed := by
  have plain : ∀ c ∈ value.toList, (c ≠ '&' ∧ c ≠ '<') ∧ c ≠ Char.ofNat 39 := by
    simpa [isPlain] using free
  constructor
  case apart => exact List.cons_ne_nil _ _
  case spaces => exact List.forall_mem_singleton.mpr rfl
  case key => exact named
  case quoted => exact (by decide : isQuote (Char.ofNat 39) = true)
  case closed => exact fun inside => (plain _ inside).2 rfl
  case spelled => exact .plain fun c inside => (plain c inside).1

theorem commented_document_read :
    let root : Element := .node "unit" 7 [.token ⟨"ID", "a<", .visible, ⟨⟨1, 0⟩, ⟨1, 1⟩⟩⟩]
    let document := "<!-- one -->\n<unit note='x' rule-id='7'> <ID end-col='1' end-line='1' hidden='false'" ++
      " start-line='1' start-col='0'>a&#60;<!-- two --></ID ></unit>\n"
    ∃ tree, Builder.build root.calls = .ok tree ∧ RendersAll [root] document.toList ∧ read document = .ok tree := by
  intro root document
  have fits : Builder.Fits root.calls := .ofLength (by decide) (by decide) (by decide)
  obtain ⟨tree, built⟩ := Builder.exists_build ⟨_, _, _⟩ fits
  let unit : RenderedTag := ⟨"unit", [plainAssignment "note" "x", plainAssignment ruleKey "7"], []⟩
  let identifier : RenderedTag := ⟨"ID", [plainAssignment lastColumnKey "1", plainAssignment lastLineKey "1",
    plainAssignment hiddenKey "false", plainAssignment firstLineKey "1", plainAssignment firstColumnKey "0"], []⟩
  have node : unit.OfNode "unit" 7 := by
    refine ⟨⟨by decide, ?_, by decide, nofun⟩, rfl, by decide, by decide⟩
    simp only [unit, List.forall_mem_cons, List.not_mem_nil, false_implies, implies_true, and_true]
    exact ⟨formed_plainAssignment (by decide) (by decide), formed_plainAssignment (by decide) (by decide)⟩
  have starts : identifier.OfToken ⟨"ID", "a<", .visible, ⟨⟨1, 0⟩, ⟨1, 1⟩⟩⟩ := by
    refine ⟨⟨by decide, ?_, by decide, nofun⟩, rfl, by decide, by decide, by decide, by decide, nofun, ?_, by decide⟩
    · simp only [identifier, List.forall_mem_cons, List.not_mem_nil, false_implies, implies_true, and_true]
      exact ⟨formed_plainAssignment (by decide) (by decide), formed_plainAssignment (by decide) (by decide),
        formed_plainAssignment (by decide) (by decide), formed_plainAssignment (by decide) (by decide),
        formed_plainAssignment (by decide) (by decide)⟩
    · exact fun _ => by decide
  have before : Layout ("<!--".toList ++ " one ".toList ++ "-->".toList ++ ['\n']) :=
    .comment (by decide) (.blank (by decide) .nil)
  have between : Layout [' '] := .blank (by decide) .nil
  have after : Layout ['\n'] := .blank (by decide) .nil
  have reference : Reference ['#', '6', '0'] '<' := .decimal (by decide)
  have spelled : Spelled (['a'] ++ ('&' :: ['#', '6', '0'] ++ [';'])) (['a'] ++ ['<']) :=
    .append (.char (by decide) (by decide) .nil) (.reference reference .nil)
  have content : Content (_ ++ ("<!--".toList ++ " two ".toList ++ "-->".toList ++ [])) "a<".toList :=
    .text spelled (.comment (by decide) .nil)
  have trail : ∀ c ∈ [' '], isSpace c = true := List.forall_mem_singleton.mpr rfl
  have token := Renders.token starts content trail
  have whole := RendersAll.cons before (.node node (.cons between token (.nil .nil)) (List.forall_mem_nil _)) (.nil after)
  have renders : RendersAll [root] document.toList := by
    refine (congrArg (RendersAll [root]) ?_).mp whole
    decide +kernel
  exact ⟨tree, built, renders, read_rendering root tree built document renders⟩

end Verbatim.Xml
