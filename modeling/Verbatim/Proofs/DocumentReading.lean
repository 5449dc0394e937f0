import Verbatim.Proofs.TagReading
import Verbatim.Proofs.TreeNesting
import Mathlib.Data.List.TakeWhile

/-! Reading what was written. `Reads` says that a reader makes a tree of the rest of a document, however
far into the document that is; each lemma puts one more element in front of the rest. -/

namespace Verbatim.Xml

theorem blank_ne {c : Char} (blank : isBlank c = true) : c ≠ '<' ∧ c ≠ '&' := by
  constructor <;> (rintro rfl; revert blank; decide)

/-- A reader makes the tree of the rest of a document in which the named elements are open. -/
def Reads (reader : Reader) (names : List (List Char)) (text : List Char) (tree : SyntaxTree) : Prop :=
  ∀ fuel offset, text.length ≤ fuel → reader.run (scanFrom fuel offset names text) = .ok tree

namespace Reads

variable {reader next : Reader} {names outer : List (List Char)} {body rest raw : List Char} {tree : SyntaxTree}

theorem markup {event : Event}
    (piece : ∀ offset, ∃ behind, scanMarkup offset names body = .piece (some event) behind outer rest)
    (shorter : rest.length ≤ body.length) (taken : ∀ offset, reader.step event offset = .ok next)
    (later : Reads next outer rest tree) : Reads reader names ('<' :: body) tree := by
  intro fuel offset enough
  cases fuel with
  | zero => cases enough
  | succ fuel =>
    obtain ⟨behind, found⟩ := piece (offset + 1)
    rw [scanFrom, if_pos (by decide), found]
    simp only [Reader.run, taken, Except.bind]
    exact later fuel behind (Nat.le_trans shorter (Nat.le_of_succ_le_succ enough))

theorem text (filled : raw ≠ []) (plain : '<' ∉ raw) (taken : ∀ offset, reader.step (.text raw) offset = .ok next)
    (later : Reads next names ('<' :: rest) tree) : Reads reader names (raw ++ '<' :: rest) tree := by
  intro fuel offset enough
  have inner : ∀ d ∈ raw, (d != '<') = true := by
    intro d inside
    rw [bne_iff_ne]
    rintro rfl
    exact plain inside
  obtain ⟨front, back⟩ := split_at rest inner (c := '<') (by decide)
  obtain ⟨first, more, rfl⟩ := List.exists_cons_of_ne_nil filled
  cases fuel with
  | zero => cases enough
  | succ fuel =>
    have other : (first == '<') = false := by simpa using inner first List.mem_cons_self
    rw [List.cons_append] at front back ⊢
    rw [scanFrom, other]
    simp only [front, back, Bool.false_eq_true, ↓reduceIte, List.isEmpty_cons, Reader.run, taken, Except.bind]
    apply later
    simp only [List.length_cons, List.length_append] at enough ⊢
    omega

private theorem step_blank (blank : ∀ c ∈ raw, isBlank c = true) (idle : reader.token = none) (offset : Nat) :
    reader.step (.text raw) offset = .ok reader := by
  have plain : '&' ∉ raw := fun inside => (blank_ne (blank _ inside)).2 rfl
  have all : raw.all isBlank = true := List.all_eq_true.mpr blank
  simp only [Reader.step, unescape, unescapeFrom_plain _ plain, Reader.addText, idle, all, ↓reduceIte]

theorem layout (blank : ∀ c ∈ raw, isBlank c = true) (idle : reader.token = none)
    (later : Reads reader names ('<' :: rest) tree) :
    Reads reader names (raw ++ '<' :: rest) tree := by
  by_cases empty : raw = []
  · rw [empty]
    exact later
  · exact text empty (fun inside => (blank_ne (blank _ inside)).1 rfl) (step_blank blank idle) later

theorem last (blank : ∀ c ∈ raw, isBlank c = true) (idle : reader.token = none)
    (finished : ∀ offset, reader.finish offset = .ok tree) :
    Reads reader names raw tree := by
  intro fuel offset enough
  cases raw with
  | nil => cases fuel <;> exact finished offset
  | cons first more =>
    cases fuel with
    | zero => cases enough
    | succ fuel =>
      have inner : ∀ d ∈ first :: more, (d != '<') = true :=
        fun d inside => bne_iff_ne.mpr (blank_ne (blank d inside)).1
      have other : (first == '<') = false := by simpa using inner first List.mem_cons_self
      have all : (first :: more).takeWhile (· != '<') = first :: more := List.takeWhile_eq_self_iff.mpr inner
      have none : (first :: more).dropWhile (· != '<') = [] := List.dropWhile_eq_nil_iff.mpr inner
      rw [scanFrom, other]
      simp only [all, none, Bool.false_eq_true, ↓reduceIte, List.isEmpty_nil, Reader.run, step_blank blank idle,
        Except.bind, finished]

theorem start {builder opened : Builder} {name : String} {rule : RuleId} (named : isName name.toList = true)
    (made : builder.call (.start name rule) = .ok opened)
    (later : Reads ⟨opened, none, false⟩ (name.toList :: names) rest tree) :
    Reads ⟨builder, none, false⟩ names
      (("<" ++ name ++ assignment ruleKey (Numeral.decimal rule.toNat) ++ ">").toList ++ rest) tree := by
  have text : ("<" ++ name ++ assignment ruleKey (Numeral.decimal rule.toNat) ++ ">").toList ++ rest =
      '<' :: (name.toList ++ assignments (nodePairs rule) ++ '>' :: rest) := by
    simp [assignments, nodePairs]
  rw [text]
  refine markup (fun offset => scanMarkup_start offset names rest named (List.cons_ne_nil _ _) plain_nodePairs)
    (by simp; omega) ?_ later
  intro offset
  simp only [Reader.step, opening_node, Reader.startNode, Reader.call, made, Bool.false_eq_true, ↓reduceIte]

theorem finish {builder closed : Builder} {name : String} (named : isName name.toList = true)
    (made : builder.call .finish = .ok closed)
    (later : Reads ⟨closed, none, decide (closed.nesting = 0)⟩ names rest tree) :
    Reads ⟨builder, none, false⟩ (name.toList :: names) (("</" ++ name ++ ">").toList ++ rest) tree := by
  have text : ("</" ++ name ++ ">").toList ++ rest = '<' :: ('/' :: name.toList ++ '>' :: rest) := by simp
  rw [text]
  refine markup (fun offset => scanMarkup_end offset names rest named) (by simp; omega) ?_ later
  intro offset
  simp only [Reader.step, Reader.finishNode, Reader.call, made, Except.map, Bool.false_or]

private theorem filled_tokenPairs (token : Token) : tokenPairs token ≠ [] := List.cons_ne_nil _ _

private theorem token_empty {builder more : Builder} {token : Token} (named : isName token.kind.toList = true)
    (empty : token.text = "") (made : builder.call (.token token) = .ok more) (inside : builder.nesting ≠ 0)
    (later : Reads ⟨more, none, false⟩ names rest tree) :
    Reads ⟨builder, none, false⟩ names
      ('<' :: (token.kind.toList ++ assignments (tokenPairs token) ++ '/' :: '>' :: rest)) tree := by
  refine markup (fun offset => scanMarkup_empty offset names rest named (filled_tokenPairs token)
    (plain_tokenPairs token)) (by simp; omega) ?_ later
  intro offset
  have whole : (⟨token.kind, String.ofList [], token.channel, token.span⟩ : Token) = token := by
    rw [String.ofList_nil, ← empty]
  simp only [Reader.step, opening_token, Reader.checkToken, inside, ↓reduceIte, Except.bind, Reader.addToken, whole,
    Reader.call, made]

private theorem token_filled {builder more : Builder} {token : Token} (named : isName token.kind.toList = true)
    (filled : token.text ≠ "") (made : builder.call (.token token) = .ok more) (inside : builder.nesting ≠ 0)
    (later : Reads ⟨more, none, false⟩ names rest tree) :
    Reads ⟨builder, none, false⟩ names ('<' :: (token.kind.toList ++ assignments (tokenPairs token) ++
      '>' :: (escape token.text.toList ++ '<' :: ('/' :: token.kind.toList ++ '>' :: rest)))) tree := by
  have closing : Reads ⟨builder, some ⟨token.kind, token.channel, token.span, token.text.toList⟩, false⟩
      (token.kind.toList :: names) ('<' :: ('/' :: token.kind.toList ++ '>' :: rest)) tree := by
    refine markup (fun offset => scanMarkup_end offset names rest named) (by simp; omega) ?_ later
    intro offset
    simp only [Reader.step, Reader.addToken, Reader.call, String.ofList_toList, made]
  have content : Reads ⟨builder, some ⟨token.kind, token.channel, token.span, []⟩, false⟩ (token.kind.toList :: names)
      (escape token.text.toList ++ '<' :: ('/' :: token.kind.toList ++ '>' :: rest)) tree := by
    refine text ?_ (fun inside => mem_escape_ne inside rfl) ?_ closing
    · rw [Ne, escape_eq_nil_iff, String.toList_eq_nil_iff]
      exact filled
    · intro offset
      simp only [Reader.step, unescape_escape, Reader.addText, List.nil_append]
  refine markup (fun offset => scanMarkup_start offset names _ named (filled_tokenPairs token) (plain_tokenPairs token))
    (by simp; omega) ?_ content
  intro offset
  simp only [Reader.step, opening_token, Reader.checkToken, inside, ↓reduceIte, Except.map]

theorem token {builder more : Builder} {token : Token} (named : isName token.kind.toList = true)
    (made : builder.call (.token token) = .ok more) (inside : builder.nesting ≠ 0)
    (later : Reads ⟨more, none, false⟩ names rest tree) :
    Reads ⟨builder, none, false⟩ names ((tokenElement token).toList ++ rest) tree := by
  unfold tokenElement
  split
  next empty =>
    have text : ("<" ++ tokenTag token ++ "/>").toList ++ rest =
        '<' :: (token.kind.toList ++ assignments (tokenPairs token) ++ '/' :: '>' :: rest) := by
      simp [toList_tokenTag]
    rw [text]
    exact token_empty named (String.isEmpty_iff.mp empty) made inside later
  next filled =>
    have text : ("<" ++ tokenTag token ++ ">" ++ String.ofList (escape token.text.toList) ++ "</" ++ token.kind ++
        ">").toList ++ rest = '<' :: (token.kind.toList ++ assignments (tokenPairs token) ++
          '>' :: (escape token.text.toList ++ '<' :: ('/' :: token.kind.toList ++ '>' :: rest))) := by
      simp [toList_tokenTag]
    rw [text]
    exact token_filled named (fun empty => filled (String.isEmpty_iff.mpr empty)) made inside later

end Reads

theorem tokenElement_opens (token : Token) : ∃ body, (tokenElement token).toList = '<' :: body := by
  unfold tokenElement
  split <;> simp

end Verbatim.Xml
