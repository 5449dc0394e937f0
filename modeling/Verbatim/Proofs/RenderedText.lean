import Verbatim.Proofs.DocumentMeaning

/-! Text as a document may have it. Characters stand for themselves or are referred to, sections hold them as
they are, and comments may stand between. Scanning cuts this into pieces whose characters are again the text. -/

namespace Verbatim.Xml

/-- What stands between ampersand and semicolon, and the character that it refers to. -/
inductive Reference : List Char → Char → Prop
  | ampersand : Reference "amp".toList '&'
  | less : Reference "lt".toList '<'
  | greater : Reference "gt".toList '>'
  | quote : Reference "quot".toList (Char.ofNat 34)
  | apostrophe : Reference "apos".toList (Char.ofNat 39)
  | decimal {digits : List Char} {c : Char} (read : Numeral.magnitude? 10 digits = some c.toNat) :
    Reference ('#' :: digits) c
  | hexadecimal {digits : List Char} {c : Char} (read : Numeral.magnitude? 16 digits = some c.toNat) :
    Reference ('#' :: 'x' :: digits) c

namespace Reference

variable {reference digits : List Char} {c : Char} {base : Nat}

private theorem word?_digits (read : Numeral.magnitude? base digits = some c.toNat) :
    (Numeral.word? base digits).bind scalar? = some c := by
  have fits : c.toNat < UInt32.size := c.val.toNat_lt
  rw [Numeral.word?_of_magnitude? read fits, Option.bind_some, scalar?_ofNat]

private theorem notMem_digits (read : Numeral.magnitude? base digits = some c.toNat) {d : Char}
    (other : Numeral.digit? base d = none) : d ∉ digits := by
  intro inside
  have digit := Numeral.digit?_of_magnitude? read inside
  rw [other] at digit
  cases digit

theorem resolve_decimal (unmarked : 'x' ∉ digits) (read : (Numeral.word? 10 digits).bind scalar? = some c) :
    resolve ('#' :: digits) = .ok c := by
  have other : ∀ more, digits ≠ 'x' :: more := by
    rintro more rfl
    exact unmarked List.mem_cons_self
  unfold resolve
  rw [if_neg (by simp), if_neg (by simp), if_neg (by simp), if_neg (by simp), if_neg (by simp)]
  split
  next more marked => exact absurd (List.cons.inj marked).2 (other more)
  next found =>
    cases found
    simp only [read]
  next strange => exact absurd rfl (strange digits)

theorem resolve_hexadecimal (read : (Numeral.word? 16 digits).bind scalar? = some c) :
    resolve ('#' :: 'x' :: digits) = .ok c := by
  unfold resolve
  rw [if_neg (by simp), if_neg (by simp), if_neg (by simp), if_neg (by simp), if_neg (by simp)]
  simp only [read]

theorem resolve_eq (refers : Reference reference c) : resolve reference = .ok c := by
  cases refers with
  | ampersand | less | greater | quote | apostrophe => rfl
  | decimal read => exact resolve_decimal (notMem_digits read (by decide)) (word?_digits read)
  | hexadecimal read => exact resolve_hexadecimal (word?_digits read)

private theorem notMem (refers : Reference reference c) {d : Char} (other : d = ';' ∨ d = '<') : d ∉ reference := by
  have undecimal : Numeral.digit? 10 d = none := by rcases other with rfl | rfl <;> decide
  have unhexadecimal : Numeral.digit? 16 d = none := by rcases other with rfl | rfl <;> decide
  have apart : d ≠ '#' ∧ d ≠ 'x' := by rcases other with rfl | rfl <;> decide
  cases refers with
  | ampersand | less | greater | quote | apostrophe => rcases other with rfl | rfl <;> decide
  | decimal read => simp [apart, notMem_digits read undecimal]
  | hexadecimal read => simp [apart, notMem_digits read unhexadecimal]

end Reference

/-- Characters as they may stand in text and in values. -/
inductive Spelled : List Char → List Char → Prop
  | nil : Spelled [] []
  | char {c : Char} {raw text : List Char} (unmarked : c ≠ '&') (unbracketed : c ≠ '<') (later : Spelled raw text) :
    Spelled (c :: raw) (c :: text)
  | reference {reference raw text : List Char} {c : Char} (refers : Reference reference c) (later : Spelled raw text) :
    Spelled ('&' :: reference ++ ';' :: raw) (c :: text)

namespace Spelled

variable {raw text first second more : List Char}

theorem append (front : Spelled first text) (back : Spelled second more) :
    Spelled (first ++ second) (text ++ more) := by
  induction front with
  | nil => exact back
  | char unmarked unbracketed _ ih => exact .char unmarked unbracketed ih
  | reference refers _ ih =>
    rw [List.append_assoc, List.cons_append]
    exact .reference refers ih

theorem plain (free : ∀ c ∈ text, c ≠ '&' ∧ c ≠ '<') : Spelled text text := by
  induction text with
  | nil => exact .nil
  | cons c rest ih =>
    obtain ⟨first, later⟩ := List.forall_mem_cons.mp free
    exact .char first.1 first.2 (ih later)

private theorem notMem (spelled : Spelled raw text) : '<' ∉ raw := by
  induction spelled with
  | nil => exact List.not_mem_nil
  | char _ unbracketed _ ih => simp [ih, unbracketed.symm]
  | reference refers _ ih => simp [ih, refers.notMem (.inr rfl)]

theorem unescape_eq (spelled : Spelled raw text) : unescape raw = .ok text := by
  have from_start (whole : List Char) : unescapeFrom whole none raw = .ok text := by
    induction spelled with
    | nil => rfl
    | char unmarked _ _ ih =>
      rw [← List.singleton_append, standsFor_self unmarked, ih]
      rfl
    | @reference reference raw text c refers _ ih =>
      have split : '&' :: reference ++ ';' :: raw = '&' :: reference ++ [';'] ++ raw := by simp
      rw [split, standsFor_reference (refers.notMem (.inl rfl)) refers.resolve_eq, ih]
      rfl
  exact from_start raw

end Spelled

/-- What may stand in a comment: no two hyphens behind one another, also at its end. -/
def Comment (body : List Char) : Prop := ¬['-', '-'] <:+: body ++ ['-']

def Section (body : List Char) : Prop := ¬[']', ']', '>'] <:+: body

instance (body : List Char) : Decidable (Comment body) := inferInstanceAs (Decidable (¬_ <:+: _))

instance (body : List Char) : Decidable (Section body) := inferInstanceAs (Decidable (¬_ <:+: _))

/-- Text with sections and comments in it. -/
inductive Content : List Char → List Char → Prop
  | nil : Content [] []
  | text {raw text rest more : List Char} (spelled : Spelled raw text) (later : Content rest more) :
    Content (raw ++ rest) (text ++ more)
  | cdata {body rest more : List Char} (closed : Section body) (later : Content rest more) :
    Content ("<![CDATA[".toList ++ body ++ "]]>".toList ++ rest) (body ++ more)
  | comment {body rest text : List Char} (closed : Comment body) (later : Content rest text) :
    Content ("<!--".toList ++ body ++ "-->".toList ++ rest) text

/-- What may stand between elements. -/
inductive Layout : List Char → Prop
  | nil : Layout []
  | blank {c : Char} {rest : List Char} (blank : isBlank c = true) (later : Layout rest) : Layout (c :: rest)
  | comment {body rest : List Char} (closed : Comment body) (later : Layout rest) :
    Layout ("<!--".toList ++ body ++ "-->".toList ++ rest)

theorem Layout.content {raw : List Char} (layout : Layout raw) :
    ∃ text, Content raw text ∧ ∀ c ∈ text, isBlank c = true := by
  induction layout with
  | nil => exact ⟨[], .nil, nofun⟩
  | @blank c rest blank _ ih =>
    obtain ⟨text, content, blanks⟩ := ih
    obtain ⟨unbracketed, unmarked⟩ := blank_ne blank
    exact ⟨[c] ++ text, .text (.char unmarked unbracketed .nil) content, List.forall_mem_cons.mpr ⟨blank, blanks⟩⟩
  | comment closed _ ih =>
    obtain ⟨text, content, blanks⟩ := ih
    exact ⟨text, .comment closed content, blanks⟩

variable {body : List Char}

namespace Bang

variable {bang : Bang} {seen : List Char}

/-- Nothing closes the piece as long as no bracket does. -/
private theorem split?_body
    (opened : ∀ front back, body = front ++ '>' :: back → bang.closes (front.reverse ++ seen) = false)
    (rest : List Char) : bang.split? seen (body ++ rest) = bang.split? (body.reverse ++ seen) rest := by
  induction body generalizing seen with
  | nil => rfl
  | cons c more ih =>
    have passed : (c == '>' && bang.closes seen) = false := by
      by_cases bracket : c = '>'
      · have first := opened [] more (by rw [bracket]; rfl)
        rw [List.reverse_nil, List.nil_append] at first
        rw [bracket, first, Bool.and_false]
      · rw [beq_eq_false_iff_ne.mpr bracket, Bool.false_and]
    rw [List.cons_append, split?, passed, if_neg Bool.false_ne_true, ih, List.reverse_cons, List.append_assoc,
      List.singleton_append]
    intro front back split
    have later := opened (c :: front) back (by rw [split]; rfl)
    rwa [List.reverse_cons, List.append_assoc, List.singleton_append] at later

private theorem split?_plain (plain : '>' ∉ body) (rest : List Char) :
    bang.split? seen (body ++ rest) = bang.split? (body.reverse ++ seen) rest := by
  apply split?_body
  intro front back split
  exact absurd (split ▸ List.mem_append_right front List.mem_cons_self) plain

private theorem split?_end (closed : bang.closes seen = true) (rest : List Char) :
    bang.split? seen ('>' :: rest) = some (seen.reverse, rest) := by
  rw [split?, closed]
  rfl

end Bang

/-- Two equal characters are the last ones seen only if they stand in front, unless there are too few. -/
private theorem twice_seen {front seen : List Char} {c d e : Char}
    (twice : (front.reverse ++ d :: e :: seen).take 2 = [c, c]) :
    (front = [] ∨ front = [c]) ∧ d = c ∨ ∃ before, front = before ++ [c, c] := by
  cases reversed : front.reverse with
  | nil =>
    rw [reversed] at twice
    exact .inl ⟨.inl (List.reverse_eq_nil_iff.mp reversed), (List.cons.inj twice).1⟩
  | cons second more =>
    rw [reversed] at twice
    obtain ⟨rfl, later⟩ := List.cons.inj twice
    have spelled : front = more.reverse ++ [second] := by
      rw [← List.reverse_reverse front, reversed, List.reverse_cons]
    cases more with
    | nil => exact .inl ⟨.inr spelled, (List.cons.inj later).1⟩
    | cons first more =>
      obtain ⟨rfl, -⟩ := List.cons.inj later
      exact .inr ⟨more.reverse, by simp [spelled]⟩

private theorem comment_open (closed : Comment body) (front back : List Char) (split : body = front ++ '>' :: back) :
    Bang.comment.closes (front.reverse ++ ['-', '-', '!']) = false := by
  rw [← Bool.not_eq_true, Bang.closes, Bool.and_eq_true, beq_iff_eq, decide_eq_true_iff]
  rintro ⟨hyphens, long⟩
  obtain ⟨rfl | rfl, -⟩ | ⟨before, rfl⟩ := twice_seen hyphens
  · revert long
    decide
  · revert long
    decide
  · exact closed ⟨before, '>' :: back ++ ['-'], by simp [split]⟩

private theorem section_open (closed : Section body) (front back : List Char) (split : body = front ++ '>' :: back) :
    Bang.cdata.closes (front.reverse ++ ['[', 'A', 'T', 'A', 'D', 'C', '[', '!']) = false := by
  rw [← Bool.not_eq_true, Bang.closes, beq_iff_eq]
  intro brackets
  obtain ⟨-, other⟩ | ⟨before, rfl⟩ := twice_seen brackets
  · cases other
  · exact closed ⟨before, back, by simp [split]⟩

private theorem length_le_size (text : List Char) : text.length ≤ Utf8.size text := by
  induction text with
  | nil => exact Nat.le_refl 0
  | cons c rest ih =>
    have positive := c.utf8Size_pos
    have size : Utf8.size (c :: rest) = c.utf8Size + Utf8.size rest := rfl
    rw [List.length_cons]
    omega

private theorem split?_comment (closed : Comment body) (rest : List Char) :
    Bang.split? .comment ['!'] (['-', '-'] ++ (body ++ (['-', '-'] ++ '>' :: rest))) =
      some (['!', '-', '-'] ++ (body ++ ['-', '-']), rest) := by
  have ends : Bang.closes ('-' :: '-' :: (body.reverse ++ ['-', '-', '!'])) .comment = true := by
    have long := length_le_size (('-' :: '-' :: (body.reverse ++ ['-', '-', '!'])).take 5)
    rw [List.length_take_of_le (by simp)] at long
    exact Bool.and_eq_true_iff.mpr ⟨rfl, decide_eq_true long⟩
  have front := Bang.split?_body (comment_open closed) (['-', '-'] ++ '>' :: rest)
  rw [Bang.split?_plain (by decide)]
  refine front.trans ?_
  rw [Bang.split?_plain (by decide)]
  refine (Bang.split?_end ends rest).trans ?_
  simp

private theorem split?_section (closed : Section body) (rest : List Char) :
    Bang.split? .cdata ['!'] (['[', 'C', 'D', 'A', 'T', 'A', '['] ++ (body ++ ([']', ']'] ++ '>' :: rest))) =
      some (['!', '[', 'C', 'D', 'A', 'T', 'A', '['] ++ (body ++ [']', ']']), rest) := by
  have ends : Bang.closes (']' :: ']' :: (body.reverse ++ ['[', 'A', 'T', 'A', 'D', 'C', '[', '!'])) .cdata = true := rfl
  have front := Bang.split?_body (section_open closed) ([']', ']'] ++ '>' :: rest)
  rw [Bang.split?_plain (by decide)]
  refine front.trans ?_
  rw [Bang.split?_plain (by decide)]
  refine (Bang.split?_end ends rest).trans ?_
  simp

private theorem opensWith_opening (bang : Bang) (inner : List Char) :
    bang.opensWith (bang.opening ++ inner) = true := by
  rw [Bang.opensWith, List.take_left]
  cases bang <;> decide

private theorem scanBang_split {bang : Bang} {c : Char} {more inner rest : List Char}
    (kind : Bang.ofChar? c = some bang)
    (split : bang.split? ['!'] (c :: more) = some (bang.opening ++ inner, rest)) (offset : Nat)
    (names : List (List Char)) : ∃ behind, scanBang offset names (c :: more) =
      match bang with
      | .comment => .piece none behind names rest
      | .cdata => .piece (some (.cdata (inner.take (inner.length - 2)))) behind names rest
      | .doctype => if inner.all isSpace then .fault .emptyDoctype behind else .piece none behind names rest := by
  refine ⟨offset + Utf8.size (bang.opening ++ inner) + 1, ?_⟩
  rw [scanBang]
  cases bang <;>
    simp only [kind, split, opensWith_opening, List.drop_left, Bool.not_true, Bool.false_eq_true, ↓reduceIte]

private theorem scanMarkup_comment (closed : Comment body) (offset : Nat) (names : List (List Char))
    (rest : List Char) :
    ∃ behind, scanMarkup offset names ('!' :: (['-', '-'] ++ (body ++ (['-', '-'] ++ '>' :: rest)))) =
      .piece none behind names rest := by
  rw [scanMarkup, if_pos (by decide)]
  exact @scanBang_split .comment _ _ _ _ (by decide) (split?_comment closed rest) offset names

private theorem scanMarkup_section (closed : Section body) (offset : Nat) (names : List (List Char))
    (rest : List Char) :
    ∃ behind, scanMarkup offset names
      ('!' :: (['[', 'C', 'D', 'A', 'T', 'A', '['] ++ (body ++ ([']', ']'] ++ '>' :: rest)))) =
      .piece (some (.cdata body)) behind names rest := by
  have whole : (body ++ [']', ']']).take ((body ++ [']', ']']).length - 2) = body := by
    rw [List.length_append]
    exact List.take_left
  obtain ⟨behind, found⟩ := @scanBang_split .cdata _ _ _ _ (by decide) (split?_section closed rest) offset names
  rw [scanMarkup, if_pos (by decide)]
  exact ⟨behind, found.trans (by simp only [whole])⟩

/-- Scanning the rest of a document in which the named elements are open gives events and no fault, however far
into the document that is. -/
def Yields (names : List (List Char)) (text : List Char) (events : List Event) : Prop :=
  ∀ fuel offset, text.length ≤ fuel →
    (scanFrom fuel offset names text).Whole ∧ (scanFrom fuel offset names text).events = events

def Edge (rest : List Char) : Prop := rest = [] ∨ ∃ more, rest = '<' :: more

namespace Yields

variable {names outer : List (List Char)} {raw rest inner : List Char} {events : List Event}

theorem nil (names : List (List Char)) : Yields names [] [] := by
  intro fuel offset _
  cases fuel with
  | zero | succ => exact ⟨trivial, rfl⟩

theorem markup {event : Option Event}
    (piece : ∀ offset, ∃ behind, scanMarkup offset names inner = .piece event behind outer rest)
    (shorter : rest.length ≤ inner.length) (later : Yields outer rest events) :
    Yields names ('<' :: inner) (event.toList ++ events) := by
  intro fuel offset enough
  cases fuel with
  | zero => cases enough
  | succ fuel =>
    obtain ⟨behind, found⟩ := piece (offset + 1)
    obtain ⟨whole, same⟩ := later fuel behind (Nat.le_trans shorter (Nat.le_of_succ_le_succ enough))
    rw [scanFrom, if_pos (by decide), found]
    cases event with
    | none => exact ⟨whole, same⟩
    | some event => exact ⟨whole, congrArg (event :: ·) same⟩

theorem text (filled : raw ≠ []) (plain : '<' ∉ raw) (edge : Edge rest) (later : Yields names rest events) :
    Yields names (raw ++ rest) (.text raw :: events) := by
  intro fuel offset enough
  have dark : ∀ d ∈ raw, (d != '<') = true := by
    intro d inside
    rw [bne_iff_ne]
    exact fun same => plain (same ▸ inside)
  have front : (raw ++ rest).takeWhile (· != '<') = raw ∧ (raw ++ rest).dropWhile (· != '<') = rest := by
    obtain rfl | ⟨more, rfl⟩ := edge
    · rw [List.append_nil]
      exact ⟨List.takeWhile_eq_self_iff.mpr dark, List.dropWhile_eq_nil_iff.mpr dark⟩
    · exact split_at more dark (by decide)
  obtain ⟨first, more, rfl⟩ := List.exists_cons_of_ne_nil filled
  cases fuel with
  | zero => cases enough
  | succ fuel =>
    have other : (first == '<') = false := by simpa using dark first List.mem_cons_self
    rw [List.cons_append] at front ⊢
    rw [scanFrom, other]
    simp only [front.1, front.2, Bool.false_eq_true, ↓reduceIte]
    obtain rfl | ⟨more, rfl⟩ := edge
    · obtain ⟨-, same⟩ := later 0 0 (Nat.le_refl 0)
      exact ⟨trivial, congrArg (_ :: ·) same⟩
    · have shorter : ('<' :: more).length ≤ fuel := by
        simp only [List.length_cons, List.length_append] at enough ⊢
        omega
      obtain ⟨whole, same⟩ := later fuel (offset + Utf8.size (first :: _)) shorter
      exact ⟨whole, congrArg (_ :: ·) same⟩

theorem comment {body : List Char} (closed : Comment body) (later : Yields names rest events) :
    Yields names ("<!--".toList ++ body ++ "-->".toList ++ rest) events := by
  have spelled : "<!--".toList ++ body ++ "-->".toList ++ rest =
      '<' :: '!' :: (['-', '-'] ++ (body ++ (['-', '-'] ++ '>' :: rest))) := by simp
  rw [spelled]
  exact markup (fun offset => scanMarkup_comment closed offset names rest) (by simp; omega) later

theorem cdata {body : List Char} (closed : Section body) (later : Yields names rest events) :
    Yields names ("<![CDATA[".toList ++ body ++ "]]>".toList ++ rest) (.cdata body :: events) := by
  have spelled : "<![CDATA[".toList ++ body ++ "]]>".toList ++ rest =
      '<' :: '!' :: (['[', 'C', 'D', 'A', 'T', 'A', '['] ++ (body ++ ([']', ']'] ++ '>' :: rest))) := by simp
  rw [spelled]
  exact markup (fun offset => scanMarkup_section closed offset names rest) (by simp; omega) later

end Yields

open Verbatim.Xml.Part

structure Pieces (parts : List Part) (text : List Char) : Prop where
  texts : ∀ part ∈ parts, part.text?.isSome
  whole : textOf parts = text

namespace Pieces

variable {parts first second : List Part} {text more : List Char} {place : Place}

theorem append (front : Pieces first text) (back : Pieces second more) : Pieces (first ++ second) (text ++ more) where
  texts := List.forall_mem_append.mpr ⟨front.texts, back.texts⟩
  whole := by rw [textOf, List.flatMap_append, ← textOf, ← textOf, front.whole, back.whole]

theorem cdata (content : List Char) : Pieces [.cdata content] content where
  texts := List.forall_mem_singleton.mpr rfl
  whole := by simp [textOf, Part.text?]

theorem elementsOf_eq (pieces : Pieces parts text) : elementsOf parts = [] := by
  have texts := pieces.texts
  clear pieces
  induction parts with
  | nil => rfl
  | cons part rest ih =>
    obtain ⟨first, later⟩ := List.forall_mem_cons.mp texts
    cases part with
    | text | cdata => exact ih later
    | element => cases first

theorem tidy (pieces : Pieces parts text) (blank : place ≠ .token → ∀ c ∈ text, isBlank c = true) :
    Tidy place parts := by
  obtain ⟨texts, rfl⟩ := pieces
  induction parts with
  | nil => exact tidy_nil place
  | cons part rest ih =>
    obtain ⟨first, later⟩ := List.forall_mem_cons.mp texts
    have blanks : place ≠ .token →
        (∀ c ∈ part.text?.getD [], isBlank c = true) ∧ ∀ c ∈ textOf rest, isBlank c = true := by
      intro other
      exact List.forall_mem_append.mp (blank other)
    refine tidy_cons.mpr ⟨?_, ih later fun other => (blanks other).2⟩
    cases part with
    | text raw =>
      obtain ⟨text, known⟩ := Option.isSome_iff_exists.mp first
      rw [known] at blanks
      refine tidy_text.mpr ⟨text, decoded?_eq_some_iff.mp known, ?_⟩
      intro other
      exact List.all_eq_true.mpr (blanks other).1
    | cdata content =>
      refine tidy_cdata.mpr fun other => ?_
      exact List.all_eq_true.mpr (blanks other).1
    | element => cases first

end Pieces

/-- Text is scanned as pieces, up to the markup that follows it. -/
theorem Spelled.yields {names : List (List Char)} {raw rest text : List Char} {events : List Event}
    (spelled : Spelled raw text) (edge : Edge rest) (later : Yields names rest events) :
    ∃ parts, Pieces parts text ∧ Yields names (raw ++ rest) (eventsOf parts ++ events) := by
  by_cases empty : raw = []
  · subst empty
    cases spelled
    exact ⟨[], ⟨nofun, rfl⟩, later⟩
  · have known : decoded? raw = some text := decoded?_eq_some_iff.mpr spelled.unescape_eq
    refine ⟨[.text raw], ⟨?_, ?_⟩, Yields.text empty spelled.notMem edge later⟩
    · exact List.forall_mem_singleton.mpr (by rw [Part.text?, known]; rfl)
    · simp [textOf, Part.text?, known]

/-- Characters that are left from the front are taken together with those that follow. -/
theorem Content.yields {names : List (List Char)} {raw rest text front lead : List Char} {events : List Event}
    (content : Content raw text) (spelled : Spelled front lead) (edge : Edge rest) (later : Yields names rest events) :
    ∃ parts, Pieces parts (lead ++ text) ∧ Yields names (front ++ (raw ++ rest)) (eventsOf parts ++ events) := by
  induction content generalizing front lead with
  | nil =>
    rw [List.append_nil, List.nil_append]
    exact spelled.yields edge later
  | text more _ ih =>
    have read := ih (spelled.append more)
    simpa only [List.append_assoc] using read
  | @cdata body more _ closed _ ih =>
    obtain ⟨behind, last, read⟩ := ih .nil
    have marked : Edge ("<![CDATA[".toList ++ body ++ "]]>".toList ++ (more ++ rest)) :=
      .inr ⟨"![CDATA[".toList ++ body ++ "]]>".toList ++ (more ++ rest), by simp⟩
    obtain ⟨before, first, whole⟩ := spelled.yields marked (Yields.cdata closed read)
    refine ⟨before ++ ([.cdata body] ++ behind), first.append ((Pieces.cdata body).append last), ?_⟩
    rw [eventsOf_append, eventsOf_append, eventsOf_singleton, Part.events]
    simpa only [List.append_assoc, List.cons_append, List.nil_append] using whole
  | @comment body more _ closed _ ih =>
    obtain ⟨behind, last, read⟩ := ih .nil
    have marked : Edge ("<!--".toList ++ body ++ "-->".toList ++ (more ++ rest)) :=
      .inr ⟨"!--".toList ++ body ++ "-->".toList ++ (more ++ rest), by simp⟩
    obtain ⟨before, first, whole⟩ := spelled.yields marked (Yields.comment closed read)
    refine ⟨before ++ behind, first.append last, ?_⟩
    rw [eventsOf_append]
    simpa only [List.append_assoc] using whole

end Verbatim.Xml
