import Verbatim.Proofs.DocumentRoundTrip
import Verbatim.Proofs.ReferenceGrammar

/-! Documents have only characters that they may have. Names and values consist of such characters, and text has a
reference in place of any other; it also has one for the carriage return, which readers would not keep. -/

namespace Verbatim

private theorem inRanges_mono {few many : List (Nat × Nat)} {code : Nat}
    (within : ∀ range ∈ few, ∃ wide ∈ many, wide.1 ≤ range.1 ∧ range.2 ≤ wide.2) (inside : inRanges few code = true) :
    inRanges many code = true := by
  obtain ⟨range, member, bounds⟩ := List.any_eq_true.mp inside
  obtain ⟨wide, known, low, high⟩ := within range member
  apply List.any_eq_true.mpr
  refine ⟨wide, known, ?_⟩
  simp at bounds ⊢
  omega

namespace Xml

variable {raw text : List Char} {c : Char}

/-- Code point ranges of the characters that a document may have. -/
def documentRanges : List (Nat × Nat) :=
  [(0x9, 0xA), (0xD, 0xD), (0x20, 0xD7FF), (0xE000, 0xFFFD), (0x10000, 0x10FFFF)]

def isDocumentChar (c : Char) : Bool := inRanges documentRanges c.toNat

/-- Characters that documents may have and readers keep. -/
def Literal (text : List Char) : Prop := ∀ c ∈ text, isDocumentChar c = true ∧ c ≠ '\r'

instance : Decidable (Literal text) :=
  decidable_of_iff (text.all fun c => isDocumentChar c && c != '\r') (by simp [Literal])

private theorem literal_append {first second : List Char} :
    Literal (first ++ second) ↔ Literal first ∧ Literal second :=
  List.forall_mem_append

private theorem literal_cons : Literal (c :: text) ↔ (isDocumentChar c = true ∧ c ≠ '\r') ∧ Literal text :=
  List.forall_mem_cons

private theorem literal_unreferenced (plain : needsReference c = false) : isDocumentChar c = true ∧ c ≠ '\r' := by
  constructor
  · have valid : c.toNat < 0xD800 ∨ 0xDFFF < c.toNat ∧ c.toNat < 0x110000 := c.valid
    have tab : c = '\t' ↔ c.toNat = 9 := Char.toNat_inj.symm
    have newline : c = '\n' ↔ c.toNat = 10 := Char.toNat_inj.symm
    simp [needsReference, tab, newline] at plain
    simp [isDocumentChar, documentRanges, inRanges]
    omega
  · rintro rfl
    cases plain

private theorem literal_alphanum (letter : c.isAlphanum = true) : isDocumentChar c = true ∧ c ≠ '\r' := by
  constructor
  · have codes := isAlphanum_iff.mp letter
    simp [isDocumentChar, documentRanges, inRanges]
    omega
  · rintro rfl
    cases letter

private theorem literal_nameChar (named : isNameChar c = true) : isDocumentChar c = true ∧ c ≠ '\r' := by
  constructor
  · rcases Bool.or_eq_true_iff.mp named with start | more
    · exact inRanges_mono (by decide) start
    · exact inRanges_mono (by decide) more
  · rintro rfl
    revert named
    decide

private theorem literal_name {name : String} (named : isName name.toList = true) : Literal name.toList :=
  fun _ inside => literal_nameChar (isNameChar_of_mem named inside)

theorem Denotes.literal {reference : List Char} (denotes : Denotes Unsigned reference c) : Literal reference := by
  intro d inside
  rcases denotes.mem_unsigned inside with mark | letter
  · rw [mark]
    decide
  · exact literal_alphanum letter

private theorem escapeChar_cases_denotes (c : Char) :
    (needsReference c = false ∧ escapeChar c = [c]) ∨
      ∃ reference, escapeChar c = '&' :: reference ++ [';'] ∧ Denotes Unsigned reference c := by
  unfold escapeChar
  split
  next same => exact .inr ⟨"amp".toList, rfl, by rw [eq_of_beq same]; exact .name (by decide)⟩
  split
  next same => exact .inr ⟨"lt".toList, rfl, by rw [eq_of_beq same]; exact .name (by decide)⟩
  split
  next same => exact .inr ⟨"gt".toList, rfl, by rw [eq_of_beq same]; exact .name (by decide)⟩
  split
  next =>
    have read := Numeral.magnitude?_toDigits (by decide) Numeral.spells_hexadecimal c.toNat
    have digits := (Numeral.magnitude?_eq_some_iff (by decide)).mp read
    refine .inr ⟨'#' :: 'x' :: (Numeral.hexUpper c.toNat).toList, by simp, ?_⟩
    rw [Numeral.hexUpper, String.toList_ofList]
    exact @Denotes.hexadecimal _ [] _ _ rfl digits
  next plain => exact .inl ⟨by simpa using plain, rfl⟩

private theorem resolves_escape (text : List Char) : Resolves (Denotes Unsigned) (escape text) text := by
  induction text with
  | nil => exact .nil
  | cons c rest ih =>
    rw [escape, List.flatMap_cons]
    rcases escapeChar_cases_denotes c with ⟨plain, same⟩ | ⟨reference, same, denotes⟩
    · rw [same]
      refine .char ?_ ih
      rintro rfl
      cases plain
    · rw [same, List.append_assoc]
      exact .reference denotes ih

/-- Every ampersand is the start of a reference, since none has an ampersand inside. -/
theorem Resolves.ampersand (resolves : Resolves (Denotes Unsigned) raw text) {front back : List Char}
    (split : raw = front ++ '&' :: back) :
    ∃ reference c rest, back = reference ++ ';' :: rest ∧ Denotes Unsigned reference c := by
  induction resolves generalizing front with
  | nil => simp at split
  | char unmarked _ ih =>
    cases front with
    | nil => exact absurd (List.cons.inj split).1 unmarked
    | cons d front => exact ih (List.cons.inj split).2
  | @reference reference raw text c denotes _ ih =>
    cases front with
    | nil => exact ⟨reference, c, raw, (List.cons.inj split).2.symm, denotes⟩
    | cons d front =>
      have split : reference ++ ';' :: raw = front ++ '&' :: back := (List.cons.inj split).2
      rcases List.append_eq_append_iff.mp split with ⟨between, -, later⟩ | ⟨between, inner, later⟩
      · cases between with
        | nil => cases (List.cons.inj later).1
        | cons d between => exact ih (List.cons.inj later).2
      · cases between with
        | nil => cases (List.cons.inj later).1
        | cons d between =>
          have inside : '&' ∈ reference := by
            rw [inner, (List.cons.inj later).1]
            simp
          rcases denotes.mem_unsigned inside with mark | letter
          · cases mark
          · cases letter

private theorem literal_escape (text : List Char) : Literal (escape text) := by
  intro d inside
  obtain ⟨c, -, inside⟩ := List.mem_flatMap.mp inside
  rcases escapeChar_cases_denotes c with ⟨plain, same⟩ | ⟨reference, same, denotes⟩
  · rw [same] at inside
    rw [List.mem_singleton.mp inside]
    exact literal_unreferenced plain
  · have marks : Literal ['&'] ∧ Literal [';'] := by decide
    have whole : Literal ('&' :: reference ++ [';']) :=
      literal_append.mpr ⟨literal_cons.mpr ⟨marks.1 _ List.mem_cons_self, denotes.literal⟩, marks.2⟩
    rw [same] at inside
    exact whole d inside

private theorem unbracketed_escape {d : Char} (inside : d ∈ escape text) : d ≠ '<' ∧ d ≠ '>' := by
  obtain ⟨c, -, inside⟩ := List.mem_flatMap.mp inside
  rcases escapeChar_cases_denotes c with ⟨plain, same⟩ | ⟨reference, same, denotes⟩
  · rw [same] at inside
    rw [List.mem_singleton.mp inside]
    constructor
    · rintro rfl
      cases plain
    · rintro rfl
      cases plain
  · rw [same, List.cons_append, List.mem_cons, List.mem_append, List.mem_singleton] at inside
    rcases inside with start | inner | last
    · rw [start]
      decide
    · rcases denotes.mem_unsigned inner with mark | letter
      · rw [mark]
        decide
      · constructor
        · rintro rfl
          cases letter
        · rintro rfl
          cases letter
    · rw [last]
      decide

private theorem literal_signed (number : Int) : Literal (Numeral.signed number).toList := by
  intro c inside
  rcases Numeral.mem_signed inside with sign | digit
  · rw [sign]
    decide
  · exact literal_alphanum (Numeral.isAlphanum_of_digit? digit)

private theorem literal_assignment {key value : String} (named : isName key.toList = true)
    (inner : Literal value.toList) :
    Literal (assignment key value).toList := by
  have marks : Literal [' '] ∧ Literal ['=', mark] ∧ Literal [mark] := by decide
  have parts : (assignment key value).toList = [' '] ++ key.toList ++ ['=', mark] ++ value.toList ++ [mark] := by
    simp [toList_assignment]
  rw [parts]
  simp only [literal_append]
  exact ⟨⟨⟨⟨marks.1, literal_name named⟩, marks.2.1⟩, inner⟩, marks.2.2⟩

private theorem literal_tokenTag {token : Token} (named : isName token.kind.toList = true) :
    Literal (tokenTag token).toList := by
  have hidden : Literal (if token.channel.isHidden then assignment hiddenKey "true" else "").toList := by
    split
    · exact literal_assignment (by decide) (by decide)
    · decide
  have line (key : String) (line : UInt32) (known : isName key.toList = true) :
      Literal (assignment key (Numeral.decimal line.toNat)).toList :=
    literal_assignment known (literal_signed (.ofNat line.toNat))
  have column (key : String) (column : Int32) (known : isName key.toList = true) :
      Literal (assignment key (Numeral.signed column.toInt)).toList := literal_assignment known (literal_signed _)
  simp only [tokenTag, String.toList_append, literal_append]
  exact ⟨⟨⟨⟨⟨literal_name named, line _ _ (by decide)⟩, column _ _ (by decide)⟩, line _ _ (by decide)⟩,
    column _ _ (by decide)⟩, hidden⟩

private theorem literal_tokenElement {token : Token} (named : isName token.kind.toList = true) :
    Literal (tokenElement token).toList := by
  have marks : Literal "<".toList ∧ Literal ">".toList ∧ Literal "</".toList ∧ Literal "/>".toList := by decide
  unfold tokenElement
  split
  · simp only [String.toList_append, literal_append]
    exact ⟨⟨marks.1, literal_tokenTag named⟩, marks.2.2.2⟩
  · simp only [String.toList_append, String.toList_ofList, literal_append]
    exact ⟨⟨⟨⟨⟨⟨marks.1, literal_tokenTag named⟩, marks.2.1⟩, literal_escape _⟩, marks.2.2.1⟩, literal_name named⟩,
      marks.2.1⟩

private theorem literal_document_cons (depth : Nat) {element : String} {more : List String}
    (line : Literal element.toList)
    (later : Literal (document more)) :
    Literal (document ((SyntaxTree.indentation depth ++ element) :: more)) := by
  have indented : Literal (SyntaxTree.indentation depth).toList := by
    intro c inside
    rw [SyntaxTree.indentation, String.toList_ofList] at inside
    rw [List.eq_of_mem_replicate inside]
    decide
  have newline : Literal ['\n'] := by decide
  have parts : document ((SyntaxTree.indentation depth ++ element) :: more) =
      (SyntaxTree.indentation depth).toList ++ element.toList ++ ['\n'] ++ document more := by
    simp [document]
  rw [parts]
  simp only [literal_append]
  exact ⟨⟨⟨indented, line⟩, newline⟩, later⟩

/-- Names are checked when their element starts, so those of open elements are names as well. -/
private theorem literal_lines {calls : List Call} {depth : Nat} {pending written : List String}
    (printed : lines depth calls pending = .ok written)
    (named : ∀ name ∈ pending, isName name.toList = true) : Literal (document written) := by
  have marks : Literal "<".toList ∧ Literal ">".toList ∧ Literal "</".toList := by decide
  induction calls generalizing depth pending written with
  | nil =>
    cases printed
    decide
  | cons call rest ih =>
    cases call with
    | start name rule =>
      rw [lines_start] at printed
      split at printed
      next able =>
        obtain ⟨more, behind, same⟩ := map_eq_ok.mp printed
        rw [← same]
        refine literal_document_cons depth ?_ (ih behind (List.forall_mem_cons.mpr ⟨able, named⟩))
        simp only [String.toList_append, literal_append]
        exact ⟨⟨⟨marks.1, literal_name able⟩, literal_assignment (by decide) (literal_signed (.ofNat rule.toNat))⟩,
          marks.2.1⟩
      next => cases printed
    | token token =>
      rw [lines_token] at printed
      split at printed
      next able =>
        obtain ⟨more, behind, same⟩ := map_eq_ok.mp printed
        rw [← same]
        exact literal_document_cons depth (literal_tokenElement able) (ih behind named)
      next => cases printed
    | finish =>
      rw [lines_finish] at printed
      obtain ⟨more, behind, same⟩ := map_eq_ok.mp printed
      rw [← same]
      have outer : ∀ name ∈ pending.drop 1, isName name.toList = true :=
        fun name inside => named name (List.mem_of_mem_drop inside)
      have closed : Literal (pending.headD "").toList := by
        cases pending with
        | nil => decide
        | cons name outer => exact literal_name (named name List.mem_cons_self)
      refine literal_document_cons (depth - 1) ?_ (ih behind outer)
      simp only [String.toList_append, literal_append]
      exact ⟨⟨marks.2.2, closed⟩, marks.2.1⟩

private theorem literal_write {tree : SyntaxTree} {document : String} (written : write tree = .ok document) :
    Literal document.toList := by
  obtain ⟨lines, printed, same⟩ := bind_eq_ok.mp written
  cases same
  rw [toList_document]
  exact literal_lines printed (List.forall_mem_nil _)

/-- Escaped text is read as the text itself; it has no bracket, no carriage return and no character that documents
may not have, and each ampersand in it starts a reference. So no document that is written has any other character. -/
theorem document_characters :
    (∀ text, unescape (escape text) = .ok text ∧
      (∀ c ∈ escape text, c ≠ '<' ∧ c ≠ '>' ∧ c ≠ '\r' ∧ isDocumentChar c = true) ∧
      ∀ front back, escape text = front ++ '&' :: back →
        ∃ reference c rest, back = reference ++ ';' :: rest ∧ Denotes Unsigned reference c) ∧
    ∀ tree document, write tree = .ok document → ∀ c ∈ document.toList, isDocumentChar c = true ∧ c ≠ '\r' := by
  constructor
  · intro text
    refine ⟨unescape_escape text, ?_, ?_⟩
    · intro c inside
      obtain ⟨less, greater⟩ := unbracketed_escape inside
      obtain ⟨known, kept⟩ := literal_escape text c inside
      exact ⟨less, greater, kept, known⟩
    · intro front back split
      exact (resolves_escape text).ampersand split
  · intro tree document written
    exact literal_write written

theorem zero_byte_characters :
    let text := ['&', '#', 'x', '0', ';', '\x00', '\r']
    let root : Element := .node "unit" 7 [.token ⟨"ä-1", String.ofList text, .hidden, ⟨⟨1, -7⟩, ⟨0, -1⟩⟩⟩]
    ∃ tree document, Builder.build root.calls = .ok tree ∧ write tree = .ok document ∧
      (∀ c ∈ document.toList, isDocumentChar c = true ∧ c ≠ '\r') ∧ unescape (escape text) = .ok text ∧
      escape text = "&amp;#x0;".toList ++ '&' :: "#x0;&#xD;".toList ∧
      ∃ reference c rest, "#x0;&#xD;".toList = reference ++ ';' :: rest ∧ Denotes Unsigned reference c := by
  intro text root
  have fits : Builder.Fits root.calls := .ofLength (by decide) (by decide) (by decide)
  obtain ⟨tree, built⟩ := Builder.exists_build ⟨_, _, _⟩ fits
  have named : ∀ name ∈ Call.namesOf root.calls, isName name.toList = true := by decide
  obtain ⟨document, written, -⟩ := exists_write built named
  have spelled : escape text = "&amp;#x0;".toList ++ '&' :: "#x0;&#xD;".toList := by decide +kernel
  obtain ⟨read, -, marked⟩ := document_characters.1 text
  exact ⟨tree, document, built, written, document_characters.2 tree document written, read, spelled,
    marked _ _ spelled⟩

end Xml

end Verbatim
