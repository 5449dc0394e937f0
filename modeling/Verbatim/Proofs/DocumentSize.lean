import Mathlib.Data.String.Basic
import Verbatim.Proofs.DocumentParts

/-! How much text a document has. The texts and sections that scanning cuts out of a document stand in it one behind
the other, and resolving references makes no text longer. -/

namespace Verbatim.Xml

open String (utf8Len utf8Len_le_of_sublist)

/-- The characters of a piece that can become text of a tree. -/
def Event.raw : Event → List Char
  | .text raw => raw
  | .cdata content => content
  | _ => []

def Stream.raw : Stream → List Char
  | .done _ | .fault _ _ => []
  | .next event _ rest => event.raw ++ rest.raw

section Scanning

variable {offset behind : Nat} {names after : List (List Char)} {seen text body rest : List Char}
  {event : Option Event}

private theorem Bang.split?_sound {bang : Bang} (found : bang.split? seen text = some (body, rest)) :
    body ++ '>' :: rest = seen.reverse ++ text := by
  induction text generalizing seen with
  | nil => cases found
  | cons c more ih =>
    rw [Bang.split?] at found
    split at found
    next closed =>
      cases found
      rw [eq_of_beq (Bool.and_eq_true_iff.mp closed).1]
    next => simpa using ih found

private theorem splitTag?_sound {quote : Option Char} (found : splitTag? quote seen text = some (body, rest)) :
    body ++ '>' :: rest = seen.reverse ++ text := by
  induction text generalizing quote seen with
  | nil => cases quote <;> cases found
  | cons c more ih =>
    cases quote with
    | some mark => simpa using ih found
    | none =>
      rw [splitTag?] at found
      split at found
      next closed =>
        cases found
        rw [eq_of_beq closed]
      next => simpa using ih found

private theorem splitLoose_sublist (text : List Char) : (splitLoose text).2.2.Sublist text := by
  have suffix := List.dropWhile_sublist (l := text) (· != '>')
  unfold splitLoose
  dsimp only
  split
  next => exact List.nil_sublist text
  next found => exact (List.sublist_cons_self _ _).trans (found ▸ suffix)

private theorem raw_scanBang (found : scanBang offset names text = .piece event behind after rest) :
    (event.elim [] Event.raw ++ rest).Sublist text := by
  unfold scanBang at found
  split at found
  · cases found
  next first text =>
  split at found
  · cases found
  next bang _ =>
  split at found
  · cases found
  next body more split =>
  have whole := Bang.split?_sound split
  obtain ⟨front, rfl⟩ : ∃ front, body = '!' :: front := by
    cases body with
    | nil => cases whole
    | cons first front => exact ⟨front, congrArg (· :: front) (List.cons.inj whole).1⟩
  have whole : front ++ '>' :: more = first :: text := (List.cons.inj whole).2
  have inside (content : List Char) (part : content.Sublist front) : (content ++ more).Sublist (front ++ '>' :: more) :=
    part.append (List.sublist_cons_self _ _)
  dsimp only at found
  split at found
  · cases found
  rw [← whole]
  cases bang with
  | comment =>
    cases found
    exact inside [] (List.nil_sublist _)
  | cdata =>
    cases found
    have opening : Bang.cdata.opening.length = 7 + 1 := by decide
    rw [opening]
    exact inside _ ((List.take_sublist _ _).trans (List.drop_sublist 7 front))
  | doctype =>
    dsimp only at found
    split at found
    · cases found
    · cases found
      exact inside [] (List.nil_sublist _)

private theorem raw_scanDeclaration (found : scanDeclaration offset names text = .piece event behind after rest) :
    (event.elim [] Event.raw ++ rest).Sublist text := by
  have part := splitLoose_sublist text
  unfold scanDeclaration at found
  split at found
  next same =>
  rw [same] at part
  split at found
  · cases found
    exact part
  · cases found

private theorem raw_scanEnd (found : scanEnd offset names text = .piece event behind after rest) :
    (event.elim [] Event.raw ++ rest).Sublist text := by
  have part := splitLoose_sublist text
  unfold scanEnd at found
  split at found
  next same =>
  rw [same] at part
  dsimp only at found
  split at found
  · cases found
  split at found
  · cases found
    exact part
  · cases found

private theorem raw_scanTag (found : scanTag offset names text = .piece event behind after rest) :
    (event.elim [] Event.raw ++ rest).Sublist text := by
  unfold scanTag at found
  split at found
  · cases found
  next body more split =>
  have whole : body ++ '>' :: more = text := splitTag?_sound split
  have part : more.Sublist text := by
    rw [← whole]
    exact (List.sublist_cons_self _ _).trans (List.sublist_append_right _ _)
  dsimp only at found
  split at found <;> cases found <;> exact part

private theorem raw_scanMarkup (found : scanMarkup offset names text = .piece event behind after rest) :
    (event.elim [] Event.raw ++ rest).Sublist text := by
  unfold scanMarkup at found
  split at found
  · cases found
  split at found
  · exact (raw_scanBang found).trans (List.sublist_cons_self _ _)
  split at found
  · exact raw_scanDeclaration found
  split at found
  · exact raw_scanEnd found
  · exact raw_scanTag found

private theorem raw_sublist {stream : Stream} (scanned : Scanned names text stream) : stream.raw.Sublist text := by
  induction scanned with
  | done | fault => exact List.nil_sublist _
  | skip found _ ih => exact (ih.trans (raw_scanMarkup found)).trans (List.sublist_cons_self _ _)
  | markup found _ ih =>
    exact (((List.Sublist.refl _).append ih).trans (raw_scanMarkup found)).trans (List.sublist_cons_self _ _)
  | text offset split _ ih =>
    rw [← split]
    exact (List.Sublist.refl _).append ih

end Scanning

theorem raw_scan_le (document : String) : utf8Len (scan document).raw ≤ document.utf8ByteSize := by
  obtain ⟨text, part, scanned⟩ := scanned_scan document
  rw [← String.utf8Len_toList]
  exact utf8Len_le_of_sublist ((raw_sublist scanned).trans part)

section Resolving

variable {text raw reference whole : List Char} {c : Char}

/-- A reference has at least two characters between its marks. -/
private theorem two_le_of_resolve (found : resolve reference = .ok c) : 2 ≤ reference.length := by
  by_contra short
  cases reference with
  | nil => cases found
  | cons first rest =>
    cases rest with
    | cons second more => simp at short
    | nil =>
      unfold resolve at found
      rw [if_neg (by simp), if_neg (by simp), if_neg (by simp), if_neg (by simp), if_neg (by simp)] at found
      by_cases hash : first = '#'
      · rw [hash] at found
        cases found
      · simp [hash] at found

private theorem length_le_utf8Len (text : List Char) : text.length ≤ utf8Len text := by
  induction text with
  | nil => exact Nat.le_refl 0
  | cons c rest ih => exact Nat.add_le_add ih c.utf8Size_pos

/-- With its marks a reference takes at least the four bytes that the longest characters have. -/
private theorem utf8Len_unescapeFrom_le (state : Option (List Char))
    (resolved : unescapeFrom whole state raw = .ok text) :
    utf8Len text ≤ utf8Len raw + state.elim 0 fun reference => utf8Len reference + 1 := by
  induction raw generalizing state text with
  | nil =>
    cases state with
    | none => cases resolved; exact Nat.le_refl 0
    | some reference => cases resolved
  | cons d rest ih =>
    cases state with
    | none =>
      rw [unescapeFrom] at resolved
      split at resolved
      next marked =>
        have later := ih (some []) resolved
        have positive := d.utf8Size_pos
        simp only [Option.elim, String.utf8Len_nil, String.utf8Len_cons] at later ⊢
        omega
      next =>
        obtain ⟨more, later, rfl⟩ := map_eq_ok.mp resolved
        have bound := ih none later
        simp only [Option.elim, String.utf8Len_cons] at bound ⊢
        omega
    | some reference =>
      rw [unescapeFrom] at resolved
      split at resolved
      next ended =>
        split at resolved
        next found known =>
          obtain ⟨more, later, rfl⟩ := map_eq_ok.mp resolved
          have bound := ih none later
          have long := (two_le_of_resolve known).trans (length_le_utf8Len _)
          have short := found.utf8Size_le_four
          have positive := d.utf8Size_pos
          rw [String.utf8Len_reverse] at long
          simp only [Option.elim, String.utf8Len_cons] at bound ⊢
          omega
        next => cases resolved
      next =>
        have later := ih _ resolved
        simp only [Option.elim, String.utf8Len_cons] at later ⊢
        omega

theorem utf8Len_unescape_le (resolved : unescape raw = .ok text) : utf8Len text ≤ utf8Len raw :=
  utf8Len_unescapeFrom_le none resolved

end Resolving

end Verbatim.Xml
