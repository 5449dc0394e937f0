import Mathlib.Data.List.Induction
import Verbatim.Proofs.PathExtensions
import Verbatim.Proofs.TextBytes
import Verbatim.Registry

/-! What a registry knows after any history of registrations. For an extension it is the language of the last
entry that lists it, and for a language the factory of the last entry of that language. No entry is taken back,
so a language that is known for an extension always has a factory. -/

namespace Verbatim

structure Registration (α : Type) where
  language : String
  extensions : List String
  factory : α

/-- An extension is listed if it equals a listed one when both lose their points in front and have their
letters in lower case. -/
def Registration.Lists (entry : Registration α) (extension : List Char) : Prop :=
  ∃ listed ∈ entry.extensions,
    (listed.toList.dropWhile (· == '.')).map Char.toLower = (extension.dropWhile (· == '.')).map Char.toLower

/-- The last entry of a history of which something holds. -/
def Latest (fits : Registration α → Prop) (history : List (Registration α)) (entry : Registration α) : Prop :=
  ∃ earlier later, history = earlier ++ entry :: later ∧ fits entry ∧ ∀ other ∈ later, ¬fits other

section Latest

variable {fits : Registration α → Prop} {history : List (Registration α)} {entry last : Registration α}

theorem Latest.mem (latest : Latest fits history entry) : entry ∈ history ∧ fits entry := by
  obtain ⟨earlier, later, rfl, found, -⟩ := latest
  exact ⟨by simp, found⟩

private theorem latest_concat_iff :
    Latest fits (history ++ [last]) entry ↔ fits last ∧ last = entry ∨ ¬fits last ∧ Latest fits history entry := by
  constructor
  · rintro ⟨earlier, later, split, found, others⟩
    rcases List.eq_nil_or_concat later with rfl | ⟨later, final, rfl⟩
    · obtain ⟨rfl, same⟩ := List.append_inj' split rfl
      obtain rfl := List.singleton_inj.mp same
      exact .inl ⟨found, rfl⟩
    · rw [List.concat_eq_append] at split others
      rw [← List.cons_append, ← List.append_assoc] at split
      obtain ⟨rfl, same⟩ := List.append_inj' split rfl
      obtain rfl := List.singleton_inj.mp same
      rw [List.forall_mem_append, List.forall_mem_singleton] at others
      exact .inr ⟨others.2, earlier, later, rfl, found, others.1⟩
  · rintro (⟨found, rfl⟩ | ⟨other, earlier, later, rfl, found, others⟩)
    · exact ⟨history, [], rfl, found, nofun⟩
    · refine ⟨earlier, later ++ [last], by simp, found, ?_⟩
      rw [List.forall_mem_append, List.forall_mem_singleton]
      exact ⟨others, other⟩

end Latest

namespace Registry

def add (registry : Registry α) (entry : Registration α) : Registry α :=
  registry.register entry.language entry.extensions entry.factory

/-- The registry that registrations one after another lead to. -/
def after (history : List (Registration α)) : Registry α := history.foldl add {}

private theorem after_concat (history : List (Registration α)) (entry : Registration α) :
    after (history ++ [entry]) = (after history).add entry := by
  rw [after, List.foldl_append]
  rfl

theorem builtin_eq_after [Monad m] :
    (builtin : Registry (Processor m)) = after [⟨"mini-java", ["java"], Processor.ofGrammar MiniJava.grammar⟩] := rfl

/-- A question that each registration answers anew if it fits, and leaves as it is otherwise. -/
structure Answers (look : Registry α → Option β) (fits : Registration α → Prop) (value : Registration α → β) :
    Prop where
  empty : look {} = none
  anew : ∀ (registry : Registry α) entry, fits entry → look (registry.add entry) = some (value entry)
  kept : ∀ (registry : Registry α) entry, ¬fits entry → look (registry.add entry) = look registry

variable {look : Registry α → Option β} {fits : Registration α → Prop} {value : Registration α → β}
  {history : List (Registration α)}

/-- After any history the answer is that of the last entry that fits. -/
private theorem Answers.eq_some_iff (answers : Answers look fits value) {answer : β} :
    look (after history) = some answer ↔ ∃ entry, Latest fits history entry ∧ value entry = answer := by
  induction history using List.reverseRecOn with
  | nil =>
    rw [after, List.foldl_nil, answers.empty]
    exact ⟨nofun, fun ⟨entry, latest, _⟩ => absurd latest.mem.1 List.not_mem_nil⟩
  | append_singleton history last ih =>
    rw [after_concat]
    simp only [latest_concat_iff]
    by_cases found : fits last
    · rw [answers.anew _ last found, Option.some_inj]
      simp [found]
    · rw [answers.kept _ last found, ih]
      simp [found]

private theorem Answers.eq_none_iff (answers : Answers look fits value) :
    look (after history) = none ↔ ∀ entry ∈ history, ¬fits entry := by
  induction history using List.reverseRecOn with
  | nil => exact ⟨fun _ => nofun, fun _ => answers.empty⟩
  | append_singleton history last ih =>
    rw [after_concat, List.forall_mem_append, List.forall_mem_singleton]
    by_cases found : fits last
    · rw [answers.anew _ last found]
      exact ⟨nofun, fun none => absurd found none.2⟩
    · rw [answers.kept _ last found, ih, and_iff_left found]

private theorem answers_factory (language : String) :
    Answers (fun registry : Registry α => registry.factories[language]?) (fun entry => entry.language = language)
      Registration.factory where
  empty := Std.TreeMap.getElem?_emptyc
  anew registry entry same := by
    simp only [add, register]
    rw [same, Std.TreeMap.getElem?_insert_self]
  kept registry entry other := by
    simp only [add, register, Std.TreeMap.getElem?_insert, Std.LawfulEqCmp.compare_eq_iff_eq, if_neg other]

private theorem getElem?_foldl_insert (key : String → String) (language name : String) (extensions : List String)
    (known : Std.TreeMap String String) :
    (extensions.foldl (fun known extension => known.insert (key extension) language) known)[name]? =
      if name ∈ extensions.map key then some language else known[name]? := by
  induction extensions generalizing known with
  | nil => simp
  | cons extension rest ih =>
    simp only [List.foldl_cons, ih, Std.TreeMap.getElem?_insert, Std.LawfulEqCmp.compare_eq_iff_eq, List.map_cons]
    by_cases later : name ∈ rest.map key
    · simp [later]
    · simp [later, eq_comm]

/-- The keys of a registry are equal where the extensions are. -/
private theorem lists_iff_mem {entry : Registration α} {extension : List Char} :
    entry.Lists extension ↔ String.ofList (Path.normalize extension) ∈
      entry.extensions.map fun listed => String.ofList (Path.normalize listed.toList) := by
  simp only [Registration.Lists, Path.normalize, List.mem_map, String.ofList_inj]

private theorem answers_language (extension : List Char) :
    Answers (fun registry : Registry α => registry.extensions[String.ofList (Path.normalize extension)]?)
      (fun entry => entry.Lists extension) Registration.language where
  empty := Std.TreeMap.getElem?_emptyc
  anew registry entry listed := by
    rw [lists_iff_mem] at listed
    simp only [add, register]
    rw [getElem?_foldl_insert, if_pos listed]
  kept registry entry other := by
    rw [lists_iff_mem] at other
    simp only [add, register]
    rw [getElem?_foldl_insert, if_neg other]

private theorem byName_eq_ok_iff {language : String} {factory : α} :
    (after history).byName language = .ok factory ↔
      ∃ maker, Latest (fun entry => entry.language = language) history maker ∧ maker.factory = factory := by
  rw [← (answers_factory language).eq_some_iff, byName]
  split <;> simp [*]

private theorem byName_eq_error_iff {language : String} {problem : Error} :
    (after history).byName language = .error problem ↔
      problem = .unknownLanguage language ∧ ∀ entry ∈ history, entry.language ≠ language := by
  rw [← (answers_factory language).eq_none_iff, byName]
  split <;> simp [*, eq_comm]

/-- The language that stands for a path is that of the last entry that lists the extension of the path. -/
private theorem language?_eq_some_iff {path language : String} :
    (after history).language? path = some language ↔
      ∃ extension listing, Path.Extension path.toList extension ∧
        Latest (fun entry => entry.Lists extension) history listing ∧ listing.language = language := by
  rw [language?, Option.bind_eq_some_iff]
  simp only [Path.extension?_eq_some_iff, (answers_language _).eq_some_iff, exists_and_left]

private theorem language?_eq_none_iff {path : String} :
    (after history).language? path = none ↔
      ∀ extension, Path.Extension path.toList extension → ∀ entry ∈ history, ¬entry.Lists extension := by
  rw [language?, Option.bind_eq_none_iff]
  simp only [Path.extension?_eq_some_iff, (answers_language _).eq_none_iff]

private theorem byPath_eq_ok_iff {registry : Registry α} {path : String} {factory : α} :
    registry.byPath path = .ok factory ↔
      ∃ language, registry.language? path = some language ∧ registry.byName language = .ok factory := by
  rw [byPath]
  split <;> simp [*]

private theorem exists_factory {path language : String} (found : (after history).language? path = some language) :
    ∃ factory, (after history).byName language = .ok factory := by
  obtain ⟨extension, listing, -, latest, rfl⟩ := language?_eq_some_iff.mp found
  cases known : (after history).byName listing.language with
  | ok factory => exact ⟨factory, rfl⟩
  | error problem => exact absurd rfl ((byName_eq_error_iff.mp known).2 listing latest.mem.1)

private theorem mem_languages_iff {language : String} :
    language ∈ (after history).languages ↔ ∃ entry ∈ history, entry.language = language := by
  have unknown : (after history).factories[language]? = none ↔ ∀ entry ∈ history, entry.language ≠ language :=
    (answers_factory language).eq_none_iff
  rw [languages, Std.TreeMap.mem_keys, Std.TreeMap.mem_iff_isSome_getElem?, Option.isSome_iff_ne_none, ne_eq, unknown]
  simp

private theorem languages_pairwise (registry : Registry α) :
    registry.languages.Pairwise fun one other => Utf8.bytes one < Utf8.bytes other := by
  refine registry.factories.ordered_keys.imp fun {one other} order => ?_
  exact Utf8.bytes_lt (compareOfLessAndEq_eq_lt.mp order)

/-- What a registry answers after a history of registrations. -/
structure Resolves (registry : Registry α) (history : List (Registration α)) : Prop where
  unknownPath : ∀ path problem, registry.byPath path = .error problem ↔ problem = .unknownLanguage path ∧
    ∀ extension, Path.Extension path.toList extension → ∀ entry ∈ history, ¬entry.Lists extension
  knownPath : ∀ path factory, registry.byPath path = .ok factory ↔
    ∃ extension listing maker, Path.Extension path.toList extension ∧
      Latest (fun entry => entry.Lists extension) history listing ∧
      Latest (fun entry => entry.language = listing.language) history maker ∧ maker.factory = factory
  unknownName : ∀ language problem, registry.byName language = .error problem ↔
    problem = .unknownLanguage language ∧ ∀ entry ∈ history, entry.language ≠ language
  knownName : ∀ language factory, registry.byName language = .ok factory ↔
    ∃ maker, Latest (fun entry => entry.language = language) history maker ∧ maker.factory = factory
  listed : ∀ language, language ∈ registry.languages ↔ ∃ entry ∈ history, entry.language = language
  sorted : registry.languages.Pairwise fun one other => Utf8.bytes one < Utf8.bytes other

/-- After any history a path leads to the last factory of the language that last listed its extension. -/
theorem after_resolves (history : List (Registration α)) : (after history).Resolves history where
  unknownPath path problem := by
    rw [← language?_eq_none_iff, byPath]
    split
    next language found =>
      obtain ⟨factory, known⟩ := exists_factory found
      simp [found, known]
    next none => simp [none, eq_comm]
  knownPath path factory := by
    simp only [byPath_eq_ok_iff, language?_eq_some_iff, byName_eq_ok_iff]
    constructor
    · rintro ⟨-, ⟨extension, listing, named, listed, rfl⟩, maker, latest, rfl⟩
      exact ⟨extension, listing, maker, named, listed, latest, rfl⟩
    · rintro ⟨extension, listing, maker, named, listed, latest, rfl⟩
      exact ⟨_, ⟨extension, listing, named, listed, rfl⟩, maker, latest, rfl⟩
  unknownName _ _ := byName_eq_error_iff
  knownName _ _ := byName_eq_ok_iff
  listed _ := mem_languages_iff
  sorted := languages_pairwise _

end Registry

end Verbatim
