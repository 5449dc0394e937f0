import Verbatim.Processor
import Verbatim.Proofs.DocumentRoundTrip
import Verbatim.Proofs.TextBytes

/-! What tools make of texts. Programs exchange bytes, and a run gives back the text whose bytes a program printed.
Where that program is known, so is the text: a copy, capital letters, or the source of a document. -/

namespace Verbatim

theorem Utf8.decode_eq_ok {bytes : ByteArray} {text : String} :
    Utf8.decode bytes = .ok text ↔ bytes = text.toUTF8 := by
  constructor
  · intro read
    rw [Utf8.decode] at read
    split at read
    next found =>
      cases read
      rw [String.fromUTF8?] at found
      split at found
      next => cases found; rfl
      next => cases found
    next => cases read
  · rintro rfl
    rw [Utf8.decode, String.fromUTF8?, String.toUTF8_eq_toByteArray, dif_pos text.isValidUTF8]
    rfl

namespace Tool

private theorem toList_loop (bytes : ByteArray) (index : Nat) (taken : List UInt8) :
    ByteArray.toList.loop bytes index taken = taken.reverse ++ bytes.data.toList.drop index := by
  induction index, taken using ByteArray.toList.loop.induct bytes with
  | case1 index taken inside ih =>
    have within : index < bytes.data.toList.length := by simpa using inside
    have get : bytes.get! index = bytes.data.toList[index] := by
      rw [ByteArray.get!, Array.getElem_toList]
      exact getElem!_pos bytes.data index _
    rw [ByteArray.toList.loop, if_pos inside, ih, List.drop_eq_getElem_cons within, get]
    simp
  | case2 index taken outside =>
    rw [ByteArray.toList.loop, if_neg outside, List.drop_eq_nil_of_le (by simpa using outside), List.append_nil]

def charBytes (c : Char) : Bytes := (String.utf8EncodeChar c).map fun byte => Char.ofNat byte.toNat

theorem bytesOf_eq (text : String) : bytesOf text = text.toList.flatMap charBytes := by
  rw [bytesOf, ByteArray.toList, toList_loop, List.reverse_nil, List.nil_append, List.drop_zero,
    String.toUTF8_eq_toByteArray, ← String.utf8Encode_toList, List.utf8Encode, List.data_toByteArray,
    List.map_flatMap]
  rfl

private theorem toNat_byte (byte : UInt8) : (Char.ofNat byte.toNat).toNat = byte.toNat := by
  have small := byte.toNat_lt
  have known : byte.toNat.isValidChar := .inl (by omega)
  rw [Char.ofNat, dif_pos known]
  rfl

theorem bufferOf_bytesOf (text : String) : bufferOf (bytesOf text) = text.toUTF8 := by
  have same : ((fun c : Char => UInt8.ofNat c.toNat) ∘ fun byte : UInt8 => Char.ofNat byte.toNat) = id := by
    funext byte
    rw [Function.comp, toNat_byte, UInt8.ofNat_toNat, id]
  have bytes : (bytesOf text).map (fun c => UInt8.ofNat c.toNat) = text.toList.flatMap String.utf8EncodeChar := by
    rw [bytesOf_eq, List.map_flatMap]
    simp only [charBytes, List.map_map, same, List.map_id]
  rw [bufferOf, bytes, String.toUTF8_eq_toByteArray, ← String.utf8Encode_toList, List.utf8Encode, ByteArray.ext_iff,
    List.data_toByteArray]

private theorem charBytes_ascii {c : Char} (low : c.toNat < 128) : charBytes c = [c] := by
  have single : String.utf8EncodeChar c = [UInt8.ofNat c.toNat] := if_pos (by change c.toNat ≤ 127; omega)
  have back : (UInt8.ofNat c.toNat).toNat = c.toNat := UInt8.toNat_ofNat_of_lt' (Nat.lt_trans low (by decide))
  rw [charBytes, single, List.map_singleton, back, Char.ofNat_toNat]

theorem bytesOf_ascii {text : String} (plain : text.toList.all (·.toNat < 128) = true) :
    bytesOf text = text.toList := by
  simp only [List.all_eq_true, decide_eq_true_eq] at plain
  rw [bytesOf_eq]
  generalize text.toList = chars at plain ⊢
  induction chars with
  | nil => rfl
  | cons c rest ih =>
    obtain ⟨low, plain⟩ := List.forall_mem_cons.mp plain
    rw [List.flatMap_cons, ih plain, charBytes_ascii low, List.singleton_append]

private theorem high_ofNat {code : Nat} (high : 128 ≤ code) (small : code < 256) :
    128 ≤ (UInt8.ofNat code).toNat := by
  rwa [UInt8.toNat_ofNat_of_lt' small]

/-- The bytes of a character beyond ASCII are all beyond it. -/
private theorem high_of_mem_utf8EncodeChar {c : Char} (high : 128 ≤ c.toNat) :
    ∀ byte ∈ String.utf8EncodeChar c, 128 ≤ byte.toNat := by
  have beyond : ¬c.val.toNat ≤ 127 := by change ¬c.toNat ≤ 127; omega
  unfold String.utf8EncodeChar
  dsimp only
  rw [if_neg beyond]
  have last : c.val.toNat < 0x110000 := by
    have valid := c.valid
    rw [UInt32.isValidChar, Nat.isValidChar] at valid
    omega
  generalize c.val.toNat = code at last ⊢
  split
  next =>
    simp only [List.forall_mem_cons]
    exact ⟨high_ofNat (by omega) (by omega), high_ofNat (by omega) (by omega), by simp⟩
  next =>
  split
  next =>
    simp only [List.forall_mem_cons]
    exact ⟨high_ofNat (by omega) (by omega), high_ofNat (by omega) (by omega), high_ofNat (by omega) (by omega),
      by simp⟩
  next =>
    simp only [List.forall_mem_cons]
    exact ⟨high_ofNat (by omega) (by omega), high_ofNat (by omega) (by omega), high_ofNat (by omega) (by omega),
      high_ofNat (by omega) (by omega), by simp⟩

private theorem toUpper_high {c : Char} (high : 128 ≤ c.toNat) : c.toUpper = c := by
  have other : ¬('a'.val ≤ c.val ∧ c.val ≤ 'z'.val) := by
    rintro ⟨-, small⟩
    have small : c.toNat ≤ 122 := UInt32.le_iff_toNat_le.mp small
    omega
  exact dif_neg other

private theorem toUpper_low {c : Char} (low : c.toNat < 128) : c.toUpper.toNat < 128 := by
  rw [← Char.ofNat_toNat c]
  generalize c.toNat = code at low ⊢
  revert code
  decide

theorem bytesOf_toUpper (text : String) : bytesOf text.toUpper = (bytesOf text).map Char.toUpper := by
  rw [bytesOf_eq, bytesOf_eq, String.toUpper, String.toList_map, List.map_flatMap, List.flatMap_map]
  congr 1
  funext c
  rcases Nat.lt_or_ge c.toNat 128 with low | high
  · rw [charBytes_ascii low, charBytes_ascii (toUpper_low low), List.map_singleton]
  · rw [toUpper_high high, charBytes, List.map_map]
    refine List.map_congr_left fun byte inside => (toUpper_high ?_).symm
    rw [toNat_byte]
    exact high_of_mem_utf8EncodeChar high byte inside

def Command.call (command : Command) (input : String) : Call where
  name := bytesOf command.program
  arguments := command.arguments.map bytesOf
  input := bytesOf input

variable {command : Command} {host : Host} {input text : String}

/-- What a run makes of how the program ended. -/
def Command.outcome (command : Command) (done : Completion) : Except Error String :=
  if done.duration.all (command.timeout < ·) then .error (.toolTimeout command.program command.timeout)
  else if !done.status.isSuccess then
    .error (.toolFailed command.program done.status (Utf8.lossy (bufferOf (done.sent .errors))))
  else
    match Utf8.decode (bufferOf (done.sent .output)) with
    | .ok text => .ok text
    | .error flaw => .error (.io (.notText flaw))

theorem Command.run_eq : command.run host input =
    if command.hasZero then .error (.io .zeroByte)
    else
      match host command.program with
      | .error cause => .error (.io cause)
      | .ok program =>
        if (command.call input).isTooLarge then .error (.io .argumentsTooLong)
        else command.outcome (program (command.call input)) := rfl

theorem Command.outcome_eq_ok {done : Completion} : command.outcome done = .ok text ↔
    (∃ time ≤ command.timeout, done.duration = some time) ∧ done.status = .code 0 ∧
      bufferOf (done.sent .output) = text.toUTF8 := by
  constructor
  · intro taken
    unfold Command.outcome at taken
    split at taken
    next => cases taken
    next ended =>
    split at taken
    next => cases taken
    next success =>
    split at taken
    next read =>
      cases taken
      refine ⟨?_, ?_, Utf8.decode_eq_ok.mp read⟩
      · cases same : done.duration with
        | none => simp [same] at ended
        | some time => exact ⟨time, by simpa [same] using ended, rfl⟩
      · cases same : done.status with
        | code value => simpa [same, ExitStatus.isSuccess] using success
        | signal number => simp [same, ExitStatus.isSuccess] at success
    next => cases taken
  · rintro ⟨⟨time, inTime, ended⟩, success, printed⟩
    have early : ¬done.duration.all (command.timeout < ·) = true := by simpa [ended] using inTime
    rw [Command.outcome, if_neg early, success, if_neg (by decide), Utf8.decode_eq_ok.mpr printed]

/-- A run succeeds exactly where the program can be called, ends in time and with success, and prints text. -/
theorem Command.run_eq_ok_iff :
    command.run host input = .ok text ↔
      command.hasZero = false ∧ (command.call input).isTooLarge = false ∧
        ∃ program, host command.program = .ok program ∧
          (∃ time ≤ command.timeout, (program (command.call input)).duration = some time) ∧
          (program (command.call input)).status = .code 0 ∧
          bufferOf ((program (command.call input)).sent .output) = text.toUTF8 := by
  simp only [← Command.outcome_eq_ok]
  rw [Command.run_eq]
  cases command.hasZero <;> cases host command.program <;> cases (command.call input).isTooLarge <;> simp

private theorem sent_output (text : Bytes) : ({ written := [(.output, text)] } : Completion).sent .output = text := by
  simp [Completion.sent]

/-- The standard host has every utility under its name. -/
theorem standard_of_mem : ∀ entry ∈ utilities, Host.standard entry.1 = .ok entry.2 := by
  have dash : bytesOf "dash" = "dash".toList := bytesOf_ascii (by decide)
  have sh : bytesOf "sh" = "sh".toList := bytesOf_ascii (by decide)
  simp only [utilities, List.forall_mem_cons]
  refine ⟨?_, ?_, ?_, ?_, ?_, ?_, ?_, by simp⟩
  all_goals
    rw [Host.standard, bytesOf_ascii (by decide), lookUp, if_neg (by decide), if_neg (by decide), if_neg (by decide),
      installed, sh, dash, if_neg (by decide)]
    rfl

/-- A copy of a text is that text. -/
theorem Command.run_cat {timeout : Nat} (time : 0 < timeout) (input : String) :
    Command.run ⟨"cat", [], timeout⟩ Host.standard input = .ok input := by
  have name : bytesOf "cat" = "cat".toList := bytesOf_ascii (by decide)
  refine Command.run_eq_ok_iff.mpr ⟨by simp [Command.hasZero], ?_, Cat.cat,
    standard_of_mem ("cat", Cat.cat) (by simp [utilities]), ⟨1, time, rfl⟩, rfl, ?_⟩
  · rw [Command.call, Call.isTooLarge, name]
    rfl
  · exact (congrArg bufferOf (sent_output _)).trans (bufferOf_bytesOf input)

namespace Translate

def capitals : Array Char :=
  replacements ⟨false, false, false, false⟩ (Item.range 'a' 'z').members (Item.range 'A' 'Z').members

private theorem capitals_eq : ∀ code < 256, capitals.getD code (Char.ofNat code) = (Char.ofNat code).toUpper := by
  decide +kernel

private theorem map_capitals (text : String) :
    (bytesOf text).map (fun c => capitals.getD c.toNat c) = bytesOf text.toUpper := by
  rw [bytesOf_toUpper]
  refine List.map_congr_left fun c inside => ?_
  rw [bytesOf_eq] at inside
  obtain ⟨_, -, inside⟩ := List.mem_flatMap.mp inside
  obtain ⟨byte, -, rfl⟩ := List.mem_map.mp inside
  have capital := capitals_eq byte.toNat byte.toNat_lt
  rwa [toNat_byte]

end Translate

/-- Letters of ASCII are made capital, whatever other characters stand among them. -/
theorem Command.run_tr_upper {timeout : Nat} (time : 0 < timeout) (input : String) :
    Command.run ⟨"tr", ["a-z", "A-Z"], timeout⟩ Host.standard input = .ok input.toUpper := by
  have name : bytesOf "tr" = "tr".toList := bytesOf_ascii (by decide)
  have low : bytesOf "a-z" = "a-z".toList := bytesOf_ascii (by decide)
  have high : bytesOf "A-Z" = "A-Z".toList := bytesOf_ascii (by decide)
  have call : Command.call ⟨"tr", ["a-z", "A-Z"], timeout⟩ input =
      { name := "tr".toList, arguments := ["a-z".toList, "A-Z".toList], input := bytesOf input } := by
    rw [Command.call, ← name, ← low, ← high]
    rfl
  refine Command.run_eq_ok_iff.mpr ⟨by simp [Command.hasZero], ?_, Translate.tr,
    standard_of_mem ("tr", Translate.tr) (by simp [utilities]), ?_⟩
  · rw [call]
    rfl
  · have done : Translate.tr (Command.call ⟨"tr", ["a-z", "A-Z"], timeout⟩ input) =
        { written := [(.output, bytesOf input.toUpper)] } := by
      rw [call, ← Translate.map_capitals]
      rfl
    rw [done]
    exact ⟨⟨1, time, rfl⟩, rfl, by rw [sent_output, bufferOf_bytesOf]⟩

end Tool

namespace Processor

variable {m : Type → Type} [Monad m] [LawfulMonad m] {host : Tool.Host} {language : String}
  {xmlTool : Tool.Command} {codeTool : Option Tool.Command} {calls : List Call} {tree : SyntaxTree}

omit [LawfulMonad m] in
private theorem settle_ok (value : α) : settle (m := m) (.ok value) = pure value := rfl

/-- Restoring the source of a tree and the source of its document is the same, with and without a tool. -/
theorem external_sourceFromTree (built : Builder.build calls = .ok tree)
    (named : ∀ name ∈ Call.namesOf calls, Xml.isName name.toList = true) :
    (external (m := m) host language xmlTool codeTool).sourceFromTree tree =
      (external (m := m) host language xmlTool codeTool).xmlFromTree tree >>=
        (external (m := m) host language xmlTool codeTool).sourceFromXml := by
  obtain ⟨document, written, read⟩ := Xml.exists_write built named
  cases codeTool with
  | some tool => simp only [external, written, Fault.ofError, settle_ok, pure_bind]
  | none => simp only [external, written, read, Fault.ofError, settle_ok, pure_bind]

/-- A tool that copies makes a processor for documents, which reads what is written as the tree that it was. -/
theorem external_copying {timeout : Nat} (time : 0 < timeout) (built : Builder.build calls = .ok tree)
    (named : ∀ name ∈ Call.namesOf calls, Xml.isName name.toList = true) (mode : ParseMode) :
    let processor : Processor m := external Tool.Host.standard language ⟨"cat", [], timeout⟩ none
    ∃ document, processor.xmlFromTree tree = pure document ∧ processor.treeFromSource document mode = pure tree ∧
      processor.sourceFromXml document = pure tree.generate := by
  obtain ⟨document, written, read⟩ := Xml.exists_write built named
  refine ⟨document, ?_, ?_, ?_⟩
  · simp only [external, written, Fault.ofError, settle_ok]
  · simp only [external, Tool.Command.run_cat time, read, Fault.ofError, settle_ok, pure_bind]
  · simp only [external, read, settle_ok, pure_bind]

end Processor

end Verbatim
