import LS8.Diagnostic
import LS8.Proofs.Text.Lines
import LS8.Proofs.Text.Numeral

/-!
# What a message tells of its fault

`Fault.message_identifies`: the message of a fault determines the fault, what an output device
said included; and the numbers that a diagnostic has beside its message are those that stand in
the message.

A message consists of words (`Fault.parts`). The kind of the fault shows in the first letters, the
opcode and the address are words of their own, which nothing else in the message can be taken for:
a number is in base ten or has the mark `0x` (`Numeral.IsNumber`), a byte has the mark `0b` and
eight digits (`Numeral.IsByte`).
-/

namespace LS8

namespace Numeral

variable {n m : Nat} {b b' : UInt8} {c : Char}

/-! ## Numbers as words -/

/-- A word that is a number: its digits in base ten, or in base sixteen behind the mark `0x`. -/
inductive IsNumber : List Char → Nat → Prop
  | decimal {digits n} (h : Denotes 10 digits n) : IsNumber digits n
  | hexadecimal {digits n} (h : Denotes 16 digits n) : IsNumber ('0' :: 'x' :: digits) n

/-- A word that is a byte: the mark `0b` and eight binary digits. -/
inductive IsByte : List Char → UInt8 → Prop
  | binary {digits b} (h : Denotes 2 digits b.toNat) (hlength : digits.length = 8) :
    IsByte ('0' :: 'b' :: digits) b

/-- A number begins with a digit. -/
theorem not_isNumber_cons (hc : c.isDigit = false) (rest : List Char) :
    ¬ IsNumber (c :: rest) n := by
  rintro (h | _)
  · rw [h.isDigit c List.mem_cons_self] at hc
    cases hc
  · cases hc

/-- A byte begins with its mark. -/
theorem not_isByte_cons (hc : c ≠ '0') (rest : List Char) : ¬ IsByte (c :: rest) b := by
  rintro ⟨⟩
  exact hc rfl

theorem not_denotes_marked {mark : Char} (hmark : mark.isDigit = false) {digits : List Char} :
    ¬ Denotes 10 ('0' :: mark :: digits) n := by
  intro h
  rw [h.isDigit mark (List.mem_cons_of_mem _ List.mem_cons_self)] at hmark
  cases hmark

theorem toList_hexAddress (n : Nat) : (hexAddress n).toList = '0' :: 'x' :: padded 16 2 n := by
  simp [hexAddress]

theorem toList_binaryByte (b : UInt8) :
    (binaryByte b).toList = '0' :: 'b' :: padded 2 8 b.toNat := by
  simp [binaryByte]

theorem isNumber_decimal_iff : IsNumber (decimal m).toList n ↔ m = n := by
  have hm : Denotes 10 (decimal m).toList m := by
    rw [decimal, String.toList_ofList]
    exact denotes_toDigits m
  constructor
  · intro h
    generalize hword : (decimal m).toList = word at h hm
    cases h with
    | decimal h => exact hm.unique (by decide) h
    | hexadecimal h => exact absurd hm (not_denotes_marked rfl)
  · rintro rfl
    exact .decimal hm

theorem isNumber_hexAddress_iff : IsNumber (hexAddress m).toList n ↔ m = n := by
  have hm : Denotes 16 (padded 16 2 m) m := denotes_padded (by decide) (by decide) 2 m
  rw [toList_hexAddress]
  constructor
  · intro h
    cases h with
    | decimal h => exact absurd h (not_denotes_marked rfl)
    | hexadecimal h => exact hm.unique (by decide) h
  · rintro rfl
    exact .hexadecimal hm

theorem not_isNumber_binaryByte : ¬ IsNumber (binaryByte b).toList n := by
  rw [toList_binaryByte]
  rintro (h | _)
  exact not_denotes_marked rfl h

theorem isByte_binaryByte_iff : IsByte (binaryByte b).toList b' ↔ b = b' := by
  have hb : Denotes 2 (padded 2 8 b.toNat) b.toNat := denotes_padded (by decide) (by decide) 8 _
  rw [toList_binaryByte]
  constructor
  · rintro ⟨h, -⟩
    exact UInt8.toNat_inj.1 (hb.unique (by decide) h)
  · rintro rfl
    exact .binary hb (length_padded (by decide) (by decide) b.toNat_lt)

theorem not_isByte_decimal : ¬ IsByte (decimal n).toList b := by
  have hn : Denotes 10 (decimal n).toList n := by
    rw [decimal, String.toList_ofList]
    exact denotes_toDigits n
  intro h
  generalize hword : (decimal n).toList = word at h hn
  obtain ⟨h, -⟩ := h
  exact not_denotes_marked rfl hn

theorem not_isByte_hexAddress : ¬ IsByte (hexAddress n).toList b := by
  rw [toList_hexAddress]
  rintro ⟨⟩

end Numeral

namespace Fault

open Numeral (IsNumber IsByte)
open Text (words)

variable {f g : Fault} {n : Nat} {b : UInt8}

/-! ## The words of a message -/

/-- What a message is put together from, with spaces between. What a device said is the last
part, whatever it is. -/
def parts : Fault → List String
  | outOfBounds address =>
    ["memory", "address", Numeral.hexAddress address, "out", "of", "bounds"]
  | unsupportedAlu opcode => ["unsupported", "ALU", "operation", Numeral.binaryByte opcode]
  | unknownOpcode opcode address =>
    ["unknown", "instruction", Numeral.binaryByte opcode, "at", "address",
      Numeral.decimal address]
  | invalidRegister index => ["invalid", "register", "R" ++ Numeral.decimal index.toNat]
  | outputFailed reason => ["failed", "to", "write", "output:", reason]

/-- The machine is to blame, not the output device. -/
def IsOfMachine : Fault → Prop
  | outputFailed _ => False
  | _ => True

theorem toList_message (f : Fault) :
    f.message.toList = [' '].intercalate (f.parts.map String.toList) := by
  cases f <;> simp only [parts, List.map_cons, List.map_nil, Text.intercalate_cons,
    List.flatMap_cons, List.flatMap_nil, List.cons_append, List.append_nil]
  -- what is written for a number is any text here
  case outOfBounds address =>
    show ("memory address " ++ Numeral.hexAddress address ++ " out of bounds").toList = _
    generalize Numeral.hexAddress address = numeral
    simp only [String.toList_append, List.append_assoc]
    rfl
  case unsupportedAlu opcode =>
    show ("unsupported ALU operation " ++ Numeral.binaryByte opcode).toList = _
    generalize Numeral.binaryByte opcode = byte
    rw [String.toList_append]
    rfl
  case unknownOpcode opcode address =>
    show ("unknown instruction " ++ Numeral.binaryByte opcode ++ " at address " ++
      Numeral.decimal address).toList = _
    generalize Numeral.binaryByte opcode = byte, Numeral.decimal address = numeral
    simp only [String.toList_append, List.append_assoc]
    rfl
  case invalidRegister index =>
    show ("invalid register R" ++ Numeral.decimal index.toNat).toList = _
    generalize Numeral.decimal index.toNat = numeral
    rw [String.toList_append, String.toList_append]
    rfl
  case outputFailed reason =>
    show ("failed to write output: " ++ reason).toList = _
    rw [String.toList_append]
    rfl

/-- Only what a device said can be empty, or have other things in it than letters and digits. -/
theorem parts_words (h : f.IsOfMachine) :
    ∀ part ∈ f.parts, part.toList ≠ [] ∧ part.toList.all Char.isAlphanum = true := by
  have hhex : ∀ n, (Numeral.hexAddress n).toList ≠ [] ∧
      (Numeral.hexAddress n).toList.all Char.isAlphanum = true := fun n =>
    ⟨by simp [Numeral.toList_hexAddress],
      List.all_eq_true.2 fun _ => Numeral.isAlphanum_of_mem_hexAddress⟩
  have hbyte : ∀ b, (Numeral.binaryByte b).toList ≠ [] ∧
      (Numeral.binaryByte b).toList.all Char.isAlphanum = true := fun b =>
    ⟨by simp [Numeral.toList_binaryByte],
      List.all_eq_true.2 fun _ => Numeral.isAlphanum_of_mem_binaryByte⟩
  have hdecimal : ∀ n, (Numeral.decimal n).toList ≠ [] ∧
      (Numeral.decimal n).toList.all Char.isAlphanum = true := fun n =>
    ⟨by simp [Numeral.decimal, Nat.toDigits_ne_nil],
      List.all_eq_true.2 fun _ => Numeral.isAlphanum_of_mem_decimal⟩
  cases f with
  | outOfBounds address =>
    simp only [parts, List.forall_mem_cons]
    exact ⟨by decide, by decide, hhex address, by decide, by decide, by decide,
      List.forall_mem_nil _⟩
  | unsupportedAlu opcode =>
    simp only [parts, List.forall_mem_cons]
    exact ⟨by decide, by decide, by decide, hbyte opcode, List.forall_mem_nil _⟩
  | unknownOpcode opcode address =>
    simp only [parts, List.forall_mem_cons]
    exact ⟨by decide, by decide, hbyte opcode, by decide, by decide, hdecimal address,
      List.forall_mem_nil _⟩
  | invalidRegister index =>
    simp only [parts, List.forall_mem_cons, String.toList_append, List.all_append]
    refine ⟨by decide, by decide, ⟨by simp, ?_⟩, List.forall_mem_nil _⟩
    rw [(hdecimal index.toNat).2]
    rfl
  | outputFailed reason => exact h.elim

theorem words_message (h : f.IsOfMachine) :
    words f.message.toList = f.parts.map String.toList := by
  rw [toList_message, Text.words_intercalate]
  intro piece hpiece
  obtain ⟨part, hpart, rfl⟩ := List.mem_map.1 hpiece
  obtain ⟨hne, halphanum⟩ := parts_words h part hpart
  exact ⟨fun hspace => absurd (List.all_eq_true.1 halphanum ' ' hspace) (by decide), hne⟩

/-- A machine is to blame in one line. -/
theorem lineFeed_notMem_message (h : f.IsOfMachine) : '\n' ∉ f.message.toList := by
  rw [toList_message, Text.mem_intercalate_iff (by decide)]
  rintro ⟨piece, hpiece, hfeed⟩
  obtain ⟨part, hpart, rfl⟩ := List.mem_map.1 hpiece
  exact absurd (List.all_eq_true.1 (parts_words h part hpart).2 '\n' hfeed) (by decide)

/-! ## Numbers in a message -/

/-- **The number in a message** is the address of the fault. -/
theorem address?_eq_some_iff (h : f.IsOfMachine) : f.address? = some n ↔
    ∃ word ∈ words f.message.toList, IsNumber word n := by
  rw [words_message h]
  cases f with
  | outOfBounds address =>
    simp [parts, address?, Numeral.not_isNumber_cons, Numeral.isNumber_hexAddress_iff]
  | unsupportedAlu opcode =>
    simp [parts, address?, Numeral.not_isNumber_cons, Numeral.not_isNumber_binaryByte]
  | unknownOpcode opcode address =>
    simp [parts, address?, Numeral.not_isNumber_cons, Numeral.not_isNumber_binaryByte,
      Numeral.isNumber_decimal_iff]
  | invalidRegister index =>
    simp [parts, address?, Numeral.not_isNumber_cons]
  | outputFailed reason => exact h.elim

/-- **The byte in a message** is the opcode of the fault. -/
theorem opcode?_eq_some_iff (h : f.IsOfMachine) : f.opcode? = some b ↔
    ∃ word ∈ words f.message.toList, IsByte word b := by
  rw [words_message h]
  cases f with
  | outOfBounds address =>
    simp [parts, opcode?, Numeral.not_isByte_cons, Numeral.not_isByte_hexAddress]
  | unsupportedAlu opcode =>
    simp [parts, opcode?, Numeral.not_isByte_cons, Numeral.isByte_binaryByte_iff]
  | unknownOpcode opcode address =>
    simp [parts, opcode?, Numeral.not_isByte_cons, Numeral.isByte_binaryByte_iff,
      Numeral.not_isByte_decimal]
  | invalidRegister index => simp [parts, opcode?, Numeral.not_isByte_cons]
  | outputFailed reason => exact h.elim

/-! ## Messages determine faults -/

/-- How the message of a fault of this kind begins. -/
def initials : Fault → List Char
  | outOfBounds _ => ['m', 'e', 'm']
  | unsupportedAlu _ => ['u', 'n', 's']
  | unknownOpcode _ _ => ['u', 'n', 'k']
  | invalidRegister _ => ['i', 'n', 'v']
  | outputFailed _ => ['f', 'a', 'i']

theorem take_message (f : Fault) : f.message.toList.take 3 = f.initials := by
  rw [toList_message]
  cases f <;> rfl

theorem address?_eq_of_message (h : f.message = g.message) (hf : f.IsOfMachine)
    (hg : g.IsOfMachine) :
    f.address? = g.address? := by
  refine Option.ext fun n => ?_
  rw [address?_eq_some_iff hf, address?_eq_some_iff hg, h]

theorem opcode?_eq_of_message (h : f.message = g.message) (hf : f.IsOfMachine)
    (hg : g.IsOfMachine) :
    f.opcode? = g.opcode? := by
  refine Option.ext fun b => ?_
  rw [opcode?_eq_some_iff hf, opcode?_eq_some_iff hg, h]

/-- **Two faults with one message are the same.** The beginnings tell the kinds apart, and within
a kind the numbers or what the device said are left. -/
theorem message_injective : Function.Injective message := by
  intro f g h
  have hinitials : f.initials = g.initials := by rw [← take_message, ← take_message, h]
  cases f with
  | outOfBounds address =>
    cases g with
    | outOfBounds address' =>
      exact congrArg outOfBounds (Option.some.inj (address?_eq_of_message h trivial trivial))
    | _ => cases hinitials
  | unsupportedAlu opcode =>
    cases g with
    | unsupportedAlu opcode' =>
      exact congrArg unsupportedAlu (Option.some.inj (opcode?_eq_of_message h trivial trivial))
    | _ => cases hinitials
  | unknownOpcode opcode address =>
    cases g with
    | unknownOpcode opcode' address' =>
      obtain rfl : opcode = opcode' := Option.some.inj (opcode?_eq_of_message h trivial trivial)
      exact congrArg _ (Option.some.inj (address?_eq_of_message h trivial trivial))
    | _ => cases hinitials
  | invalidRegister index =>
    cases g with
    | invalidRegister index' =>
      have hdigits : Numeral.decimal index.toNat = Numeral.decimal index'.toNat :=
        (String.append_right_inj "invalid register R").1 h
      exact congrArg invalidRegister (UInt8.toNat_inj.1 (Numeral.decimal_injective hdigits))
    | _ => cases hinitials
  | outputFailed reason =>
    cases g with
    | outputFailed reason' =>
      exact congrArg outputFailed ((String.append_right_inj "failed to write output: ").1 h)
    | _ => cases hinitials

theorem ofFault_eq_iff : Diagnostic.ofFault f = Diagnostic.ofFault g ↔ f = g :=
  ⟨fun h => message_injective (congrArg Diagnostic.message h), congrArg Diagnostic.ofFault⟩

/-- The opcode beside a message is a word of the message. -/
theorem opcode_mem_words {text : String} (h : (Diagnostic.ofFault f).opcode = some text) :
    text.toList ∈ words f.message.toList := by
  cases f with
  | unsupportedAlu opcode =>
    obtain rfl : Numeral.binaryByte opcode = text := Option.some.inj h
    rw [words_message (f := .unsupportedAlu opcode) trivial]
    exact List.mem_map_of_mem (by simp [parts])
  | unknownOpcode opcode address =>
    obtain rfl : Numeral.binaryByte opcode = text := Option.some.inj h
    rw [words_message (f := .unknownOpcode opcode address) trivial]
    exact List.mem_map_of_mem (by simp [parts])
  | outOfBounds | invalidRegister | outputFailed => cases h

/-- A byte is beside the message if it is the opcode. -/
theorem exists_isByte_opcode_iff : (∃ text, (Diagnostic.ofFault f).opcode = some text ∧
    IsByte text.toList b) ↔ f.opcode? = some b := by
  have hopcode : (Diagnostic.ofFault f).opcode = f.opcode?.map Numeral.binaryByte := rfl
  rw [hopcode]
  cases f.opcode? <;> simp [Numeral.isByte_binaryByte_iff]

/-- **Messages identify faults.** No two faults, whatever addresses, bytes, registers and texts of
a device they have, share a message, so none share a diagnostic. Unless the device is to blame,
the address of a diagnostic is the number that stands in its message, and its opcode is the byte
that does; if the device is, a diagnostic has neither. -/
theorem message_identifies :
    (∀ f g : Fault, f.message = g.message → f = g) ∧
    (∀ f g, Diagnostic.ofFault f = Diagnostic.ofFault g ↔ f = g) ∧
    (∀ f : Fault, f.IsOfMachine →
      (∀ n, (Diagnostic.ofFault f).address = some n ↔
        ∃ word ∈ words (Diagnostic.ofFault f).message.toList, IsNumber word n) ∧
      (∀ b, (∃ text, (Diagnostic.ofFault f).opcode = some text ∧ IsByte text.toList b) ↔
        ∃ word ∈ words (Diagnostic.ofFault f).message.toList, IsByte word b) ∧
      ∀ text, (Diagnostic.ofFault f).opcode = some text →
        text.toList ∈ words (Diagnostic.ofFault f).message.toList) ∧
    ∀ reason, (Diagnostic.ofFault (.outputFailed reason)).address = none ∧
      (Diagnostic.ofFault (.outputFailed reason)).opcode = none := by
  refine ⟨fun f g h => message_injective h, fun f g => ofFault_eq_iff, fun f hf => ?_,
    fun reason => ⟨rfl, rfl⟩⟩
  exact ⟨fun n => address?_eq_some_iff hf,
    fun b => exists_isByte_opcode_iff.trans (opcode?_eq_some_iff hf), fun text => opcode_mem_words⟩

/-- An address of 64 bits, and a device that says what a message says. -/
theorem message_identifies_largest :
    (∃ word ∈ words "unknown instruction 0b00000011 at address 18446744073709551615".toList,
      IsNumber word 18446744073709551615) ∧
    Fault.message (.outputFailed "invalid register R9") ≠ Fault.message (.invalidRegister 9) := by
  obtain ⟨hinjective, -, hnumbers, -⟩ := message_identifies
  constructor
  · have hmessage : (Diagnostic.ofFault (.unknownOpcode 3 18446744073709551615)).message =
        "unknown instruction 0b00000011 at address 18446744073709551615" := by decide +kernel
    rw [← hmessage]
    exact ((hnumbers (.unknownOpcode 3 18446744073709551615) trivial).1 _).1 rfl
  · intro h
    cases hinjective _ _ h

end Fault

end LS8
