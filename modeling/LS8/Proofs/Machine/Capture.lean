import LS8.Proofs.Device.Contents
import LS8.Proofs.Machine.Chronicle
import LS8.Proofs.Machine.Transcript

/-!
# Captured output

What is read from a device that a machine prints on.

- `Machine.contents_after`: what a number of steps print is read behind what was read before, even
  if other bytes had been written to the device that end within a character.
- `Machine.printedBy` are the numbers that are printed in operations of all kinds, by runs and by
  single steps, and `Machine.Chronicle.contents_of_follow?` says the same of those.
- `Machine.capture_reads_back`: nothing is lost on the way, be it in the writes of the device or in
  the lines of the machine.
-/

namespace LS8.Machine

variable {m : Machine} {op : Operation} {ops : List Operation} {outcome : Outcome Machine}

/-- **What is printed in a number of steps** is read behind what was read before. -/
theorem contents_after (hd : m.device.Unlimited) (n : Nat) :
    (m.after n).device.contents = m.device.contents ++ transcript (m.printed n) := by
  have hwritten : (m.after n).device.written =
      m.device.written ++ Utf8.encode (transcript (m.printed n)) := by
    rw [written_after hd, encode_transcript, printedLines]
  rw [Device.contents, hwritten]
  exact m.device.contents_append_encode _

theorem contents_of_new (hm : m.device = {}) : m.device.contents = "" := by
  rw [hm]
  rfl

/-- What is read from a new device is what the steps print. -/
theorem contents_after_of_new (hm : m.device = {}) (n : Nat) :
    (m.after n).device.contents = transcript (m.printed n) := by
  rw [contents_after (unlimited_of_new hm), contents_of_new hm, String.empty_append]

/-! ## What operations print -/

/-- The numbers that are printed in an operation. -/
def printedIn (m : Machine) : Operation → List UInt8
  | .step => m.printed 1
  | .run => m.start.printed m.attempts
  | .load _ | .start | .setPc _ | .poke _ _ => []

/-- The numbers that are printed in operations one after the other, up to a run that never
stops. -/
def printedBy (m : Machine) : List Operation → List UInt8
  | [] => []
  | op :: ops =>
    m.printedIn op ++
      match m.perform? op with
      | some outcome => outcome.state.printedBy ops
      | none => []

theorem printedBy_cons (h : m.perform? op = some outcome) (ops : List Operation) :
    m.printedBy (op :: ops) = m.printedIn op ++ outcome.state.printedBy ops := by
  rw [printedBy, h]

theorem device_poke (m : Machine) (address : Nat) (value : UInt8) :
    (m.poke address value).state.device = m.device := by
  unfold poke
  cases m.memory.write address value <;> rfl

/-- **What is printed in an operation.** Only steps print, and a run is a number of them. -/
theorem contents_of_perform? (hd : m.device.Unlimited) (h : m.perform? op = some outcome) :
    outcome.state.device.Unlimited ∧
      outcome.state.device.contents = m.device.contents ++ transcript (m.printedIn op) := by
  have hsilent : ∀ {m' : Machine}, m'.device = m.device → m'.device.Unlimited ∧
      m'.device.contents = m.device.contents ++ transcript [] := by
    intro m' hdevice
    rw [hdevice]
    exact ⟨hd, String.append_empty.symm⟩
  cases op with
  | step =>
    obtain rfl := Option.some.inj h
    exact ⟨unlimited_step hd, contents_after hd 1⟩
  | run =>
    obtain ⟨k, -, -, rfl, hattempts⟩ := exists_attempts h
    have hstart : m.start.device.Unlimited := hd
    rw [printedIn, hattempts]
    exact ⟨unlimited_after hstart (k + 1), contents_after hstart (k + 1)⟩
  | load _ | start | setPc _ =>
    obtain rfl := Option.some.inj h
    exact hsilent rfl
  | poke address value =>
    obtain rfl := Option.some.inj h
    exact hsilent (m.device_poke address value)

/-- **Whatever is done to a machine**, what it prints is read behind what was read before. -/
theorem Chronicle.contents_of_follow? {c c' : Chronicle} (hd : c.machine.device.Unlimited)
    (h : c.follow? ops = some c') :
    c'.machine.device.Unlimited ∧ c'.machine.device.contents =
      c.machine.device.contents ++ transcript (c.machine.printedBy ops) := by
  induction ops generalizing c with
  | nil =>
    obtain rfl := Option.some.inj h
    exact ⟨hd, String.append_empty.symm⟩
  | cons op ops ih =>
    obtain ⟨c₁, hop, hrest⟩ := Option.bind_eq_some_iff.1 h
    obtain ⟨outcome, houtcome, rfl⟩ := Chronicle.next?_eq_some_iff.1 hop
    obtain ⟨hd₁, hcontents⟩ := contents_of_perform? hd houtcome
    obtain ⟨hd', hcontents'⟩ := ih hd₁ hrest
    refine ⟨hd', ?_⟩
    rw [hcontents', hcontents, printedBy_cons houtcome, transcript_append, String.append_assoc]

/-! ## Nothing is lost -/

/-- **Captured output does not depend on how it was written.** What is read after any writes depends
on their bytes alone. If those are the bytes of a text, it is the text, and in between it was the
text as far as it had come, with a mark in place of a character that was not complete. A machine
that prints on a new device only ever puts more text behind what is read, and the lines are, in
decimal, the numbers that were printed: at every step, of a run that never stops too, and whatever
else is done to the machine between its steps and its runs. -/
theorem capture_reads_back :
    (∀ writes writes' : List (List UInt8), writes.flatten = writes'.flatten →
      (Device.captured writes).contents = (Device.captured writes').contents) ∧
    (∀ (writes : List (List UInt8)) (text : String), writes.flatten = Utf8.encode text →
      (Device.captured writes).contents = text ∧
      ∀ k, Utf8.Shows text (writes.take k).flatten (Device.captured (writes.take k)).contents) ∧
    (∀ m : Machine, m.device = {} → ∀ n,
      (Text.lines (m.after n).device.contents.toList).map Numeral.ofDecimal? =
        (m.printed n).map (fun v => some v.toNat) ∧
      ∀ k, ∃ text, (m.after (n + k)).device.contents = (m.after n).device.contents ++ text) ∧
    ∀ m : Machine, m.device = {} → ∀ ops c, m.chronicle? ops = some c →
      (Text.lines c.machine.device.contents.toList).map Numeral.ofDecimal? =
        (m.printedBy ops).map (fun v => some v.toNat) ∧
      ∀ more c', c.follow? more = some c' →
        ∃ text, c'.machine.device.contents = c.machine.device.contents ++ text := by
  refine ⟨fun writes writes' h => ?_, fun writes text h => ?_, fun m hm n => ⟨?_, fun k => ?_⟩,
    fun m hm ops c h => ?_⟩
  · rw [Device.contents_captured, Device.contents_captured, h]
  · exact ⟨Device.contents_captured_of_encode h, Device.shows_captured h⟩
  · rw [contents_after_of_new hm]
    exact map_lines_transcript _
  · rw [after_add]
    exact ⟨_, contents_after (unlimited_after (unlimited_of_new hm) n) k⟩
  · obtain ⟨hd, hcontents⟩ := Chronicle.contents_of_follow? (unlimited_of_new hm) h
    have htext : c.machine.device.contents = transcript (m.printedBy ops) := by
      rw [hcontents, contents_of_new hm, String.empty_append]
    refine ⟨?_, fun more c' hmore => ?_⟩
    · rw [htext]
      exact map_lines_transcript _
    · obtain ⟨-, hcontents'⟩ := Chronicle.contents_of_follow? hd hmore
      exact ⟨_, hcontents'⟩

/-- A character of three bytes that comes in two writes, and a line feed behind it. -/
def pieces : List (List UInt8) :=
  [[0xE2, 0x82], [0xAC, 0x0A]]

/-- `LDI R0,72`, `PRN R0`, `LDI R0,8`, `PRN R0`, `HLT`. -/
def printsTwoNumbers : Image :=
  ⟨[0x82, 0, 72, 0x47, 0, 0x82, 0, 8, 0x47, 0, 0x01]⟩

theorem capture_reads_back_inPieces :
    (Device.captured pieces).contents = (Device.captured [[0xE2], [0x82, 0xAC, 0x0A]]).contents ∧
    (Device.captured pieces).contents = "€\n" ∧
    Utf8.Shows "€\n" [0xE2, 0x82] "\uFFFD" ∧
    ((Text.lines ((loaded {} false printsTwoNumbers).after 2).device.contents.toList).map
        Numeral.ofDecimal? = [some 72] ∧
      ∃ text, ((loaded {} false printsTwoNumbers).after (2 + 2)).device.contents =
        ((loaded {} false printsTwoNumbers).after 2).device.contents ++ text) ∧
    ∃ c c', (initial {} false).chronicle? [.load printsTwoNumbers, .run] = some c ∧
      (Text.lines c.machine.device.contents.toList).map Numeral.ofDecimal? = [some 72, some 8] ∧
      c.follow? [.setPc 3, .step] = some c' ∧
      ∃ text, c'.machine.device.contents = c.machine.device.contents ++ text := by
  obtain ⟨hbytes, htext, hsteps, hoperations⟩ := capture_reads_back
  obtain ⟨hwhole, hshows⟩ := htext pieces "€\n" (by decide +kernel)
  have hmark : (Device.captured (pieces.take 1)).contents = "\uFFFD" := by
    decide +kernel
  obtain ⟨hfirst, hbehind⟩ := hsteps (loaded {} false printsTwoNumbers) rfl 2
  have hprinted : (loaded {} false printsTwoNumbers).printed 2 = [72] := by
    decide +kernel
  obtain ⟨c, hc⟩ : ∃ c, (initial {} false).chronicle? [.load printsTwoNumbers, .run] = some c :=
    Option.isSome_iff_exists.1 (by decide +kernel)
  obtain ⟨c', hc'⟩ : ∃ c', c.follow? [.setPc 3, .step] = some c' := ⟨_, rfl⟩
  obtain ⟨hall, hmore⟩ := hoperations (initial {} false) rfl _ c hc
  have hprintedBy : (initial {} false).printedBy [.load printsTwoNumbers, .run] = [72, 8] := by
    decide +kernel
  refine ⟨hbytes _ _ rfl, hwhole, hmark ▸ hshows 1, ⟨?_, hbehind 2⟩, c, c', hc, ?_, hc',
    hmore _ c' hc'⟩
  · rw [hfirst, hprinted]
    rfl
  · rw [hall, hprintedBy]
    rfl

end LS8.Machine
