import LS8.Proofs.Machine.Output

/-!
# Lines on a device with limits

A device is given one line after another, and flushed behind each.

- `Device.Bears d lines`: the limits of the device allow all of these lines. It takes them
  and is `Device.after d lines` then (`Device.print_after`).
- A line that is written in pieces is as one that is written at once
  (`Device.print_append`).
- A device whose room is used up keeps the part of the line that still fits
  (`Device.print_after_of_full`); one that does not flush any more keeps the whole line
  (`Device.print_after_of_no_flush`).
- `Device.firstLines n bytes` are the first `n` lines of what was written
  (`Device.firstLines_flatten`).
-/

namespace LS8.Device

/-- The device has room for all of these lines and bears a flush behind each of them. -/
structure Bears (d : Device) (lines : List (List UInt8)) : Prop where
  room : ∀ room ∈ d.room, lines.flatten.length ≤ room
  flushes : ∀ left ∈ d.flushes, lines.length ≤ left

/-- The device once it has taken these lines. -/
def after (d : Device) (lines : List (List UInt8)) : Device :=
  { d with
    written := d.written ++ lines.flatten
    flushes := d.flushes.map (· - lines.length) }

variable {d : Device} {lines more : List (List UInt8)} {line bytes : List UInt8} {n : Nat}

theorem bears_nil (d : Device) : d.Bears [] :=
  ⟨fun room _ => Nat.zero_le room, fun left _ => Nat.zero_le left⟩

theorem Bears.of_append (h : d.Bears (lines ++ more)) : d.Bears lines := by
  constructor
  · intro room hroom
    have hle := h.room room hroom
    rw [List.flatten_append, List.length_append] at hle
    exact Nat.le_of_add_right_le hle
  · intro left hleft
    have hle := h.flushes left hleft
    rw [List.length_append] at hle
    exact Nat.le_of_add_right_le hle

theorem bears_of_unlimited (h : d.Unlimited) (lines : List (List UInt8)) : d.Bears lines := by
  constructor
  · intro room hroom
    rw [Device.room, h.1] at hroom
    cases hroom
  · intro left hleft
    rw [h.2] at hleft
    cases hleft

theorem bears_capacity_iff : Bears { capacity := some n } lines ↔ lines.flatten.length ≤ n := by
  constructor
  · intro h
    exact h.room n rfl
  · intro h
    refine ⟨?_, nofun⟩
    rintro room ⟨⟩
    exact h

theorem bears_flushes_iff : Bears { flushes := some n } lines ↔ lines.length ≤ n := by
  constructor
  · intro h
    exact h.flushes n rfl
  · intro h
    refine ⟨nofun, ?_⟩
    rintro left ⟨⟩
    exact h

theorem append_append (written : Array UInt8) (xs ys : List UInt8) :
    written ++ (xs ++ ys) = written ++ xs ++ ys := by
  apply Array.toList_inj.1
  simp

theorem after_nil (d : Device) : d.after [] = d := by
  simp [after]

theorem room_after (d : Device) (lines : List (List UInt8)) :
    (d.after lines).room = d.room.map (· - lines.flatten.length) :=
  room_append d _ _

/-! ## Pieces -/

theorem write_of_fits (h : ∀ room ∈ d.room, bytes.length ≤ room) :
    d.write bytes = ({ d with written := d.written ++ bytes }, none) := by
  have hkept : d.accepts bytes.length = bytes.length := by
    unfold accepts
    split
    · rfl
    · next capacity hcapacity =>
      exact Nat.min_eq_left (h _ (by rw [Device.room, hcapacity]; rfl))
  simp [write, hkept]

theorem write_of_full {room : Nat} (hroom : d.room = some room) (hfull : room < bytes.length) :
    d.write bytes = ({ d with written := d.written ++ bytes.take room }, some d.whenFull) := by
  obtain ⟨capacity, hcapacity, rfl⟩ := Option.map_eq_some_iff.1 hroom
  have hkept : d.accepts bytes.length = capacity - d.written.size := by
    rw [accepts, hcapacity]
    exact Nat.min_eq_right (Nat.le_of_lt hfull)
  simp [write, hkept, hfull]

/-- A device either has room for all of a write or is full before the end of it. -/
theorem fits_or_full (d : Device) (count : Nat) :
    (∀ room ∈ d.room, count ≤ room) ∨ ∃ room, d.room = some room ∧ room < count := by
  cases hroom : d.room with
  | none => exact .inl nofun
  | some room =>
    rcases Nat.lt_or_ge room count with hlt | hge
    · exact .inr ⟨room, rfl, hlt⟩
    · exact .inl fun _ hmem => Option.mem_some_iff.1 hmem ▸ hge

/-- Two writes of which the second follows if the first succeeds are one. -/
theorem write_append (d : Device) (xs ys : List UInt8) :
    d.write (xs ++ ys) =
      match d.write xs with
      | (d, none) => d.write ys
      | failed => failed := by
  have hlength : (xs ++ ys).length = xs.length + ys.length := List.length_append
  rcases d.fits_or_full xs.length with hfits | ⟨room, hroom, hfull⟩
  · -- what is left behind the first piece decides on the second
    have hleft : Device.room { d with written := d.written ++ xs } =
        d.room.map (· - xs.length) :=
      room_append d xs d.flushes
    rw [write_of_fits hfits]
    rcases d.fits_or_full (xs ++ ys).length with hboth | ⟨room, hroom, hover⟩
    · have hrest : ∀ room ∈ Device.room { d with written := d.written ++ xs },
          ys.length ≤ room := by
        intro room hmem
        rw [hleft] at hmem
        obtain ⟨before, hbefore, rfl⟩ := Option.map_eq_some_iff.1 hmem
        have hle := hboth before hbefore
        omega
      simp only [write_of_fits hboth, write_of_fits hrest, append_append]
    · have hle := hfits room hroom
      have hrest : Device.room { d with written := d.written ++ xs } =
          some (room - xs.length) := by
        rw [hleft, hroom]
        rfl
      simp only [write_of_full hroom hover, write_of_full hrest (by omega : _ < ys.length),
        List.take_append, List.take_of_length_le hle, append_append]
  · have hover : room < (xs ++ ys).length := by omega
    simp only [write_of_full hroom hfull, write_of_full hroom hover,
      List.take_append_of_le_length (Nat.le_of_lt hfull)]

/-- It makes no difference in how many pieces a line is written before the flush. -/
theorem print_append (d : Device) (xs ys : List UInt8) :
    d.print (xs ++ ys) =
      match d.write xs with
      | (d, none) => d.print ys
      | failed => failed := by
  simp only [print, write_append]
  rcases d.write xs with ⟨d', _ | failure⟩ <;> rfl

/-! ## The next line -/

/-- A line that the limits allow is taken. -/
theorem print_after (h : d.Bears (lines ++ [line])) :
    (d.after lines).print line = (d.after (lines ++ [line]), none) := by
  have hflat : (lines ++ [line]).flatten = lines.flatten ++ line := by simp
  refine print_eq_ok_iff.2 ⟨?_, ?_, ?_⟩
  · intro room hroom
    rw [room_after] at hroom
    obtain ⟨before, hbefore, rfl⟩ := Option.map_eq_some_iff.1 hroom
    have hle := h.room before hbefore
    rw [hflat, List.length_append] at hle
    omega
  · intro hleft
    obtain ⟨before, hbefore, hzero⟩ := Option.map_eq_some_iff.1 hleft
    have hle := h.flushes before hbefore
    rw [List.length_append, List.length_singleton] at hle
    omega
  · rw [after, after, hflat, append_append, List.length_append, List.length_singleton,
      Option.map_map]
    simp only [Function.comp_def, Nat.sub_sub]

/-- Of the line for which there is no room any more, a device keeps what fits. -/
theorem print_after_of_full (hfits : lines.flatten.length ≤ n)
    (hover : n < lines.flatten.length + line.length) :
    (after { capacity := some n } lines).print line =
      ({ written := ((lines.flatten ++ line).take n).toArray, capacity := some n }, some full) := by
  have hroom : (after { capacity := some n } lines).room = some (n - lines.flatten.length) :=
    room_after _ _
  have hfull : n - lines.flatten.length < line.length := by omega
  simp only [print, write_of_full hroom hfull]
  simp [after, List.take_append, List.take_of_length_le hfits]

/-- Once there is no flush left, a device takes a line before it fails. -/
theorem print_after_of_no_flush (hlines : lines.length = n) :
    (after { flushes := some n } lines).print line =
      ({ written := (lines.flatten ++ line).toArray, flushes := some 0 }, some flushFailed) := by
  have hflushes : (after { flushes := some n } lines).flushes = some 0 := by
    rw [← hlines]
    exact congrArg some (Nat.sub_self _)
  have hfits : ∀ room ∈ (after { flushes := some n } lines).room, line.length ≤ room := nofun
  simp only [print, write_of_fits hfits, flush, hflushes]
  simp [after, hlines]

/-! ## The first lines -/

/-- The bytes up to the `n`-th line feed and with it, or all of them if there are fewer. -/
def firstLines : Nat → List UInt8 → List UInt8
  | 0, _ => []
  | _ + 1, [] => []
  | n + 1, byte :: rest =>
    if byte = 10 then byte :: firstLines n rest else byte :: firstLines (n + 1) rest

theorem firstLines_zero (bytes : List UInt8) : firstLines 0 bytes = [] := by
  rw [firstLines]

/-- A line has one line feed, which is its end. -/
def IsLine (line : List UInt8) : Prop :=
  ∃ text, line = text ++ [10] ∧ 10 ∉ text

theorem IsLine.count (h : IsLine line) : line.count 10 = 1 := by
  obtain ⟨text, rfl, htext⟩ := h
  rw [List.count_append, List.count_eq_zero_of_not_mem htext]
  rfl

theorem firstLines_append (h : IsLine line) (n : Nat) (bytes : List UInt8) :
    firstLines (n + 1) (line ++ bytes) = line ++ firstLines n bytes := by
  obtain ⟨text, rfl, htext⟩ := h
  induction text with
  | nil => rfl
  | cons byte text ih =>
    obtain ⟨hbyte, hrest⟩ : byte ≠ 10 ∧ 10 ∉ text := by
      simpa [eq_comm] using htext
    rw [List.cons_append, List.cons_append, firstLines, if_neg hbyte, ih hrest]
    rfl

/-- Lines that were written one behind the other can be told apart again. -/
theorem firstLines_flatten (h : ∀ line ∈ lines, IsLine line) (n : Nat) :
    firstLines n lines.flatten = (lines.take n).flatten := by
  induction lines generalizing n with
  | nil => cases n <;> rfl
  | cons line lines ih =>
    obtain ⟨hline, hlines⟩ := List.forall_mem_cons.1 h
    cases n with
    | zero => rw [firstLines_zero, List.take_zero, List.flatten_nil]
    | succ n =>
      rw [List.flatten_cons, firstLines_append hline, ih hlines, List.take_succ_cons,
        List.flatten_cons]

theorem count_flatten (h : ∀ line ∈ lines, IsLine line) :
    lines.flatten.count 10 = lines.length := by
  induction lines with
  | nil => rfl
  | cons line lines ih =>
    obtain ⟨hline, hlines⟩ := List.forall_mem_cons.1 h
    rw [List.flatten_cons, List.count_append, hline.count, ih hlines, List.length_cons,
      Nat.add_comm]

end LS8.Device
