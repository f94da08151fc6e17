import LS8.Proofs.Device.Lines
import LS8.Proofs.Text.Utf8

/-!
# What is read from a device

A device without limits keeps all that it is given, so what is read from it depends on the bytes
and not on how they were divided into writes (`Device.contents_captured`). That is why a character
that two writes share is read as a mark in between and as itself in the end
(`Device.shows_captured`, `Device.contents_captured_of_encode`).
-/

namespace LS8.Device

variable {d : Device} {writes : List (List UInt8)} {text : String}

/-- The device once it was given these writes, one after the other. -/
def writeAll (d : Device) : List (List UInt8) → Device
  | [] => d
  | bytes :: writes => (d.write bytes).1.writeAll writes

/-- A new device without limits that was given these writes. -/
def captured (writes : List (List UInt8)) : Device :=
  ({} : Device).writeAll writes

/-- **Writes are put together.** -/
theorem writeAll_of_unlimited (h : d.Unlimited) (writes : List (List UInt8)) :
    d.writeAll writes = { d with written := d.written ++ writes.flatten } := by
  induction writes generalizing d with
  | nil => rw [writeAll, List.flatten_nil, Array.appendList_nil]
  | cons bytes writes ih =>
    have htaken : Unlimited { d with written := d.written ++ bytes } := h
    rw [writeAll, write_of_unlimited h, List.flatten_cons, append_append]
    exact ih htaken

/-- **What is read depends on the bytes only.** -/
theorem contents_captured (writes : List (List UInt8)) :
    (captured writes).contents = Utf8.decodeLossy writes.flatten := by
  rw [captured, writeAll_of_unlimited ⟨rfl, rfl⟩, contents]
  simp

/-- Once all bytes of a text have come, the text is read. -/
theorem contents_captured_of_encode (h : writes.flatten = Utf8.encode text) :
    (captured writes).contents = text := by
  rw [contents_captured, h, Utf8.decodeLossy_encode]

/-- Before that, the text is read as far as it has come. -/
theorem shows_captured (h : writes.flatten = Utf8.encode text) (k : Nat) :
    Utf8.Shows text (writes.take k).flatten (captured (writes.take k)).contents := by
  rw [contents_captured]
  refine Utf8.shows_decodeLossy ⟨(writes.drop k).flatten, ?_⟩
  rw [← List.flatten_append, List.take_append_drop, h]

/-- A text that is written to a device is read behind what was there, even if that ends within a
character. -/
theorem contents_append_encode (d : Device) (text : String) :
    contents { d with written := d.written ++ Utf8.encode text } = d.contents ++ text := by
  rw [contents, Array.toList_appendList, Utf8.decodeLossy_append_encode]
  rfl

end LS8.Device
