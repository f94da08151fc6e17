import LS8.Text.Blank

/-!
# Paths

A path is read by its components but kept as it was written: `Path.text` of a
path made from a text is that text.

- The pieces between slashes are the `segments`. An empty segment and a `.` say
  nothing, except that a path may begin with `.`, and that an empty first
  segment before a slash makes a path absolute. `..` is a component like any
  other;
- `Path.parent?` removes the last component, together with what says nothing at
  the end. The path of one relative component has the empty path above it;
- `Path.ancestors` is the chain from a path upwards. It ends, because every step
  upwards reduces the `depth`.
-/

namespace LS8

/-- A path, as its segments between slashes. -/
structure Path where
  segments : List String
deriving DecidableEq, Repr, Inhabited

namespace Path

/-- The path that a text denotes. -/
def ofString (text : String) : Path :=
  ⟨(Text.splitAt '/' text.toList).map String.ofList⟩

/-- The path as it was written. -/
def text (p : Path) : String :=
  String.intercalate "/" p.segments

@[simp] theorem text_ofString (text : String) : (ofString text).text = text := by
  have join : ∀ pieces : List (List Char), String.intercalate "/" (pieces.map String.ofList)
      = String.ofList (List.intercalate ['/'] pieces) := by
    intro pieces
    induction pieces with
    | nil => simp
    | cons piece rest ih =>
      cases rest with
      | nil => simp
      | cons next more =>
        simp only [List.map_cons, String.intercalate_cons_cons, List.intercalate_cons_cons,
          String.ofList_append] at ih ⊢
        rw [ih]
  rw [Path.text, ofString, join, Text.intercalate_splitAt, String.ofList_toList]

/-- Whether the path starts at the root. -/
def isAbsolute (p : Path) : Bool :=
  match p.segments with
  | "" :: _ :: _ => true
  | _ => false

/-! ## Upwards -/

/-- A segment that says nothing when it is not the first one. -/
def isVoid (segment : String) : Bool :=
  segment == "" || segment == "."

/-- Segments without those at the end that say nothing. -/
def trimEnd : List String → List String
  | [] => []
  | segment :: rest =>
    match trimEnd rest with
    | [] => if isVoid segment then [] else [segment]
    | more => segment :: more

/-- The path with the given first segment and what is left of the others; an empty
first segment alone is the root. -/
def below (first : String) (rest : List String) : Path :=
  if first = "" ∧ rest = [] then ⟨["", ""]⟩ else ⟨first :: rest⟩

/-- The path without its last component; nothing lies above the root or the empty
path. -/
def parent? (p : Path) : Option Path :=
  match p.segments with
  | [] => none
  | first :: rest =>
    if trimEnd rest = [] then
      -- only the first segment can say something
      if first = "" then none else some ⟨[""]⟩
    else
      some (below first (trimEnd (trimEnd rest).dropLast))

/-- The number of segments that say something. -/
def weight (segments : List String) : Nat :=
  segments.countP (!isVoid ·)

/-- The number of components: how far below the top a path lies. -/
def depth (p : Path) : Nat :=
  match p.segments with
  | [] => 0
  | first :: rest => weight rest + if first = "" then 0 else 1

theorem weight_trimEnd (segments : List String) : weight (trimEnd segments) = weight segments := by
  induction segments with
  | nil => rfl
  | cons segment rest ih =>
    cases h : trimEnd rest with
    | nil =>
      rw [h] at ih
      by_cases hv : isVoid segment <;> simp_all [trimEnd, weight]
    | cons next more =>
      rw [h] at ih
      simp only [trimEnd, h, weight, List.countP_cons] at ih ⊢
      omega

/-- The last of the segments that are left says something. -/
theorem weight_dropLast_trimEnd {segments : List String} (h : trimEnd segments ≠ []) :
    weight (trimEnd segments).dropLast < weight segments := by
  induction segments with
  | nil => exact absurd rfl h
  | cons segment rest ih =>
    cases hr : trimEnd rest with
    | nil =>
      by_cases hv : isVoid segment
      · simp [trimEnd, hr, hv] at h
      · simp [trimEnd, hr, hv, weight]
    | cons next more =>
      have hlt := ih (by simp [hr])
      rw [hr] at hlt
      simp only [trimEnd, hr, weight, List.dropLast_cons_cons, List.countP_cons] at hlt ⊢
      omega

theorem depth_below (first : String) (rest : List String) :
    (below first rest).depth = weight rest + if first = "" then 0 else 1 := by
  unfold below
  split
  · next h =>
    obtain ⟨rfl, rfl⟩ := h
    rfl
  · rfl

/-- Every step upwards comes nearer to the top. -/
theorem depth_lt_of_parent? {p q : Path} (h : p.parent? = some q) : q.depth < p.depth := by
  obtain ⟨segments⟩ := p
  cases segments with
  | nil => cases h
  | cons first rest =>
    by_cases hr : trimEnd rest = []
    · by_cases hf : first = ""
      · simp [parent?, hr, hf] at h
      · obtain rfl : ⟨[""]⟩ = q := by simpa [parent?, hr, hf] using h
        simp [depth, hf, weight]
    · obtain rfl : below first (trimEnd (trimEnd rest).dropLast) = q := by
        simpa [parent?, hr] using h
      have hlt := weight_dropLast_trimEnd hr
      rw [depth_below, weight_trimEnd]
      simp only [depth]
      omega

/-- The path, its parent, the parent of that, and so on to the top. -/
def ancestors (p : Path) : List Path :=
  match _h : p.parent? with
  | none => [p]
  | some q => p :: q.ancestors
  termination_by p.depth
  decreasing_by exact depth_lt_of_parent? ‹_›

theorem ancestors_of_parent?_eq_none {p : Path} (h : p.parent? = none) : p.ancestors = [p] := by
  unfold ancestors
  split
  · rfl
  · next hq => rw [h] at hq; cases hq

theorem ancestors_of_parent?_eq_some {p q : Path} (h : p.parent? = some q) :
    p.ancestors = p :: q.ancestors := by
  conv => lhs; unfold ancestors
  split
  · next hq => rw [h] at hq; cases hq
  · next hq => rw [h] at hq; cases hq; rfl

/-- The path of a file of this name in the directory `p`. -/
def join (p : Path) (name : String) : Path :=
  match p.segments.reverse with
  | [] => ⟨[name]⟩
  | "" :: above => ⟨(name :: above).reverse⟩
  | _ => ⟨p.segments ++ [name]⟩

end Path

end LS8
