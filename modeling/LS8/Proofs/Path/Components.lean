import LS8.Path

/-!
# Paths by their components

Paths that are written differently can name the same: what counts are the `Path.components`,
which empty segments and most `.` are not among.

- `Path.components_of_parent?`: the parent lacks the last component;
- `Path.components_parent?_join`: the parent of a file in a directory is that directory,
  component by component;
- `Path.up` counts the levels upwards. There are no more of them than the path is deep
  (`Path.up_depth_succ`), the last one is the empty path or the root (`Path.exists_top`), and
  together they are the `Path.ancestors` (`Path.getElem?_ancestors`).
-/

namespace LS8.Path

variable {p q : Path} {segment first name : String} {segments rest : List String} {n : Nat}

/-! ## Components -/

/-- A component of a path. -/
inductive Component where
  | root
  /-- The `.` that a path begins with. -/
  | here
  | above
  | name (name : String)
deriving DecidableEq, Repr

/-- What a segment says that is not void, or that is the first one. -/
def component (segment : String) : Component :=
  if segment = "." then .here
  else if segment = ".." then .above
  else .name segment

/-- What the first segment says. If it is empty, the path is absolute, or it is the empty path. -/
def firstComponents (first : String) (rest : List String) : List Component :=
  if first = "" then (if rest = [] then [] else [.root]) else [component first]

/-- The components of a path. -/
def components (p : Path) : List Component :=
  match p.segments with
  | [] => []
  | first :: rest => firstComponents first rest ++ (rest.filter (!isVoid ·)).map component

/-- Repeated slashes and a `.` say nothing, but for a `.` in front. -/
example : (ofString "/a//b/./../").components = [.root, .name "a", .name "b", .above] ∧
    (ofString "a/.").components = (ofString "a").components ∧
    (ofString "./a").components ≠ (ofString "a").components := by
  decide

/-! ## A file and its directory -/

/-- Trimming removes nothing that says something. -/
theorem filter_trimEnd (segments : List String) :
    (trimEnd segments).filter (!isVoid ·) = segments.filter (!isVoid ·) := by
  induction segments with
  | nil => rfl
  | cons segment rest ih =>
    cases h : trimEnd rest with
    | nil =>
      rw [h, List.filter_nil] at ih
      by_cases hv : isVoid segment <;> simp [trimEnd, h, hv, ← ih]
    | cons next more =>
      have hcons : trimEnd (segment :: rest) = segment :: next :: more := by simp only [trimEnd, h]
      rw [h] at ih
      by_cases hv : isVoid segment <;> simp [hcons, hv, ih]

theorem trimEnd_concat (segments : List String) (hname : isVoid name = false) :
    trimEnd (segments ++ [name]) = segments ++ [name] := by
  induction segments with
  | nil => simp [trimEnd, hname]
  | cons segment rest ih =>
    rw [List.cons_append, trimEnd, ih]
    cases rest <;> rfl

theorem components_below (first : String) (rest : List String) :
    (below first rest).components =
      (if first = "" then [.root] else [component first])
        ++ (rest.filter (!isVoid ·)).map component := by
  unfold below
  split
  · next h =>
    obtain ⟨rfl, rfl⟩ := h
    rfl
  · next h =>
    show firstComponents first rest ++ _ = _
    by_cases hfirst : first = ""
    · have hrest : rest ≠ [] := fun hrest => h ⟨hfirst, hrest⟩
      rw [firstComponents, if_pos hfirst, if_neg hrest, if_pos hfirst]
    · rw [firstComponents, if_neg hfirst, if_neg hfirst]

theorem isVoid_empty : isVoid "" = true := rfl

/-- Behind a first segment and others, a name follows the others, but for an empty one at their
end. -/
theorem exists_segments_join (first : String) (hrest : rest ≠ []) (name : String) :
    ∃ others, (join ⟨first :: rest⟩ name).segments = first :: (others ++ [name]) ∧
      others.filter (!isVoid ·) = rest.filter (!isVoid ·) := by
  rcases List.eq_nil_or_concat rest with rfl | ⟨others, last, rfl⟩
  · exact absurd rfl hrest
  · rw [List.concat_eq_append]
    have hreverse : (first :: (others ++ [last])).reverse =
        last :: (others.reverse ++ [first]) := by simp
    by_cases hlast : last = ""
    · subst hlast
      refine ⟨others, ?_, by simp [isVoid_empty]⟩
      simp [join, hreverse]
    · refine ⟨others ++ [last], ?_, rfl⟩
      unfold join
      rw [hreverse]
      split
      · next h => cases h
      · next h =>
        exact absurd (List.cons.inj h).1 hlast
      · rfl

/-- **The parent of a file in a directory is the directory**, component by component. -/
theorem components_parent?_join (p : Path) (hname : isVoid name = false) :
    ∃ q, (p.join name).parent? = some q ∧ q.components = p.components := by
  have hempty : name ≠ "" := by
    rintro rfl
    rw [isVoid_empty] at hname
    cases hname
  obtain ⟨segments⟩ := p
  rcases segments with _ | ⟨first, rest⟩
  · exact ⟨⟨[""]⟩, by simp [join, parent?, trimEnd, hempty], rfl⟩
  · by_cases hrest : rest = []
    · subst hrest
      by_cases hfirst : first = ""
      · subst hfirst
        exact ⟨⟨[""]⟩, by simp [join, parent?, trimEnd, hempty], rfl⟩
      · have hjoin : join ⟨[first]⟩ name = ⟨[first, name]⟩ := by simp [join, hfirst]
        refine ⟨below first [], ?_, ?_⟩
        · simp [hjoin, parent?, trimEnd, hname]
        · rw [components_below, if_neg hfirst]
          simp [components, firstComponents, hfirst]
    · obtain ⟨others, hjoin, hothers⟩ := exists_segments_join first hrest name
      have htrim := trimEnd_concat others hname
      have hne : trimEnd (others ++ [name]) ≠ [] := by
        rw [htrim]
        exact List.append_ne_nil_of_right_ne_nil _ (List.cons_ne_nil _ _)
      refine ⟨below first (trimEnd others), ?_, ?_⟩
      · simp only [parent?, hjoin]
        rw [if_neg hne, htrim, List.dropLast_concat]
      · rw [components_below, filter_trimEnd, hothers]
        simp only [components, firstComponents, if_neg hrest]

/-! ## The parent -/

/-- What trimming leaves ends with a segment that says something. -/
theorem exists_last_trimEnd (h : trimEnd segments ≠ []) :
    ∃ others last, trimEnd segments = others ++ [last] ∧ isVoid last = false := by
  induction segments with
  | nil => exact absurd rfl h
  | cons segment rest ih =>
    cases hrest : trimEnd rest with
    | nil =>
      cases hvoid : isVoid segment with
      | true => exact absurd (by simp [trimEnd, hrest, hvoid]) h
      | false => exact ⟨[], segment, by simp [trimEnd, hrest, hvoid], hvoid⟩
    | cons next more =>
      obtain ⟨others, last, hsplit, hlast⟩ := ih (by rw [hrest]; exact List.cons_ne_nil _ _)
      refine ⟨segment :: others, last, ?_, hlast⟩
      rw [trimEnd, hsplit]
      cases others <;> rfl

/-- **The parent lacks the last component.** -/
theorem components_of_parent? (h : p.parent? = some q) :
    q.components = p.components.dropLast := by
  obtain ⟨segments⟩ := p
  rcases segments with _ | ⟨first, rest⟩
  · cases h
  · by_cases htrim : trimEnd rest = []
    · have hfilter : rest.filter (!isVoid ·) = [] := by rw [← filter_trimEnd, htrim]; rfl
      by_cases hfirst : first = ""
      · simp [parent?, htrim, hfirst] at h
      · obtain rfl : ⟨[""]⟩ = q := by simpa [parent?, htrim, hfirst] using h
        simp [components, firstComponents, hfirst, hfilter]
    · obtain ⟨others, last, hsplit, hlast⟩ := exists_last_trimEnd htrim
      have hrest : rest ≠ [] := by
        rintro rfl
        exact htrim rfl
      have hfilter : rest.filter (!isVoid ·) = others.filter (!isVoid ·) ++ [last] := by
        rw [← filter_trimEnd, hsplit, List.filter_append]
        simp [hlast]
      obtain rfl : below first (trimEnd others) = q := by
        simpa [parent?, htrim, hsplit] using h
      rw [components_below, filter_trimEnd]
      simp only [components, firstComponents, if_neg hrest, hfilter, List.map_append,
        List.map_singleton]
      rw [← List.append_assoc, List.dropLast_concat]

/-- **Only the empty path and the root have no parent.** -/
theorem components_of_parent?_eq_none (h : p.parent? = none) :
    p.components = [] ∨ p.components = [.root] := by
  obtain ⟨segments⟩ := p
  rcases segments with _ | ⟨first, rest⟩
  · exact .inl rfl
  · have htrim : trimEnd rest = [] := by
      refine Decidable.by_contra fun hne => ?_
      simp [parent?, hne] at h
    have hfirst : first = "" := by
      refine Decidable.by_contra fun hne => ?_
      simp [parent?, htrim, hne] at h
    have hfilter : rest.filter (!isVoid ·) = [] := by rw [← filter_trimEnd, htrim]; rfl
    by_cases hrest : rest = [] <;> simp [components, firstComponents, hfirst, hfilter, hrest]

/-! ## Levels upwards -/

/-- The path `n` levels up, if there is one. -/
def up (p : Path) : Nat → Option Path
  | 0 => some p
  | n + 1 => (p.up n).bind parent?

theorem up_succ (p : Path) (n : Nat) : p.up (n + 1) = p.parent?.bind (up · n) := by
  induction n with
  | zero =>
    show p.parent? = p.parent?.bind some
    cases p.parent? <;> rfl
  | succ n ih =>
    rw [up, ih]
    cases p.parent? <;> rfl

/-- Each level is nearer to the top. -/
theorem depth_add_le_of_up (h : p.up n = some q) : q.depth + n ≤ p.depth := by
  induction n generalizing q with
  | zero =>
    obtain rfl := Option.some.inj h
    exact Nat.le_refl _
  | succ n ih =>
    obtain ⟨r, hr, hq⟩ := Option.bind_eq_some_iff.1 h
    have hlt := depth_lt_of_parent? hq
    have hle := ih hr
    omega

/-- **The way upwards ends.** -/
theorem up_depth_succ (p : Path) : p.up (p.depth + 1) = none := by
  cases h : p.up (p.depth + 1) with
  | none => rfl
  | some q =>
    have hle := depth_add_le_of_up h
    omega

/-- Going up takes components away at the end. -/
theorem components_up (h : p.up n = some q) :
    q.components = p.components.take (p.components.length - n) := by
  induction n generalizing q with
  | zero =>
    obtain rfl := Option.some.inj h
    exact (List.take_length).symm
  | succ n ih =>
    obtain ⟨r, hr, hq⟩ := Option.bind_eq_some_iff.1 h
    rw [components_of_parent? hq, ih hr, List.dropLast_eq_take, List.take_take, List.length_take]
    congr 1
    omega

/-- **At its end are the empty path or the root.** -/
theorem exists_top (p : Path) : ∃ n top, p.up n = some top ∧ p.up (n + 1) = none ∧
    (top.components = [] ∨ top.components = [.root]) := by
  have hend := p.up_depth_succ
  -- the last level that there is
  generalize p.depth + 1 = n at hend
  induction n with
  | zero => cases hend
  | succ n ih =>
    cases htop : p.up n with
    | none => exact ih htop
    | some top =>
      refine ⟨n, top, htop, hend, components_of_parent?_eq_none ?_⟩
      rw [up, htop] at hend
      exact hend

theorem getElem?_ancestors (p : Path) (n : Nat) : p.ancestors[n]? = p.up n := by
  induction n generalizing p with
  | zero =>
    cases h : p.parent? with
    | none =>
      rw [ancestors_of_parent?_eq_none h]
      rfl
    | some q =>
      rw [ancestors_of_parent?_eq_some h]
      rfl
  | succ n ih =>
    rw [up_succ]
    cases h : p.parent? with
    | none =>
      rw [ancestors_of_parent?_eq_none h]
      rfl
    | some q =>
      rw [ancestors_of_parent?_eq_some h, List.getElem?_cons_succ, ih]
      rfl

end LS8.Path
