import LS8.Proofs.Toml.Lines

/-!
# Documents of sections

A `Toml.Sheet` is a document of plain values: some at the top, and behind them sections with a
header each.

- `Sheet.IsDocument`: no key and no section is there twice, and no key needs quotation marks;
- `Sheet.parse_eq`: a text with the lines of a sheet denotes its table, with everything in the
  order of the text. An integer that cannot be read is an error wherever it stands.
-/

namespace LS8.Toml

/-- Keys with the values that are written for them. -/
abbrev Entries := List (Key × Literal)

/-- A document of sections. -/
structure Sheet where
  /-- What stands before the first header. -/
  top : Entries
  sections : List (Key × Entries)

/-- The lines for entries. -/
def linesOf (entries : Entries) : List Line :=
  entries.map fun entry => .assignment entry.1 entry.2

/-- What entries are read as. -/
def itemsOf (entries : Entries) : List (Key × Item) :=
  entries.map fun entry => (entry.1, entry.2.item)

/-- The table of a section. -/
def tableOf (entries : Entries) : Table := .mk .declared (itemsOf entries)

namespace Sheet

/-- The lines of a document. -/
def lines (sheet : Sheet) : List Line :=
  linesOf sheet.top ++ sheet.sections.flatMap fun sec => .header sec.1 :: linesOf sec.2

/-- What stands at the top of a document. -/
def items (sheet : Sheet) : List (Key × Item) :=
  itemsOf sheet.top ++ sheet.sections.map fun sec => (sec.1, .table (tableOf sec.2))

/-- The table of a document. -/
def table (sheet : Sheet) : Table := .mk .declared sheet.items

/-- Nothing is there twice, and no key needs quotation marks. -/
structure IsDocument (sheet : Sheet) : Prop where
  nodup : (sheet.top.map Prod.fst ++ sheet.sections.map Prod.fst).Nodup
  bare : ∀ entry ∈ sheet.top, IsBareKey entry.1
  sections : ∀ sec ∈ sheet.sections, IsBareKey sec.1 ∧ (sec.2.map Prod.fst).Nodup ∧
    ∀ entry ∈ sec.2, IsBareKey entry.1

end Sheet

/-- What holds of all lines holds of all entries and headers. -/
theorem Sheet.forall_lines_iff {sheet : Sheet} {P : Line → Prop} :
    (∀ line ∈ sheet.lines, P line) ↔ (∀ entry ∈ sheet.top, P (.assignment entry.1 entry.2)) ∧
      ∀ sec ∈ sheet.sections, P (.header sec.1) ∧
        ∀ entry ∈ sec.2, P (.assignment entry.1 entry.2) := by
  simp only [Sheet.lines, linesOf, List.forall_mem_append, List.forall_mem_map,
    List.forall_mem_flatMap, List.forall_mem_cons]

variable {front : List (Key × Item)} {key name : Key} {item : Item} {entries : Entries}
  {origin : Origin} {here : List Key} {rest : List Expression} {sheet : Sheet}

/-! ## Adding at the end of a table -/

theorem get?_mk_of_notMem (origin : Origin) (h : key ∉ front.map Prod.fst) :
    (Table.mk origin front).get? key = none := by
  refine List.lookup_eq_none_iff.2 fun entry hentry => ?_
  refine bne_iff_ne.2 ?_
  rintro rfl
  exact h (List.mem_map_of_mem hentry)

theorem put_of_notMem (h : key ∉ front.map Prod.fst) (item : Item) :
    (Table.mk origin front).put key item = .mk origin (front ++ [(key, item)]) := by
  rw [Table.put, get?_mk_of_notMem _ h]
  rfl

/-- A key that is not there yet is assigned at the end. -/
theorem assign_of_notMem (h : key ∉ front.map Prod.fst) (item : Item) :
    (Table.mk origin front).assign false item [key] =
      some (.mk origin (front ++ [(key, item)])) := by
  rw [Table.assign, get?_mk_of_notMem _ h, put_of_notMem h]
  simp

theorem declare_of_notMem (h : name ∉ front.map Prod.fst) :
    (Table.mk origin front).declare name =
      some (.mk origin (front ++ [(name, .table (.empty .declared))])) := by
  rw [Table.declare, get?_mk_of_notMem _ h, put_of_notMem h]

theorem get?_concat (h : name ∉ front.map Prod.fst) (item : Item) :
    (Table.mk origin (front ++ [(name, item)])).get? name = some item := by
  have hfront : front.lookup name = none := get?_mk_of_notMem .declared h
  show (front ++ [(name, item)]).lookup name = some item
  rw [List.lookup_append, hfront]
  simp

theorem put_concat (h : name ∉ front.map Prod.fst) (item item' : Item) :
    (Table.mk origin (front ++ [(name, item)])).put name item' =
      .mk origin (front ++ [(name, item')]) := by
  have hfront : front.map (fun entry => if entry.1 == name then (name, item') else entry) =
      front := by
    refine (List.map_congr_left fun entry hentry => ?_).trans (List.map_id _)
    refine if_neg ?_
    rw [beq_iff_eq]
    rintro rfl
    exact h (List.mem_map_of_mem hentry)
  rw [Table.put, get?_concat h]
  show Table.mk origin ((front ++ [(name, item)]).map _) = _
  rw [List.map_append, hfront]
  simp

/-- What is changed below the last header is the last table. -/
theorem within_concat (h : name ∉ front.map Prod.fst) (change : Table → Option Table)
    (sub : Table) : (Table.mk origin (front ++ [(name, .table sub)])).within change [name] =
      (change sub).map fun sub => .mk origin (front ++ [(name, .table sub)]) := by
  rw [Table.within, get?_concat h]
  simp only [Table.within, put_concat h]
  cases change sub <;> rfl

/-! ## Building the table -/

theorem keys_itemsOf (entries : Entries) :
    (itemsOf entries).map Prod.fst = entries.map Prod.fst := by
  rw [itemsOf, List.map_map]
  rfl

/-- **Entries go to where the last header says**, one behind the other. In `place` is what there
is around the table at `here`. -/
theorem build_entries {place : Table → Table}
    (hplace : ∀ change sub, (place sub).within change here = (change sub).map place)
    (done : Entries) (hnodup : ((done ++ entries).map Prod.fst).Nodup) :
    build here (place (tableOf done)) ((linesOf entries).map Line.expression ++ rest) =
      build here (place (tableOf (done ++ entries))) rest := by
  induction entries generalizing done with
  | nil => rw [List.append_nil]; rfl
  | cons entry entries ih =>
    obtain ⟨key, value⟩ := entry
    have hkey : key ∉ (itemsOf done).map Prod.fst := by
      rw [keys_itemsOf]
      rw [List.map_append, List.nodup_append] at hnodup
      exact fun hmem => hnodup.2.2 key hmem key List.mem_cons_self rfl
    have hassign : (tableOf done).assign false value.item [key] =
        some (tableOf (done ++ [(key, value)])) := by
      rw [tableOf, assign_of_notMem hkey]
      simp [tableOf, itemsOf]
    have hstep : build here (place (tableOf done))
        (.assignment [key] value.item :: ((linesOf entries).map Line.expression ++ rest)) =
          build here (place (tableOf (done ++ [(key, value)])))
            ((linesOf entries).map Line.expression ++ rest) := by
      rw [build]
      simp only [hplace, hassign, Option.map_some]
    rw [List.append_cons] at hnodup ⊢
    exact hstep.trans (ih _ hnodup)

/-- **Sections go behind what there is**, one behind the other. -/
theorem build_sections {sections : List (Key × Entries)}
    (hnodup : ((front ++ sections.map fun sec => (sec.1, Item.table (tableOf sec.2))).map
      Prod.fst).Nodup)
    (hsections : ∀ sec ∈ sections, (sec.2.map Prod.fst).Nodup) :
    build here (.mk .declared front)
        ((sections.flatMap fun sec => Line.header sec.1 :: linesOf sec.2).map Line.expression) =
      .ok (.mk .declared (front ++ sections.map fun sec => (sec.1, .table (tableOf sec.2)))) := by
  induction sections generalizing front here with
  | nil => rw [List.map_nil, List.append_nil]; rfl
  | cons sec sections ih =>
    obtain ⟨name, entries⟩ := sec
    obtain ⟨hentries, hrest⟩ := List.forall_mem_cons.1 hsections
    have hname : name ∉ front.map Prod.fst := by
      rw [List.map_append, List.nodup_append] at hnodup
      exact fun hmem => hnodup.2.2 name hmem name List.mem_cons_self rfl
    have hheader : ∀ more, build here (.mk .declared front) (.header [name] :: more) =
        build [name] (.mk .declared (front ++ [(name, .table (tableOf []))])) more := by
      intro more
      rw [build]
      simp only [List.dropLast_singleton, Table.within, List.getLastD_cons, List.getLastD_nil,
        declare_of_notMem hname]
      rfl
    rw [List.flatMap_cons, List.map_append, List.map_cons, List.cons_append]
    calc build here (.mk .declared front) (.header [name] :: _)
      _ = build [name] (.mk .declared (front ++ [(name, .table (tableOf []))])) _ := hheader _
      _ = build [name] (.mk .declared (front ++ [(name, .table (tableOf entries))])) _ :=
        build_entries (within_concat hname) [] hentries
      _ = _ := ?_
    have hbehind := @ih (front ++ [(name, .table (tableOf entries))]) [name]
      (by rw [List.append_assoc]; exact hnodup) hrest
    rw [List.append_assoc] at hbehind
    exact hbehind

/-- **The lines of a document build its table.** -/
theorem Sheet.IsDocument.build (h : sheet.IsDocument) :
    build [] (.empty .declared) (sheet.lines.map Line.expression) = .ok sheet.table := by
  have hkeys : (sheet.items.map Prod.fst).Nodup := by
    rw [Sheet.items, List.map_append, keys_itemsOf, List.map_map]
    exact h.nodup
  have hplace : ∀ (change : Table → Option Table) sub,
      Table.within change [] sub = (change sub).map id := by
    intro change sub
    rw [Table.within, Option.map_id]
    rfl
  rw [Sheet.lines, List.map_append]
  exact (build_entries hplace [] (List.nodup_append.1 h.nodup).1).trans
    (build_sections hkeys fun sec hsec => (h.sections sec hsec).2.1)

theorem Sheet.IsDocument.bare_lines (h : sheet.IsDocument) : ∀ line ∈ sheet.lines, line.Bare :=
  Sheet.forall_lines_iff.2 ⟨h.bare, fun sec hsec => ⟨(h.sections sec hsec).1,
    (h.sections sec hsec).2.2⟩⟩

/-- **A text of a document denotes its table**, if all values can be read. -/
theorem Sheet.IsDocument.parse_eq {text : String} (h : sheet.IsDocument)
    (htext : Writes sheet.lines text.toList) (hread : ∀ line ∈ sheet.lines, line.Readable) :
    parse text = .ok sheet.table :=
  (parse_of_writes htext h.bare_lines hread).trans h.build

/-! ## Looking up -/

/-- Under keys that are there once, the same is found in any order. -/
theorem lookup_eq_of_perm {β : Type} {l l' : List (Key × β)} (h : l.Perm l')
    (hnodup : (l.map Prod.fst).Nodup) (key : Key) : l.lookup key = l'.lookup key := by
  induction h with
  | nil => rfl
  | cons x h ih =>
    rw [List.map_cons, List.nodup_cons] at hnodup
    rw [List.lookup_cons, List.lookup_cons, ih hnodup.2]
  | swap x y l =>
    obtain ⟨keyX, valueX⟩ := x
    obtain ⟨keyY, valueY⟩ := y
    have hne : keyY ≠ keyX := by
      rintro rfl
      exact (List.nodup_cons.1 hnodup).1 List.mem_cons_self
    rw [List.lookup_cons, List.lookup_cons, List.lookup_cons, List.lookup_cons]
    cases hx : key == keyX <;> cases hy : key == keyY
    case true.true => exact absurd ((eq_of_beq hy).symm.trans (eq_of_beq hx)) hne
    all_goals rfl
  | trans h h' ih ih' => exact (ih hnodup).trans (ih' ((h.map Prod.fst).nodup_iff.1 hnodup))

theorem rel_lookup {β : Type} {R : β → β → Prop} {l l' : List (Key × β)}
    (h : List.Forall₂ (fun x x' => x.1 = x'.1 ∧ R x.2 x'.2) l l') (key : Key) :
    Option.Rel R (l.lookup key) (l'.lookup key) := by
  induction h with
  | nil => exact .none
  | @cons x x' l l' hx _ ih =>
    obtain ⟨hkey, hR⟩ := hx
    rw [List.lookup_cons, List.lookup_cons, hkey]
    split
    · exact .some hR
    · exact ih

theorem get?_tableOf (entries : Entries) (key : Key) :
    (tableOf entries).get? key = (entries.lookup key).map Literal.item := by
  show (itemsOf entries).lookup key = _
  induction entries with
  | nil => rfl
  | cons entry entries ih =>
    rw [itemsOf, List.map_cons, List.lookup_cons, List.lookup_cons, ← itemsOf, ih]
    split <;> rfl

theorem get?_table (htop : sheet.top = []) (name : Key) : sheet.table.get? name =
    (sheet.sections.lookup name).map fun entries => .table (tableOf entries) := by
  have hitems : sheet.items =
      sheet.sections.map fun sec => (sec.1, Item.table (tableOf sec.2)) := by
    rw [Sheet.items, htop]
    rfl
  show sheet.items.lookup name = _
  rw [hitems]
  induction sheet.sections with
  | nil => rfl
  | cons sec sections ih =>
    rw [List.map_cons, List.lookup_cons, List.lookup_cons, ih]
    split <;> rfl

end LS8.Toml
