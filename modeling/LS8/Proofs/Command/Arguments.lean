import LS8.Command.Arguments
import LS8.Proofs.Text.Numeral
import Mathlib.Data.List.TakeDrop

/-!
# What the words of a command line amount to

A line that makes sense leads to a request that is `Arguments.Sensible`:

- to an execution whose limit, if there is one, is positive (`Arguments.one_le_of_parse`);
- or to the version or the help, and then one of the words asks for it
  (`Arguments.exists_inquires_of_parse`).

The proof follows the words from left to right. All it has to know of a switch is that it leaves
the limit alone or asks about the command (`Arguments.Progress.Follows`).

In the other direction, `Arguments.toLine` is a line for any arguments, and
`Arguments.parse_toLine` says that it leads back to them.
-/

namespace LS8.Command

namespace Arguments

variable {p p' : Pending} {word option text : String} {switch : Switch} {progress : Progress}
  {request : Request} {line : List String} {letter : Char} {letters name : List Char} {N : Nat}

/-- A word that asks about the command instead of running it: `--help`, `--version`, or
letters behind a single hyphen with one of theirs among them. -/
def Inquires (word : String) : Prop :=
  word = "--help" ∨ word = "--version" ∨
    ∃ letters, word.toList = '-' :: letters ∧ letters.head? ≠ some '-' ∧
      ('h' ∈ letters ∨ 'V' ∈ letters)

/-! ## The shapes of words -/

/-- A long option without a value is its name behind two hyphens. -/
theorem eq_of_ofWord_eq_long (h : Shape.ofWord letters = .long name none) :
    letters = '-' :: '-' :: name := by
  unfold Shape.ofWord at h
  split at h
  · cases h
  · next rest _ =>
    rw [List.span_eq_takeWhile_dropWhile] at h
    split at h
    · cases h
    · next hnone hspan =>
      obtain ⟨rfl, rfl⟩ := Prod.mk.inj hspan
      cases h
      -- nothing stands behind the name, since only an equals sign could
      have hend : rest.dropWhile (· != '=') = [] := by
        have hhead := List.head?_dropWhile_not (· != '=') rest
        cases htail : rest.dropWhile (· != '=') with
        | nil => rfl
        | cons c tail =>
          rw [htail] at hhead
          have hc : c = '=' := by simpa using hhead
          exact absurd (hc ▸ htail) (hnone tail)
      have hall := List.takeWhile_append_dropWhile (p := (· != '=')) (l := rest)
      rw [hend, List.append_nil] at hall
      rw [hall]
  · cases h
  · cases h

theorem eq_of_ofWord_eq_short {word : List Char} (h : Shape.ofWord word = .short letters) :
    word = '-' :: letters ∧ letters.head? ≠ some '-' := by
  unfold Shape.ofWord at h
  split at h
  · cases h
  · split at h <;> cases h
  · next hhyphen =>
    cases h
    refine ⟨rfl, fun hhead => hhyphen ?_⟩
    exact Option.some.inj hhead
  · cases h

/-! ## Switches -/

/-- The switches that ask about the command. -/
def Switch.inquires : Switch → Bool
  | version | help => true
  | trace | stats | disasm | json => false

/-- What is found in a table stands there. -/
theorem mem_of_lookup {α β : Type} [BEq α] [LawfulBEq α] {key : α} {value : β}
    {table : List (α × β)} (h : table.lookup key = some value) : (key, value) ∈ table := by
  obtain ⟨before, behind, rfl, -⟩ := List.lookup_eq_some_iff.1 h
  exact List.mem_append_right _ List.mem_cons_self

theorem eq_of_ofName?_inquires (h : Switch.ofName? word = some switch)
    (hswitch : switch.inquires = true) : word = "help" ∨ word = "version" := by
  have hmem := mem_of_lookup h
  simp only [List.mem_cons, Prod.mk.injEq, List.not_mem_nil, or_false] at hmem
  rcases hmem with ⟨rfl, rfl⟩ | ⟨rfl, rfl⟩ | ⟨rfl, rfl⟩ | ⟨rfl, rfl⟩ | ⟨rfl, rfl⟩ | ⟨rfl, rfl⟩
  case inr.inr.inr.inr.inl => exact .inr rfl
  case inr.inr.inr.inr.inr => exact .inl rfl
  all_goals cases hswitch

theorem eq_of_ofLetter?_inquires (h : Switch.ofLetter? letter = some switch)
    (hswitch : switch.inquires = true) : letter = 'h' ∨ letter = 'V' := by
  have hmem := mem_of_lookup h
  simp only [List.mem_cons, Prod.mk.injEq, List.not_mem_nil, or_false] at hmem
  rcases hmem with ⟨rfl, rfl⟩ | ⟨rfl, rfl⟩ | ⟨rfl, rfl⟩ | ⟨rfl, rfl⟩ | ⟨rfl, rfl⟩
  case inr.inr.inr.inl => exact .inr rfl
  case inr.inr.inr.inr => exact .inl rfl
  all_goals cases hswitch

/-- Where switches lead behind the words `p`: to more words with the same limit, or, if they
ask about the command, to that request. -/
def Progress.Follows (p : Pending) (asks : Prop) : Progress → Prop
  | reading p' => p'.maxSteps = p.maxSteps
  | decided request => asks ∧ (request = .version ∨ request = .help)

theorem follows_of_flip (h : p.flip option switch = .ok progress) :
    progress.Follows p (switch.inquires = true) := by
  cases switch with
  | version =>
    obtain rfl := Except.ok.inj h
    exact ⟨rfl, .inl rfl⟩
  | help =>
    obtain rfl := Except.ok.inj h
    exact ⟨rfl, .inr rfl⟩
  | trace | stats | disasm | json =>
    simp only [Pending.flip] at h
    split at h
    · cases h
    · obtain rfl := Except.ok.inj h
      rfl

theorem follows_of_flipAll (h : p.flipAll letters = .ok progress) :
    progress.Follows p ('h' ∈ letters ∨ 'V' ∈ letters) := by
  induction letters generalizing p with
  | nil =>
    obtain rfl := Except.ok.inj h
    rfl
  | cons letter rest ih =>
    unfold Pending.flipAll at h
    split at h
    · cases h
    · next switch hletter =>
      cases hflip : p.flip (String.ofList ['-', letter]) switch with
      | error error =>
        simp only [hflip] at h
        cases h
      | ok first =>
        have hfirst := follows_of_flip hflip
        simp only [hflip] at h
        cases first with
        | reading p' =>
          have hp' : p'.maxSteps = p.maxSteps := hfirst
          have hrest := ih h
          cases progress with
          | reading p'' => exact Eq.trans hrest hp'
          | decided request =>
            exact hrest.imp_left (.imp (List.mem_cons_of_mem _) (List.mem_cons_of_mem _))
        | decided request =>
          obtain rfl := Except.ok.inj h
          refine hfirst.imp_left fun hinquires => ?_
          rcases eq_of_ofLetter?_inquires hletter hinquires with rfl | rfl
          · exact .inl List.mem_cons_self
          · exact .inr List.mem_cons_self

/-! ## Values -/

theorem one_le_of_limit (h : p.limit text = .ok p') : ∀ N ∈ p'.maxSteps, 1 ≤ N := by
  unfold Pending.limit at h
  split at h
  · cases h
  · split at h
    · next limit hlimit =>
      obtain rfl := Except.ok.inj h
      rintro N ⟨⟩
      exact of_decide_eq_true (Option.filter_eq_some_iff.1 hlimit).2
    · cases h

theorem maxSteps_of_word (h : p.word word = .ok p') : p'.maxSteps = p.maxSteps := by
  unfold Pending.word at h
  split at h
  · cases h
  · split at h
    · cases h
    · obtain rfl := Except.ok.inj h
      rfl

/-! ## Whole lines -/

/-- A request that makes sense of the words: an execution with a positive limit, if any, or a
question that one of the words asks. -/
def Sensible (line : List String) (request : Request) : Prop :=
  (∃ a, request = .execute a ∧ ∀ N ∈ a.maxSteps, 1 ≤ N) ∨
    ((request = .version ∨ request = .help) ∧ ∃ word ∈ line, Inquires word)

theorem sensible_of_finish (hp : ∀ N ∈ p.maxSteps, 1 ≤ N) (h : p.finish = .ok request) :
    Sensible line request := by
  unfold Pending.finish at h
  split at h
  · cases h
  · obtain rfl := Except.ok.inj h
    exact .inl ⟨_, rfl, hp⟩

/-- Words that make sense to the end made sense up to here. -/
theorem exists_of_bind_ok {α : Type} {result : Except UsageError α}
    {next : α → Except UsageError Request} (h : (result >>= next) = .ok request) :
    ∃ taken, result = .ok taken ∧ next taken = .ok request := by
  cases result with
  | error error => cases h
  | ok taken => exact ⟨taken, rfl, h⟩

theorem Sensible.cons (h : Sensible line request) : Sensible (word :: line) request := by
  refine h.imp_right fun ⟨hrequest, asked, hmem, hasks⟩ => ?_
  exact ⟨hrequest, asked, List.mem_cons_of_mem word hmem, hasks⟩

theorem sensible_of_plainWords (hp : ∀ N ∈ p.maxSteps, 1 ≤ N)
    (h : plainWords p line = .ok request) : Sensible line request := by
  induction line generalizing p with
  | nil => exact sensible_of_finish hp h
  | cons word rest ih =>
    obtain ⟨p', hp', h⟩ := exists_of_bind_ok h
    refine (ih ?_ h).cons
    rwa [maxSteps_of_word hp']

/-- **Every line that makes sense** leads to a sensible request, by induction on its words. -/
theorem sensible_of_words (hp : ∀ N ∈ p.maxSteps, 1 ≤ N) (h : words p line = .ok request) :
    Sensible line request := by
  fun_induction words p line with
  | case1 p => exact sensible_of_finish hp h
  | case2 p word rest => exact (sensible_of_plainWords hp h).cons
  | case3 p word rest _ ih =>
    obtain ⟨p', hp', h⟩ := exists_of_bind_ok h
    refine (ih p' ?_ h).cons
    rwa [maxSteps_of_word hp']
  | case4 p word rest letters _ p' hflip ih =>
    have hp' : p'.maxSteps = p.maxSteps := follows_of_flipAll hflip
    refine (ih ?_ h).cons
    rwa [hp']
  | case5 p word rest letters hword asked hflip =>
    obtain ⟨hletter, hrequest⟩ := follows_of_flipAll hflip
    obtain ⟨hchars, hhyphen⟩ := eq_of_ofWord_eq_short hword
    obtain rfl := Except.ok.inj h
    exact .inr ⟨hrequest, word, List.mem_cons_self, .inr (.inr ⟨letters, hchars, hhyphen, hletter⟩)⟩
  | case7 p word chars name _ text rest _ ih =>
    obtain ⟨p', hp', h⟩ := exists_of_bind_ok h
    exact (ih p' (one_le_of_limit hp') h).cons
  | case9 p word chars name _ next rest _ _ ih =>
    obtain ⟨p', hp', h⟩ := exists_of_bind_ok h
    exact (ih p' (one_le_of_limit hp') h).cons.cons
  | case13 p word rest chars name option _ switch _ p' hflip _ ih =>
    have hp' : p'.maxSteps = p.maxSteps := follows_of_flip hflip
    refine (ih ?_ h).cons
    rwa [hp']
  | case14 p word rest chars name option _ switch hswitch asked hflip hword =>
    obtain ⟨hinquires, hrequest⟩ := follows_of_flip hflip
    have hlong : word = option := by
      apply String.toList_injective
      simp [option, name, eq_of_ofWord_eq_long hword]
    obtain rfl := Except.ok.inj h
    refine .inr ⟨hrequest, word, List.mem_cons_self, ?_⟩
    rcases eq_of_ofName?_inquires hswitch hinquires with hname | hname
    · exact .inl (hlong.trans (congrArg ("--" ++ ·) hname))
    · exact .inr (.inl (hlong.trans (congrArg ("--" ++ ·) hname)))
  | case6 | case8 | case10 | case11 | case12 | case15 => cases h

theorem sensible_of_parse (h : parse line = .ok request) : Sensible line request := by
  have hnew : ∀ N ∈ ({} : Pending).maxSteps, 1 ≤ N := by
    rintro N ⟨⟩
  exact sensible_of_words hnew h

/-- A limit that is given as an argument is positive. -/
theorem one_le_of_parse {a : Arguments} (h : parse line = .ok (.execute a)) :
    ∀ N ∈ a.maxSteps, 1 ≤ N := by
  rcases sensible_of_parse h with ⟨a', ha', hlimit⟩ | ⟨hrequest, -⟩
  · cases ha'
    exact hlimit
  · rcases hrequest with hrequest | hrequest <;> cases hrequest

/-- A line that asks about the command has a word that does. -/
theorem exists_inquires_of_parse (h : parse line = .ok .version ∨ parse line = .ok .help) :
    ∃ word ∈ line, Inquires word := by
  rcases h with h | h <;>
    · rcases sensible_of_parse h with ⟨a, ha, -⟩ | ⟨-, hasks⟩
      · cases ha
      · exact hasks

/-! ## A line for all arguments -/

/-- The word of a switch, if it is asked for. -/
def flagWords (asked : Bool) (name : String) : List String :=
  if asked then ["--" ++ name] else []

/-- The words of a limit, if there is one. -/
def limitWords : Option Nat → List String
  | some N => ["--max-steps", Numeral.decimal N]
  | none => []

/-- A command line that asks for the given arguments. -/
def toLine (a : Arguments) : List String :=
  flagWords a.trace "trace" ++ (flagWords a.stats "stats" ++ (flagWords a.disasm "disasm"
    ++ (flagWords a.json "json" ++ (limitWords a.maxSteps ++ ["--", a.program]))))

/-- A switch that is asked for is flipped; `set` is what becomes of the words before it. -/
theorem words_flagWords (name : String) (set : Bool → Pending) (asked : Bool) (rest : List String)
    (hword : Shape.ofWord ("--" ++ name).toList = .long name.toList none)
    (hswitch : Switch.ofName? name = some switch) (hname : name ≠ "max-steps")
    (hflip : (set false).flip ("--" ++ name) switch = .ok (.reading (set true))) :
    words (set false) (flagWords asked name ++ rest) = words (set asked) rest := by
  cases asked with
  | false => rfl
  | true =>
    show words (set false) (("--" ++ name) :: rest) = words (set true) rest
    rw [words, hword]
    simp only [String.ofList_toList, hname, if_false, hswitch, hflip]

theorem ofWord_decimal (N : Nat) : Shape.ofWord (Numeral.decimal N).toList = .plain := by
  have hsign := (Numeral.head?_toList_decimal N).2
  unfold Shape.ofWord
  split
  · next h => exact absurd (congrArg List.head? h) hsign
  · next h => exact absurd (congrArg List.head? h) hsign
  · next h => exact absurd (congrArg List.head? h) hsign
  · rfl

theorem limit_decimal {N : Nat} (hp : p.maxSteps = none) (hpos : 1 ≤ N) (hN : N < Nat.pow 2 64) :
    p.limit (Numeral.decimal N) = .ok { p with maxSteps := some N } := by
  have hkept : (some N).filter (0 < ·) = some N := Option.filter_some_pos (decide_eq_true hpos)
  unfold Pending.limit
  rw [hp, Numeral.readWord64?_decimal hN, hkept]
  rfl

theorem words_limitWords (limit : Option Nat) (rest : List String) (hp : p.maxSteps = none)
    (hlimit : ∀ N ∈ limit, 1 ≤ N ∧ N < Nat.pow 2 64) :
    words p (limitWords limit ++ rest) = words { p with maxSteps := limit } rest := by
  cases limit with
  | none =>
    show words p rest = words { p with maxSteps := none } rest
    rw [← hp]
  | some N =>
    obtain ⟨hpos, hN⟩ := hlimit N rfl
    show words p ("--max-steps" :: Numeral.decimal N :: rest) = _
    have hword : Shape.ofWord "--max-steps".toList = .long "max-steps".toList none := by decide
    rw [words, hword]
    simp only [String.ofList_toList, if_true, ofWord_decimal, limit_decimal hp hpos hN]
    rfl

/-- **All arguments can be asked for**: each has a command line that leads to it. -/
theorem parse_toLine (a : Arguments) (hprogram : a.program ≠ "")
    (hlimit : ∀ N ∈ a.maxSteps, 1 ≤ N ∧ N < Nat.pow 2 64) :
    parse a.toLine = .ok (.execute a) := by
  obtain ⟨program, trace, stats, disasm, json, maxSteps⟩ := a
  unfold parse toLine
  rw [words_flagWords "trace" (fun b => { trace := b }) trace _ (by decide) rfl (by decide) rfl,
    words_flagWords "stats" (fun b => { trace, stats := b }) stats _ (by decide) rfl (by decide)
      rfl,
    words_flagWords "disasm" (fun b => { trace, stats, disasm := b }) disasm _ (by decide) rfl
      (by decide) rfl,
    words_flagWords "json" (fun b => { trace, stats, disasm, json := b }) json _ (by decide) rfl
      (by decide) rfl,
    words_limitWords maxSteps _ rfl hlimit]
  have hword : Shape.ofWord "--".toList = .separator := by decide
  have hprogram' : program ≠ "" := hprogram
  rw [words, hword]
  simp only [plainWords, Pending.word, Option.isSome_none, Bool.false_eq_true, if_false, hprogram']
  rfl

end Arguments

end LS8.Command
