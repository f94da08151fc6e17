import LS8.Proofs.Machine.Trajectory

/-!
# The stack as a list

The stack of the machine is a region of memory that any value of the stack pointer
can name and that code and data share. This module follows a run with a list of
bytes beside it, the *shadow stack*: pushing and calling put a byte in front,
popping and returning take the first one off (`Machine.shadow`).

- `Machine.Disciplined` is what a run has to keep to: it loads nothing into the
  stack pointer, takes nothing off the empty shadow stack, and never has more on
  it than memory has cells.
- `Machine.Shadows` is the invariant: the cells from the stack pointer upwards,
  across the end of memory, are the shadow stack.
- `Machine.stack_refines_shadow`: a disciplined run keeps the invariant, so what it
  pops is what the matching instruction pushed, and it returns to where it called.

That the cells of the stack hold the program too is no obstacle. Nothing but a push
or a call writes to memory.
-/

namespace LS8

open Memory (size)

namespace Instruction

/-- The register that an instruction writes its result to. -/
def destination? : Instruction → Option UInt8
  | .ldi reg _ | .alu _ reg _ | .pop reg => some reg
  | _ => none

end Instruction

/-- What an instruction does to the shadow stack. -/
inductive StackEffect where
  | push (value : UInt8)
  | pop
  | keep
deriving DecidableEq

/-- The shadow stack afterwards. -/
def StackEffect.apply : StackEffect → List UInt8 → List UInt8
  | push value, stack => value :: stack
  | pop, stack => stack.tail
  | keep, stack => stack

namespace Machine

variable {m m' : Machine} {i : Instruction} {n : Nat}

/-! ## The shadow stack -/

/-- What an instruction does to the shadow stack: a push puts its register there,
the stack pointer as it is after the push, and a call the address behind itself. -/
def effectOf (m : Machine) : Instruction → StackEffect
  | .push reg =>
    .push (if reg = 7 then m.registers.sp - 1 else (m.registers.get reg).toOption.getD 0)
  | .call _ => .push (UInt8.ofNat (m.pc + 2))
  | .pop _ | .ret => .pop
  | _ => .keep

/-- What the next step does to the shadow stack. -/
def effect (m : Machine) : StackEffect :=
  match m.fetch with
  | .ok i => m.effectOf i
  | .error _ => .keep

/-- The register that the next step writes its result to. -/
def destination? (m : Machine) : Option UInt8 :=
  match m.fetch with
  | .ok i => i.destination?
  | .error _ => none

/-- The shadow stack of a run after `n` steps, empty at its start. -/
def shadow (m : Machine) : Nat → List UInt8
  | 0 => []
  | n + 1 => (m.after n).effect.apply (m.shadow n)

/-- What the first `n` steps have to keep to. -/
structure Disciplined (m : Machine) (n : Nat) : Prop where
  succeeds : m.Succeeds n
  /-- No result is written to the stack pointer. -/
  keepsSp : ∀ k, k < n → (m.after k).destination? ≠ some 7
  /-- Nothing is taken off the empty shadow stack. -/
  nonempty : ∀ k, k < n → (m.after k).effect = .pop → m.shadow k ≠ []
  /-- The shadow stack has room in memory. -/
  bounded : ∀ k, k ≤ n → (m.shadow k).length ≤ size

/-- The `k`-th step takes off what the `j`-th step put there: in between there is
always more on the shadow stack than before the `j`-th step, and the `k`-th step is
about to go back to that. -/
structure Matches (m : Machine) (j k : Nat) : Prop where
  lt : j < k
  depth : (m.shadow k).length = (m.shadow j).length + 1
  above : ∀ i, j < i → i ≤ k → (m.shadow j).length < (m.shadow i).length

instance (m : Machine) (n : Nat) : Decidable (m.Disciplined n) :=
  decidable_of_iff
    (m.Succeeds n ∧ (∀ k, k < n → (m.after k).destination? ≠ some 7) ∧
      (∀ k, k < n → (m.after k).effect = .pop → m.shadow k ≠ []) ∧
      ∀ k, k < n + 1 → (m.shadow k).length ≤ size)
    ⟨fun ⟨h₁, h₂, h₃, h₄⟩ => ⟨h₁, h₂, h₃, fun k hk => h₄ k (Nat.lt_succ_of_le hk)⟩,
      fun h => ⟨h.succeeds, h.keepsSp, h.nonempty,
        fun k hk => h.bounded k (Nat.le_of_lt_succ hk)⟩⟩

instance (m : Machine) (j k : Nat) : Decidable (m.Matches j k) :=
  decidable_of_iff
    (j < k ∧ (m.shadow k).length = (m.shadow j).length + 1 ∧
      ∀ i, i < k + 1 → j < i → (m.shadow j).length < (m.shadow i).length)
    ⟨fun ⟨h₁, h₂, h₃⟩ => ⟨h₁, h₂, fun i hj hk => h₃ i (Nat.lt_succ_of_le hk) hj⟩,
      fun h => ⟨h.lt, h.depth, fun i hk hj => h.above i hj (Nat.le_of_lt_succ hk)⟩⟩

/-! ## What the effects say of the instructions -/

theorem effect_of_fetch (hf : m.fetch = .ok i) : m.effect = m.effectOf i := by
  rw [effect, hf]

/-! ## The invariant -/

/-- The stack pointer lies below the shadow stack, and the cells from there on
hold it. Both are counted modulo 256. -/
structure Shadows (s₀ : UInt8) (stack : List UInt8) (m : Machine) : Prop where
  sp : m.registers.sp = s₀ - UInt8.ofNat stack.length
  cells : ∀ j (hj : j < stack.length),
    m.memory.get (m.registers.sp + UInt8.ofNat j) = stack[j]

theorem sub_one_add_ofNat_succ (s : UInt8) (j : Nat) :
    s - 1 + UInt8.ofNat (j + 1) = s + UInt8.ofNat j := by
  rw [UInt8.ofNat_add]
  grind

theorem add_one_add_ofNat (s : UInt8) (j : Nat) :
    s + 1 + UInt8.ofNat j = s + UInt8.ofNat (j + 1) := by
  rw [UInt8.ofNat_add]
  grind

/-- Going up by less than the size of memory never ends one cell below. -/
theorem sub_one_ne_add_ofNat (s : UInt8) {j : Nat} (h : j + 1 < size) :
    s - 1 ≠ s + UInt8.ofNat j := by
  intro he
  have hlt : j + 1 < 256 := h
  have := congrArg UInt8.toNat he
  simp [UInt8.toNat_sub, UInt8.toNat_add] at this
  omega

namespace Shadows

variable {s₀ value : UInt8} {stack : List UInt8}

theorem nil (m : Machine) : m.Shadows m.registers.sp [] where
  sp := by simp
  cells := fun _ hj => absurd hj (Nat.not_lt_zero _)

/-- What leaves the stack pointer and the memory alone leaves the stack alone. -/
theorem keep (h : m.Shadows s₀ stack) (hsp : m'.registers.sp = m.registers.sp)
    (hmem : m'.memory = m.memory) : m'.Shadows s₀ stack where
  sp := hsp.trans h.sp
  cells := fun j hj => by
    rw [hmem, hsp]
    exact h.cells j hj

/-- A byte stored below the stack is its new top. The cells of the stack are not
touched as long as it does not fill the memory. -/
theorem push (h : m.Shadows s₀ stack) (hlen : stack.length < size)
    (hsp : m'.registers.sp = m.registers.sp - 1)
    (hmem : m'.memory = m.memory.set (m.registers.sp - 1) value) :
    m'.Shadows s₀ (value :: stack) where
  sp := by
    rw [hsp, h.sp, List.length_cons, UInt8.ofNat_add]
    grind
  cells := fun j hj => by
    rw [hmem, hsp]
    cases j with
    | zero => simp
    | succ j =>
      have hj' : j < stack.length := Nat.lt_of_succ_lt_succ hj
      rw [sub_one_add_ofNat_succ,
        Memory.get_set_of_ne _ _ (sub_one_ne_add_ofNat _ (by omega)), h.cells j hj',
        List.getElem_cons_succ]

/-- The cell at the stack pointer holds the top of the stack. -/
theorem top_eq (h : m.Shadows s₀ (value :: stack)) : m.top = value := by
  have := h.cells 0 (Nat.succ_pos _)
  simpa [top] using this

/-- Raising the stack pointer takes the top off. -/
theorem pop (h : m.Shadows s₀ (value :: stack))
    (hsp : m'.registers.sp = m.registers.sp + 1) (hmem : m'.memory = m.memory) :
    m'.Shadows s₀ stack where
  sp := by
    rw [hsp, h.sp, List.length_cons, UInt8.ofNat_add]
    grind
  cells := fun j hj => by
    rw [hmem, hsp, add_one_add_ofNat, h.cells (j + 1) (Nat.succ_lt_succ hj),
      List.getElem_cons_succ]

end Shadows

/-- **One step keeps the invariant.** -/
theorem Shadows.step {s₀ : UInt8} {stack : List UInt8} (h : m.Shadows s₀ stack)
    (hx : Executes m i m') (hdest : i.destination? ≠ some 7)
    (hne : m.effectOf i = .pop → stack ≠ [])
    (hlen : ((m.effectOf i).apply stack).length ≤ size) :
    m'.Shadows s₀ ((m.effectOf i).apply stack) := by
  cases hx with
  | hlt => exact h.keep rfl rfl
  | ldi hset => exact h.keep (Registers.sp_of_set hset fun hreg => hdest (by rw [hreg]; rfl)) rfl
  | prn hget hprint => exact h.keep rfl rfl
  | alu happly =>
    obtain ⟨x, y, -, -, hset⟩ := Alu.apply_eq_ok_iff.1 happly
    exact h.keep (Registers.sp_of_set hset fun hreg => hdest (by rw [hreg]; rfl)) rfl
  | @push reg value hget =>
    have hpushed : m.effectOf (.push reg) = .push value :=
      congrArg StackEffect.push (pushed_of_get_lowered hget)
    rw [hpushed] at hlen ⊢
    exact h.push hlen (Registers.sp_setSp _ _) rfl
  | pop hset =>
    obtain ⟨value, rest, rfl⟩ := List.exists_cons_of_ne_nil (hne rfl)
    have hsp := Registers.sp_of_set hset fun hreg => hdest (by rw [hreg]; rfl)
    exact h.pop ((Registers.sp_setSp _ _).trans (congrArg (· + 1) hsp)) rfl
  | call hfit hget => exact h.push hlen (Registers.sp_setSp _ _) rfl
  | ret =>
    obtain ⟨value, rest, rfl⟩ := List.exists_cons_of_ne_nil (hne rfl)
    exact h.pop (Registers.sp_setSp _ _) rfl

/-! ## Disciplined runs -/

/-- Each step of a disciplined run executes an instruction that leaves the stack
pointer to the stack. -/
theorem Disciplined.executes {k : Nat} (h : m.Disciplined n) (hk : k < n) :
    ∃ i, (m.after k).fetch = .ok i ∧ i.destination? ≠ some 7 ∧
      Executes (m.after k) i (m.after (k + 1)) := by
  obtain ⟨i, hf, hx⟩ := h.succeeds.executes hk
  have hdest := h.keepsSp k hk
  rw [destination?, hf] at hdest
  exact ⟨i, hf, hdest, hx⟩

/-- **A disciplined run keeps the invariant**, by induction on its length. -/
theorem Disciplined.shadows (h : m.Disciplined n) :
    ∀ k, k ≤ n → (m.after k).Shadows m.registers.sp (m.shadow k) := by
  intro k
  induction k with
  | zero =>
    intro _
    exact Shadows.nil m
  | succ k ih =>
    intro hk
    obtain ⟨i, hf, hdest, hx⟩ := h.executes hk
    have hne := h.nonempty k hk
    have hlen := h.bounded (k + 1) hk
    rw [shadow, effect_of_fetch hf] at hlen ⊢
    rw [effect_of_fetch hf] at hne
    exact (ih (Nat.le_of_succ_le hk)).step hx hdest hne hlen

/-- Whatever lies on the shadow stack was put there by some step, and everything
below it has lain there since. The induction is on the run; the entries above
(`upper`) are what a pop in between takes off. -/
theorem exists_push_of_shadow_eq (m : Machine) :
    ∀ (k : Nat) (upper : List UInt8) (value : UInt8) (rest : List UInt8),
      m.shadow k = upper ++ value :: rest →
      ∃ j, j < k ∧ m.shadow j = rest ∧ (m.after j).effect = .push value ∧
        ∀ i, j < i → i ≤ k → rest.length < (m.shadow i).length := by
  intro k
  induction k with
  | zero =>
    intro upper value rest hk
    exact absurd hk.symm (by simp [shadow])
  | succ k ih =>
    intro upper value rest hk
    have hlength : rest.length < (m.shadow (k + 1)).length := by
      rw [hk, List.length_append, List.length_cons]
      omega
    -- an entry that was there before comes with its own step
    have older : ∀ upper', m.shadow k = upper' ++ value :: rest →
        ∃ j, j < k + 1 ∧ m.shadow j = rest ∧ (m.after j).effect = .push value ∧
          ∀ i, j < i → i ≤ k + 1 → rest.length < (m.shadow i).length := by
      intro upper' hk'
      obtain ⟨j, hj, hrest, hpush, habove⟩ := ih upper' value rest hk'
      refine ⟨j, Nat.lt_succ_of_lt hj, hrest, hpush, fun i hji hik => ?_⟩
      rcases Nat.lt_or_eq_of_le hik with hlt | rfl
      · exact habove i hji (Nat.le_of_lt_succ hlt)
      · exact hlength
    rw [shadow] at hk
    cases he : (m.after k).effect with
    | keep =>
      rw [he] at hk
      exact older upper hk
    | pop =>
      rw [he, StackEffect.apply] at hk
      have hne : m.shadow k ≠ [] := by
        intro hnil
        rw [hnil] at hk
        exact absurd hk.symm (by simp)
      obtain ⟨first, more, hcons⟩ := List.exists_cons_of_ne_nil hne
      rw [hcons, List.tail_cons] at hk
      exact older (first :: upper) (by rw [hcons, hk, List.cons_append])
    | push pushed =>
      rw [he, StackEffect.apply] at hk
      cases upper with
      | nil =>
        obtain ⟨rfl, rfl⟩ := List.cons.inj hk
        refine ⟨k, Nat.lt_succ_self k, rfl, he, fun i hki hik => ?_⟩
        obtain rfl : i = k + 1 := by omega
        exact hlength
      | cons first more => exact older more (List.cons.inj hk).2

/-- A step matches at most one earlier step. -/
theorem Matches.unique {j j' k : Nat} (h : m.Matches j k) (h' : m.Matches j' k) : j = j' := by
  have hdepth := h.depth.symm.trans h'.depth
  rcases Nat.lt_trichotomy j j' with hlt | heq | hgt
  · have := h.above j' hlt (Nat.le_of_lt h'.lt)
    omega
  · exact heq
  · have := h'.above j hgt (Nat.le_of_lt h.lt)
    omega

/-- The top of the shadow stack was put there by the step that matches. -/
theorem exists_matches_of_shadow_eq {k : Nat} {value : UInt8} {rest : List UInt8}
    (hk : m.shadow k = value :: rest) :
    ∃ j, m.Matches j k ∧ (m.after j).effect = .push value := by
  obtain ⟨j, hj, rfl, hpush, habove⟩ := exists_push_of_shadow_eq m k [] value rest hk
  exact ⟨j, ⟨hj, by rw [hk, List.length_cons], habove⟩, hpush⟩

/-- A call that succeeds pushes an address that fits into a byte. -/
theorem toNat_of_effect_call {reg value : UInt8} (hf : m.fetch = .ok (.call reg))
    (hx : Executes m (.call reg) m') (he : m.effect = .push value) :
    value.toNat = m.pc + 2 := by
  rw [effect_of_fetch hf] at he
  obtain rfl := StackEffect.push.inj he
  cases hx with
  | call hfit hget => exact UInt8.toNat_ofNat_of_lt hfit

/-- **The stack refines a list.** In every state of a disciplined run the stack
pointer and the cells above it are the shadow stack. Every pop and every return
has a matching push or call. A pop delivers the byte pushed there; a return goes to
it, which is behind the call if a call has pushed it. -/
theorem stack_refines_shadow (h : m.Disciplined n) :
    (∀ k, k ≤ n → (m.after k).Shadows m.registers.sp (m.shadow k)) ∧
    ∀ k, k < n → (m.after k).effect = .pop →
      (∃ j, m.Matches j k) ∧
      ∀ j, m.Matches j k → ∃ value, (m.after j).effect = .push value ∧
        (∀ reg, (m.after k).fetch = .ok (.pop reg) →
          (m.after (k + 1)).registers.get reg = .ok value) ∧
        ((m.after k).fetch = .ok .ret → (m.after (k + 1)).pc = value.toNat) ∧
        ((m.after k).fetch = .ok .ret → ∀ reg, (m.after j).fetch = .ok (.call reg) →
          (m.after (k + 1)).pc = (m.after j).pc + 2) := by
  refine ⟨h.shadows, fun k hk he => ?_⟩
  obtain ⟨value, rest, hcons⟩ := List.exists_cons_of_ne_nil (h.nonempty k hk he)
  obtain ⟨j, hmatch, hpush⟩ := exists_matches_of_shadow_eq hcons
  have hshadows := h.shadows k (Nat.le_of_lt hk)
  rw [hcons] at hshadows
  obtain ⟨i, hf, hdest, hx⟩ := h.executes hk
  have hret : (m.after k).fetch = .ok .ret → (m.after (k + 1)).pc = value.toNat := by
    intro hfetch
    obtain rfl := Except.ok.inj (hf.symm.trans hfetch)
    generalize m.after (k + 1) = m' at hx
    cases hx with
    | ret => exact congrArg UInt8.toNat hshadows.top_eq
  refine ⟨⟨j, hmatch⟩, fun j' hmatch' => ⟨value, ?_, ?_, hret, ?_⟩⟩
  · rw [hmatch'.unique hmatch]
    exact hpush
  · intro reg hfetch
    obtain rfl := Except.ok.inj (hf.symm.trans hfetch)
    generalize m.after (k + 1) = m' at hx
    cases hx with
    | pop hset =>
      have hreg : reg ≠ 7 := fun hreg => hdest (by rw [hreg]; rfl)
      rw [Registers.get_setSp, if_neg hreg, Registers.get_of_set hset, if_pos rfl,
        hshadows.top_eq]
  · intro hfetch reg hcall
    obtain rfl := hmatch'.unique hmatch
    obtain ⟨i', hf', -, hx'⟩ := h.executes (Nat.lt_trans hmatch.lt hk)
    obtain rfl := Except.ok.inj (hf'.symm.trans hcall)
    rw [hret hfetch, toNat_of_effect_call hcall hx' hpush]

/-- A machine with its stack pointer at 1, so that a stack of two bytes reaches
across the end of memory and over the first byte of the program:
`LDI R1,6`, `CALL R1`, `HLT`, and from address 6 on `PUSH R7`, `POP R0`, `RET`. -/
def nearZero : Machine :=
  { ((initial {} false).load
      ⟨[0x82, 0x01, 0x06, 0x50, 0x01, 0x01, 0x45, 0x07, 0x46, 0x00, 0x11]⟩).state with
    registers := Registers.initial.setSp 1 }

theorem stack_refines_shadow_nearZero :
    nearZero.Disciplined 5 ∧ nearZero.Matches 1 4 ∧ nearZero.Matches 2 3 ∧
      (nearZero.after 3).Shadows 1 [255, 5] ∧
      (nearZero.after 4).registers.get 0 = .ok 255 ∧
      (nearZero.after 5).pc = (nearZero.after 1).pc + 2 := by
  have h : nearZero.Disciplined 5 := by decide +kernel
  have hcall : nearZero.Matches 1 4 := by decide +kernel
  have hpush : nearZero.Matches 2 3 := by decide +kernel
  obtain ⟨hshadows, hpop⟩ := stack_refines_shadow h
  refine ⟨h, hcall, hpush, hshadows 3 (by decide), ?_, ?_⟩
  · obtain ⟨value, heffect, hget, -⟩ := (hpop 3 (by decide) (by decide +kernel)).2 2 hpush
    have hvalue : (nearZero.after 2).effect = .push 255 := by decide +kernel
    rw [heffect] at hvalue
    rw [hget 0 (by decide +kernel), StackEffect.push.inj hvalue]
  · obtain ⟨value, -, -, -, hret⟩ := (hpop 4 (by decide) (by decide +kernel)).2 1 hcall
    exact hret (by decide +kernel) 1 (by decide +kernel)

end Machine

end LS8
