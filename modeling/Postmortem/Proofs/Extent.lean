import Mathlib.Data.List.Chain
import Postmortem.Proofs.Ascent

/-!
# How far a walk goes

A hop leads from a frame to the frame of its caller, where the memory, the stack and the bound allow
it. A walk makes every hop there is, up to its limit.

* `Hop` and `Names`: what the memory around a frame says, with no walk in sight.
* `Walk.length_chain_le_room`: a walk ends of itself, since each hop leaves less of the stack above.
* `Walk.chain_eq_take`: a walk is the beginning of the whole chain.
* `frames_longest_chain`: the frames of a walk are the longest chain within the limit.
-/

namespace Postmortem

/-- The frame `f` keeps the base of the frame `g`, and the address at which `g` resumes. Frames are
given as pairs of base and resume address. -/
structure Hop (image : Image) (stack : Span) (bound : Cell) (f g : Cell × Cell) : Prop where
  base : image.dataCell f.1 = some g.1
  resume : ∃ above : Cell, above.toInt = f.1.toInt + 4 ∧ image.dataCell above = some g.2
  resumes : g.2 ≠ 0
  called : g.1 ≠ 0
  upward : f.1 < g.1
  inStack : stack.HoldsFrame g.1
  /-- Zero is no bound. -/
  below : bound ≠ 0 → g.1 < bound

/-- The frame at `base` was made by a call of this function: the call lies before the return address
that the frame keeps. -/
def Names (image : Image) (base : Cell) (function : Address) : Prop :=
  ∃ above resume operand target : Cell,
    above.toInt = base.toInt + 4 ∧ image.dataCell above = some resume ∧ 8 ≤ resume.toInt ∧
    operand.toInt = resume.toInt - 4 ∧ image.codeCell operand = some target ∧
    0 < target.toInt ∧ 4 ∣ target.toInt ∧ (image.codeCell target).isSome ∧
    (function.toNat : Int) = target.toInt

/-- Frames from `first` on, each the caller of the one before it. -/
structure Linked (image : Image) (stack : Span) (bound : Cell) (first : Cell × Cell)
    (frames : List (Cell × Cell)) : Prop where
  head : frames.head? = some first
  hops : frames.IsChain (Hop image stack bound)

/-- No hop leads on from the last frame. -/
structure Whole (image : Image) (stack : Span) (bound : Cell) (first : Cell × Cell)
    (frames : List (Cell × Cell)) : Prop extends Linked image stack bound first frames where
  last : ∀ f ∈ frames.getLast?, ∀ g, ¬ Hop image stack bound f g

namespace Cell

theorem plus?_eq_some_iff {a b : Cell} {n : Int} : plus? a n = some b ↔ b.toInt = a.toInt + n := by
  have low := b.le_toInt
  have high := b.toInt_lt
  unfold plus? ofInt?
  constructor
  · intro sum
    obtain ⟨⟨lower, upper⟩, same⟩ := Option.ite_none_right_eq_some.mp sum
    rw [← Option.some.inj same]
    exact Int32.toInt_ofInt_of_le (by omega) (by omega)
  · intro sum
    rw [← sum, if_pos (by omega), Int32.ofInt_toInt]

theorem toInt_sub_four {resume : Cell} (room : 8 ≤ resume.toInt) :
    (resume - 4).toInt = resume.toInt - 4 := by
  have high := resume.toInt_lt
  rw [Int32.toInt_sub]
  exact Int.bmod_eq_of_le (by simpa using by omega) (by simpa using by omega)

theorem mod_four_eq_zero_iff {a : Cell} : a % 4 = 0 ↔ 4 ∣ a.toInt := by
  rw [← Int32.toInt_inj, Int32.toInt_mod]
  exact (Int.dvd_iff_tmod_eq_zero ..).symm

theorem toNat_toUInt32 {a : Cell} (positive : 0 < a.toInt) :
    (a.toUInt32.toNat : Int) = a.toInt := by
  have nonneg : 0 ≤ a := Int32.le_iff_toInt_le.mpr (Int.le_of_lt positive)
  rw [Int32.toNat_toUInt32_of_le nonneg]
  exact Int.toNat_of_nonneg (Int.le_of_lt positive)

end Cell

namespace Linked

variable {image : Image} {stack : Span} {bound : Cell} {f g : Cell × Cell}
  {frames outer : List (Cell × Cell)}

theorem tail (linked : Linked image stack bound f (f :: g :: outer)) :
    Hop image stack bound f g ∧ Linked image stack bound g (g :: outer) := by
  obtain ⟨hop, further⟩ := List.isChain_cons_cons.mp linked.hops
  exact ⟨hop, rfl, further⟩

theorem pairwise_base (linked : Linked image stack bound f frames) :
    (frames.map (·.1)).Pairwise (· < ·) := by
  have trans : IsTrans (Cell × Cell) fun f g => f.1 < g.1 := ⟨fun _ _ _ => Int32.lt_trans⟩
  have upward := linked.hops.imp (S := fun f g => f.1 < g.1) fun _ _ hop => hop.upward
  rw [List.pairwise_map]
  exact List.isChain_iff_pairwise.mp upward

end Linked

namespace Walk

variable {w : Walk}

/-! ## Cells around a frame -/

theorem kept?_eq_some_iff {fp resume : Cell} :
    w.kept? fp = some resume ↔
      ∃ above : Cell, above.toInt = fp.toInt + 4 ∧ w.image.dataCell above = some resume := by
  rw [kept?, Option.bind_eq_some_iff]
  simp only [Cell.plus?_eq_some_iff]
  rfl

theorem caller?_eq_some_iff {bound : Cell} (within : ∀ fp, w.Within fp ↔ (bound ≠ 0 → fp < bound))
    {f g : Cell × Cell} : w.caller? f.1 = some g ↔ Hop w.image w.stack bound f g := by
  unfold caller?
  simp only [Option.bind_eq_bind, Option.bind_eq_some_iff, Option.ite_none_right_eq_some,
    Option.some.injEq, within]
  constructor
  · rintro ⟨caller, base, resume, kept, ⟨resumes, called, upward, inStack, below⟩, rfl⟩
    exact ⟨base, kept?_eq_some_iff.mp kept, resumes, called, upward, inStack, below⟩
  · rintro ⟨base, resume, resumes, called, upward, inStack, below⟩
    exact ⟨g.1, base, g.2, kept?_eq_some_iff.mpr resume,
      ⟨resumes, called, upward, inStack, below⟩, rfl⟩

theorem callee?_eq_some_iff {base : Cell} {function : Address} :
    w.callee? base = some function ↔ Names w.image base function := by
  have far (resume : Cell) : resume < 8 ↔ ¬ 8 ≤ resume.toInt := by
    rw [Int32.lt_iff_toInt_lt, Int.not_le]
    rfl
  have positive (target : Cell) : 0 < target ↔ 0 < target.toInt := Int32.lt_iff_toInt_lt
  unfold callee? Names
  simp only [Option.bind_eq_bind, Option.bind_eq_some_iff, Option.ite_none_left_eq_some,
    Option.ite_none_right_eq_some, Option.some.injEq, kept?_eq_some_iff, far, not_not, positive,
    Cell.mod_four_eq_zero_iff]
  constructor
  · rintro ⟨resume, ⟨above, next, kept⟩, room, target, operand, ⟨pos, aligned, inCode⟩, rfl⟩
    exact ⟨above, resume, resume - 4, target, next, kept, room, Cell.toInt_sub_four room, operand,
      pos, aligned, inCode, Cell.toNat_toUInt32 pos⟩
  · rintro ⟨above, resume, operand, target, next, kept, room, back, named, pos, aligned, inCode,
      same⟩
    have here : operand = resume - 4 := by
      rw [← Int32.toInt_inj, back, Cell.toInt_sub_four room]
    refine ⟨resume, ⟨above, next, kept⟩, room, target, here ▸ named, ⟨pos, aligned, inCode⟩, ?_⟩
    rw [← UInt32.toNat_inj]
    have unsigned := Cell.toNat_toUInt32 pos
    omega

/-! ## Chains -/

/-- Every hop leads upward and into the stack, so what is left of the stack above a frame bounds the
number of frames that follow. -/
theorem length_chain_le_room (n : Nat) {f : Cell × Cell} (held : w.stack.HoldsFrame f.1) :
    (w.chain n (some f)).length ≤ (w.stack.high.toInt - f.1.toInt).toNat := by
  induction n generalizing f with
  | zero => simp [chain]
  | succ n ih =>
    have room : f.1.toInt + 8 ≤ w.stack.high.toInt := held.2
    rw [chain, List.length_cons]
    cases next : w.caller? f.1 with
    | none =>
      have nothing : w.chain n none = [] := by cases n <;> rfl
      rw [nothing, List.length_nil]
      omega
    | some g =>
      obtain ⟨above, inStack, _⟩ := of_caller? next
      have upward : f.1.toInt < g.1.toInt := Int32.lt_iff_toInt_lt.mp above
      have roomLeft : g.1.toInt + 8 ≤ w.stack.high.toInt := inStack.2
      have later := ih inStack
      omega

section

variable {image : Image} {stack : Span} {bound : Cell} {first : Cell × Cell}
  {frames : List (Cell × Cell)}
  (hops : ∀ f g : Cell × Cell, w.caller? f.1 = some g ↔ Hop image stack bound f g)

include hops

theorem linked_chain (n : Nat) (first : Cell × Cell) :
    Linked image stack bound first (w.chain (n + 1) (some first)) := by
  induction n generalizing first with
  | zero => exact ⟨rfl, by simp only [chain]; cases w.caller? first.1 <;> exact .singleton _⟩
  | succ n ih =>
    refine ⟨rfl, ?_⟩
    rw [chain]
    cases next : w.caller? first.1 with
    | none => exact .singleton _
    | some g => exact List.isChain_cons_cons.mpr ⟨(hops first g).mp next, (ih g).hops⟩

/-- A chain of hops is a walk, as far as it goes. -/
theorem prefix_chain {n : Nat} (linked : Linked image stack bound first frames)
    (short : frames.length ≤ n) : frames <+: w.chain n (some first) := by
  induction frames generalizing n first with
  | nil => cases linked.head
  | cons f rest ih =>
    cases linked.head
    obtain ⟨n, rfl⟩ := Nat.exists_eq_succ_of_ne_zero (Nat.ne_zero_of_lt short)
    rw [chain, List.cons_prefix_cons]
    refine ⟨rfl, ?_⟩
    cases rest with
    | nil => exact List.nil_prefix
    | cons g outer =>
      obtain ⟨hop, further⟩ := linked.tail
      rw [(hops f g).mpr hop]
      exact ih further (Nat.le_of_succ_le_succ short)

/-- By induction on the whole chain. At its last frame the walk has nowhere to go either. -/
theorem chain_eq_take (whole : Whole image stack bound first frames) (n : Nat) :
    w.chain n (some first) = frames.take n := by
  obtain ⟨linked, last⟩ := whole
  induction frames generalizing n first with
  | nil => cases linked.head
  | cons f rest ih =>
    cases linked.head
    cases n with
    | zero => rfl
    | succ n =>
      rw [chain, List.take_succ_cons]
      cases rest with
      | nil =>
        have nowhere : w.caller? f.1 = none :=
          Option.eq_none_iff_forall_ne_some.mpr fun g hop => last f rfl g ((hops f g).mp hop)
        rw [nowhere]
        cases n <;> rfl
      | cons g outer =>
        obtain ⟨hop, further⟩ := linked.tail
        rw [(hops f g).mpr hop, ih n further (by simpa using last)]

/-- A walk that stops short of its limit has come to a frame that no hop leads on from. -/
theorem whole_chain {n : Nat} (short : (w.chain n (some first)).length < n) :
    Whole image stack bound first (w.chain n (some first)) := by
  induction n generalizing first with
  | zero => exact absurd short (Nat.not_lt_zero _)
  | succ n ih =>
    refine ⟨linked_chain hops n first, ?_⟩
    rw [chain] at short ⊢
    have shorter : (w.chain n (w.caller? first.1)).length < n := Nat.lt_of_succ_lt_succ short
    cases next : w.caller? first.1 with
    | none =>
      have nothing : w.chain n none = [] := by cases n <;> rfl
      rw [nothing]
      rintro f ⟨⟩ g hop
      rw [(hops first g).mpr hop] at next
      cases next
    | some g =>
      rw [next] at shorter
      have further := (ih shorter).last
      obtain ⟨n, rfl⟩ := Nat.exists_eq_succ_of_ne_zero (Nat.ne_zero_of_lt shorter)
      rw [chain] at further ⊢
      rwa [List.getLast?_cons_cons]

/-- The hops come to an end without any limit. -/
theorem exists_whole (held : w.stack.HoldsFrame first.1) :
    ∃ frames, Whole image stack bound first frames :=
  ⟨_, whole_chain hops (Nat.lt_succ_of_le (length_chain_le_room _ held))⟩

end

/-! ## Bounded walks -/

theorem map_place_frames (w : Walk) :
    (w.frames.map fun f => (f.base, f.resume)) = w.chain limit w.first := by
  rw [frames, List.map_map]
  exact List.map_id _

theorem entry_of_mem_frames {f : Frame} (unnamed : w.symbols = none) (hf : f ∈ w.frames) :
    f.entry = w.callee? f.base := by
  obtain ⟨place, _, rfl⟩ := List.mem_map.mp hf
  simp [frame, Frame.resumingAt, unnamed]

section

variable {image : Image} {stack : Span} {ip fp bound : Cell} {symbols : Option SymbolTable}

theorem first_bounded :
    (((start image stack ip fp).boundedBy bound).withSymbols symbols).first =
      if fp ≠ 0 ∧ stack.HoldsFrame fp ∧ (bound ≠ 0 → fp < bound) then some (fp, ip) else none := by
  by_cases unbounded : bound = 0
  · simp [boundedBy, withSymbols, start, unbounded]
  · by_cases found : fp ≠ 0 ∧ stack.HoldsFrame fp
    · by_cases below : fp < bound <;>
        simp [boundedBy, withSymbols, start, unbounded, found, below, Option.filter_some]
    · have nowhere : ¬ (fp ≠ 0 ∧ stack.HoldsFrame fp ∧ (bound ≠ 0 → fp < bound)) := by
        rintro ⟨frame, held, _⟩
        exact found ⟨frame, held⟩
      simp only [boundedBy, withSymbols, start, unbounded, if_neg found, if_neg nowhere, if_false,
        Option.filter_none]

theorem within_bounded (base : Cell) :
    (((start image stack ip fp).boundedBy bound).withSymbols symbols).Within base ↔
      (bound ≠ 0 → base < bound) := by
  by_cases unbounded : bound = 0
  · simp [boundedBy, withSymbols, start, Within, unbounded]
  · simp [boundedBy, withSymbols, Within, unbounded]

theorem image_bounded :
    (((start image stack ip fp).boundedBy bound).withSymbols symbols).image = image := by
  unfold boundedBy
  split <;> rfl

theorem stack_bounded :
    (((start image stack ip fp).boundedBy bound).withSymbols symbols).stack = stack := by
  unfold boundedBy
  split <;> rfl

theorem hops_bounded (f g : Cell × Cell) :
    (((start image stack ip fp).boundedBy bound).withSymbols symbols).caller? f.1 = some g ↔
      Hop image stack bound f g := by
  rw [caller?_eq_some_iff within_bounded, image_bounded, stack_bounded]

end

end Walk

/-- **A walk is the longest chain within its limit.** It is empty only where it has no frame to
start from. Otherwise every chain of hops from there on is the beginning of it or, if it reached the
limit, goes on after it. Of the whole chain, which ends without a limit too, it has the first 4096
frames. Where no symbols name a function, the call that made a frame does, or nothing. -/
theorem frames_longest_chain (image : Image) (stack : Span) (ip fp bound : Cell)
    (symbols : Option SymbolTable) :
    let w := ((Walk.start image stack ip fp).boundedBy bound).withSymbols symbols
    let visited := w.frames.map fun f => (f.base, f.resume)
    (visited = [] ↔ fp = 0 ∨ ¬ stack.HoldsFrame fp ∨ bound ≠ 0 ∧ bound ≤ fp) ∧
      (visited ≠ [] →
        Linked image stack bound (fp, ip) visited ∧ visited.length ≤ 4096 ∧
        (∀ chain, Linked image stack bound (fp, ip) chain →
          (chain.map (·.1)).Pairwise (· < ·) ∧ (chain.length ≤ 4096 → chain <+: visited)) ∧
        (∃ whole, Whole image stack bound (fp, ip) whole) ∧
        ∀ whole, Whole image stack bound (fp, ip) whole →
          visited = whole.take 4096 ∧ visited.length = min whole.length 4096) ∧
      (symbols = none → ∀ f ∈ w.frames, ∀ a, f.entry = some a ↔ Names image f.base a) := by
  intro w visited
  have hops (f g : Cell × Cell) : w.caller? f.1 = some g ↔ Hop image stack bound f g :=
    Walk.hops_bounded f g
  have walked : visited = w.chain Walk.limit w.first := w.map_place_frames
  have entries (unnamed : symbols = none) :
      ∀ f ∈ w.frames, ∀ a, f.entry = some a ↔ Names image f.base a := by
    intro f hf a
    rw [Walk.entry_of_mem_frames unnamed hf, Walk.callee?_eq_some_iff, Walk.image_bounded]
  have empty_iff : visited = [] ↔
      ¬ (fp ≠ 0 ∧ stack.HoldsFrame fp ∧ (bound ≠ 0 → fp < bound)) := by
    rw [walked, Walk.first_bounded]
    by_cases found : fp ≠ 0 ∧ stack.HoldsFrame fp ∧ (bound ≠ 0 → fp < bound)
    · rw [if_pos found]
      exact iff_of_false (List.cons_ne_nil _ _) (not_not_intro found)
    · rw [if_neg found]
      exact iff_of_true rfl found
  refine ⟨?_, ?_, entries⟩
  · rw [empty_iff, ← Int32.not_lt]
    tauto
  · intro nonempty
    have found := not_not.mp (mt empty_iff.mpr nonempty)
    have held : w.stack.HoldsFrame fp := by
      rw [Walk.stack_bounded]
      exact found.2.1
    rw [Walk.first_bounded, if_pos found] at walked
    have taken (whole : List (Cell × Cell)) (ends : Whole image stack bound (fp, ip) whole) :
        visited = whole.take 4096 := by
      rw [walked]
      exact Walk.chain_eq_take hops ends Walk.limit
    refine ⟨?_, ?_, ?_, Walk.exists_whole hops held, ?_⟩
    · rw [walked]
      exact Walk.linked_chain hops 4095 (fp, ip)
    · rw [walked]
      exact Walk.length_chain_le ..
    · intro chain linked
      refine ⟨linked.pairwise_base, ?_⟩
      intro short
      rw [walked]
      exact Walk.prefix_chain hops linked short
    · intro whole ends
      refine ⟨taken whole ends, ?_⟩
      rw [taken whole ends, List.length_take, Nat.min_comm]

/-- The entry point of the machine with the timers is two functions deep. -/
theorem frames_longest_chain_timers :
    let image := Backtrace.timerMachine.image
    let stack := Backtrace.timerMachine.registers.stack
    let w := ((Walk.start image stack 8 48).boundedBy 0).withSymbols none
    let visited := w.frames.map fun f => (f.base, f.resume)
    Whole image stack 0 (48, 8) [(48, 8), (56, 12)] ∧ visited ≠ [] ∧
      visited = [(48, 8), (56, 12)] ∧ ∃ f ∈ w.frames, f.entry = some 16 ∧ Names image f.base 16 := by
  intro image stack w visited
  have hop : Hop image stack 0 (48, 8) (56, 12) :=
    ⟨by decide +kernel, ⟨52, by decide, by decide +kernel⟩, by decide, by decide, by decide,
      by decide +kernel, by decide⟩
  have whole : Whole image stack 0 (48, 8) [(48, 8), (56, 12)] := by
    refine ⟨⟨rfl, List.isChain_pair.mpr hop⟩, ?_⟩
    rintro f ⟨⟩ g further
    have rooted : image.dataCell 56 = some 0 := by decide +kernel
    exact further.called (Option.some.inj (further.base.symm.trans rooted))
  have nonempty : visited ≠ [] := by decide +kernel
  obtain ⟨_, walked, named⟩ := frames_longest_chain image stack 8 48 0 none
  obtain ⟨_, _, _, _, taken⟩ := walked nonempty
  have inner : ⟨48, 8, some 16, none⟩ ∈ w.frames := by decide +kernel
  exact ⟨whole, nonempty, (taken _ whole).1, _, inner, rfl, (named rfl _ inner 16).mp rfl⟩

end Postmortem
