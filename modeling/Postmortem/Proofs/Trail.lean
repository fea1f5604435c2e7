import Mathlib.Data.List.Chain
import Postmortem.Unwind

/-!
# Return addresses along a trail

After a trap frame pointers lead through the memory of the host, which may be damaged anywhere. The
walk takes the return addresses along the longest trail of frames there is, and a limit cuts it off
without any effect on what comes before.

* `Trap.Keeps` and `Trap.Trail`: what the memory around a frame says, with no walk in sight.
* `Trap.exists_longest`: there is a longest trail, since each frame leaves less of the address space
  above it, and the walk follows it.
* `Trap.addresses_longest_trail`: the addresses of a walk within any limit.
-/

namespace Postmortem.Trap

/-- The frame at `fp` keeps the return address `ret`, and leads on to `next`. -/
structure Keeps (memory : Memory) (fp ret next : UInt64) : Prop where
  nonzero : fp ≠ 0
  aligned : 8 ∣ fp.toNat
  leads : memory fp = some next
  kept : ∃ above : UInt64, above.toNat = fp.toNat + 8 ∧ memory above = some ret
  returns : ret ≠ 0

/-- Frames from `first` on, each kept at the word that the one before it leads to, and above it.
Frames are given as pairs of frame pointer and return address. -/
structure Trail (memory : Memory) (first : UInt64) (frames : List (UInt64 × UInt64)) : Prop where
  starts : ∀ f ∈ frames.head?, f.1 = first
  keeps : ∀ f ∈ frames, ∃ next, Keeps memory f.1 f.2 next
  upward : frames.IsChain fun f g => memory f.1 = some g.1 ∧ f.1 < g.1

/-- Every trail is the beginning of this one. -/
structure Longest (memory : Memory) (first : UInt64) (frames : List (UInt64 × UInt64)) : Prop
    extends Trail memory first frames where
  greatest : ∀ others, Trail memory first others → others <+: frames

variable {memory : Memory} {fp ret next ret' next' first : UInt64}
  {frames : List (UInt64 × UInt64)}

/-! ## One frame -/

theorem kept?_eq_some_iff :
    kept? memory fp = some ret ↔
      ∃ above : UInt64, above.toNat = fp.toNat + 8 ∧ memory above = some ret := by
  unfold kept?
  by_cases room : fp.toNat + 8 < UInt64.size
  · have sum : (fp + 8).toNat = fp.toNat + 8 := by
      rw [UInt64.toNat_add]
      exact Nat.mod_eq_of_lt room
    rw [if_pos room]
    constructor
    · intro here
      exact ⟨fp + 8, sum, here⟩
    · rintro ⟨above, place, here⟩
      rw [← sum, UInt64.toNat_inj] at place
      rwa [← place]
  · rw [if_neg room]
    refine iff_of_false nofun ?_
    rintro ⟨above, place, _⟩
    exact room (place ▸ above.toNat_lt_size)

theorem Keeps.unique (keeps : Keeps memory fp ret next) (keeps' : Keeps memory fp ret' next') :
    ret = ret' ∧ next = next' := by
  have returned := kept?_eq_some_iff.mpr keeps.kept
  rw [kept?_eq_some_iff.mpr keeps'.kept] at returned
  have led := keeps.leads
  rw [keeps'.leads] at led
  exact ⟨(Option.some.inj returned).symm, (Option.some.inj led).symm⟩

theorem aligned_iff : fp % 8 = 0 ↔ 8 ∣ fp.toNat := by
  rw [← UInt64.toNat_inj, UInt64.toNat_mod]
  exact (Nat.dvd_iff_mod_eq_zero ..).symm

theorem returns_of_keeps (keeps : Keeps memory fp ret next) (n : Nat) :
    returns memory (n + 1) fp = ret :: if fp < next then returns memory n next else [] := by
  have steady : ¬ (fp = 0 ∨ fp % 8 ≠ 0) := by
    rintro (zero | crooked)
    · exact keeps.nonzero zero
    · exact crooked (aligned_iff.mpr keeps.aligned)
  rw [returns, if_neg steady, keeps.leads, kept?_eq_some_iff.mpr keeps.kept]
  simp only [if_neg keeps.returns]
  by_cases upward : fp < next
  · rw [if_neg (UInt64.not_le.mpr upward), if_pos upward]
  · rw [if_pos (UInt64.not_lt.mp upward), if_neg upward]

theorem returns_of_not_keeps (nothing : ∀ ret next, ¬ Keeps memory fp ret next) (n : Nat) :
    returns memory n fp = [] := by
  cases n with
  | zero => rfl
  | succ n =>
    rw [returns]
    split_ifs with lost
    · rfl
    · rw [not_or, not_not, aligned_iff] at lost
      split
      · rename_i next ret leads kept
        split_ifs with zero
        · rfl
        · exact absurd ⟨lost.1, lost.2, leads, kept?_eq_some_iff.mp kept, zero⟩ (nothing ret next)
        · exact absurd ⟨lost.1, lost.2, leads, kept?_eq_some_iff.mp kept, zero⟩ (nothing ret next)
      · rfl

/-! ## Trails -/

namespace Trail

theorem nil : Trail memory first [] := ⟨nofun, nofun, .nil⟩

theorem cons (keeps : Keeps memory fp ret next) (trail : Trail memory next frames)
    (upward : frames ≠ [] → fp < next) : Trail memory fp ((fp, ret) :: frames) := by
  refine ⟨?_, ?_, ?_⟩
  · rintro f ⟨⟩
    rfl
  · rw [List.forall_mem_cons]
    exact ⟨⟨next, keeps⟩, trail.keeps⟩
  · refine List.isChain_cons.mpr ⟨?_, trail.upward⟩
    intro g first
    have place : g.1 = next := trail.starts g first
    have nonempty : frames ≠ [] := by
      rintro rfl
      cases first
    rw [place]
    exact ⟨keeps.leads, upward nonempty⟩

theorem of_cons {f : UInt64 × UInt64} (trail : Trail memory first (f :: frames)) :
    f.1 = first ∧ ∃ next, Keeps memory first f.2 next ∧ Trail memory next frames ∧
      (frames ≠ [] → first < next) := by
  have start : f.1 = first := trail.starts f rfl
  obtain ⟨⟨next, keeps⟩, others⟩ := List.forall_mem_cons.mp trail.keeps
  obtain ⟨joint, chain⟩ := List.isChain_cons.mp trail.upward
  rw [start] at keeps
  have follows (g : UInt64 × UInt64) (h : g ∈ frames.head?) : g.1 = next ∧ first < next := by
    obtain ⟨leads, above⟩ := joint g h
    rw [start, keeps.leads] at leads
    rw [start, ← Option.some.inj leads] at above
    exact ⟨(Option.some.inj leads).symm, above⟩
  refine ⟨start, next, keeps, ⟨fun g h => (follows g h).1, others, chain⟩, ?_⟩
  intro nonempty
  obtain ⟨g, rest, rfl⟩ := List.exists_cons_of_ne_nil nonempty
  exact (follows g rfl).2

theorem pairwise_lt (trail : Trail memory first frames) :
    (frames.map (·.1)).Pairwise (· < ·) := by
  have trans : IsTrans (UInt64 × UInt64) fun f g => f.1 < g.1 := ⟨fun _ _ _ => UInt64.lt_trans⟩
  have upward := trail.upward.imp (S := fun f g => f.1 < g.1) fun _ _ step => step.2
  rw [List.pairwise_map]
  exact List.isChain_iff_pairwise.mp upward

/-- Frames are a word or more apart, so the address space bounds their number. -/
theorem length_le (trail : Trail memory first frames) :
    8 * frames.length ≤ UInt64.size - first.toNat := by
  induction frames generalizing first with
  | nil => simp
  | cons f frames ih =>
    obtain ⟨_, next, keeps, further, upward⟩ := trail.of_cons
    obtain ⟨above, place, _⟩ := keeps.kept
    have inside := above.toNat_lt_size
    have rest := ih further
    cases frames with
    | nil =>
      rw [List.length_singleton]
      omega
    | cons g frames =>
      obtain ⟨_, _, keeps', _⟩ := further.of_cons
      have higher := UInt64.lt_iff_toNat_lt.mp (upward (List.cons_ne_nil _ _))
      have aligned := keeps.aligned
      have aligned' := keeps'.aligned
      rw [List.length_cons]
      omega

end Trail

/-! ## The longest trail -/

namespace Longest

/-- A trail begins only at a frame that is kept. -/
theorem nil (nothing : ∀ ret next, ¬ Keeps memory first ret next) : Longest memory first [] := by
  refine ⟨.nil, ?_⟩
  intro others trail
  cases others with
  | nil => exact List.nil_prefix
  | cons f others =>
    obtain ⟨_, next, keeps, _⟩ := trail.of_cons
    exact absurd keeps (nothing _ _)

theorem last (keeps : Keeps memory first ret next) (downward : ¬ first < next) :
    Longest memory first [(first, ret)] := by
  refine ⟨Trail.nil.cons keeps fun some => absurd rfl some, ?_⟩
  intro others trail
  cases others with
  | nil => exact List.nil_prefix
  | cons f others =>
    obtain ⟨start, next', keeps', _, above⟩ := trail.of_cons
    obtain ⟨same, rfl⟩ := keeps.unique keeps'
    have ends : others = [] := by
      by_contra more
      exact downward (above more)
    rw [ends, List.cons_prefix_cons]
    exact ⟨Prod.ext start same.symm, List.nil_prefix⟩

theorem cons (keeps : Keeps memory first ret next) (upward : first < next)
    (longest : Longest memory next frames) : Longest memory first ((first, ret) :: frames) := by
  refine ⟨longest.toTrail.cons keeps fun _ => upward, ?_⟩
  intro others trail
  cases others with
  | nil => exact List.nil_prefix
  | cons f others =>
    obtain ⟨start, next', keeps', further, _⟩ := trail.of_cons
    obtain ⟨same, rfl⟩ := keeps.unique keeps'
    rw [List.cons_prefix_cons]
    exact ⟨Prod.ext start same.symm, longest.greatest others further⟩

end Longest

/-- By induction on what is left of the address space above the frame. -/
theorem exists_longest (memory : Memory) (first : UInt64) :
    ∃ whole, Longest memory first whole ∧
      ∀ n, returns memory n first = (whole.map (·.2)).take n := by
  induction room : UInt64.size - first.toNat using Nat.strongRecOn generalizing first with
  | _ room' ih =>
    by_cases kept : ∃ ret next, Keeps memory first ret next
    · obtain ⟨ret, next, keeps⟩ := kept
      by_cases upward : first < next
      · have higher := UInt64.lt_iff_toNat_lt.mp upward
        have inside := next.toNat_lt_size
        obtain ⟨whole, longest, walked⟩ := ih _ (by omega) next rfl
        refine ⟨(first, ret) :: whole, longest.cons keeps upward, ?_⟩
        intro n
        cases n with
        | zero => rfl
        | succ n =>
          rw [returns_of_keeps keeps, if_pos upward, walked, List.map_cons, List.take_succ_cons]
      · refine ⟨[(first, ret)], .last keeps upward, ?_⟩
        intro n
        cases n with
        | zero => rfl
        | succ n =>
          rw [returns_of_keeps keeps, if_neg upward, List.map_cons, List.map_nil,
            List.take_succ_cons, List.take_nil]
    · have nothing : ∀ ret next, ¬ Keeps memory first ret next := by
        intro ret next keeps
        exact kept ⟨ret, next, keeps⟩
      refine ⟨[], .nil nothing, ?_⟩
      intro n
      rw [returns_of_not_keeps nothing, List.map_nil, List.take_nil]

/-- **A walk takes the return addresses along the longest trail.** The instruction pointer comes
first, whatever the limit is. The trail ends by itself, never comes back to a frame, and keeps no
return address that is zero. A smaller limit gives the beginning of what a larger one gives. -/
theorem addresses_longest_trail (memory : Memory) (t : Trap) :
    ∃ whole, Longest memory t.fp whole ∧
      8 * whole.length ≤ UInt64.size ∧ (whole.map (·.1)).Pairwise (· < ·) ∧
      (∀ limit, addresses memory limit t = (t.ip :: whole.map (·.2)).take (max 1 limit)) ∧
      (∀ limit, (addresses memory limit t).length ≤ max 1 limit ∧
        ∀ a ∈ (addresses memory limit t).tail, a ≠ 0) ∧
      ∀ small large, small ≤ large →
        addresses memory small t = (addresses memory large t).take (max 1 small) := by
  obtain ⟨whole, longest, walked⟩ := exists_longest memory t.fp
  have cut (limit : Nat) :
      addresses memory limit t = (t.ip :: whole.map (·.2)).take (max 1 limit) := by
    have one : max 1 limit = (limit - 1) + 1 := by omega
    rw [addresses, walked, one, List.take_succ_cons]
  refine ⟨whole, longest, ?_, longest.pairwise_lt, cut, ?_, ?_⟩
  · have bound := longest.length_le
    exact Nat.le_trans bound (Nat.sub_le _ _)
  · intro limit
    constructor
    · rw [cut]
      exact List.length_take_le _ _
    · intro a ha
      rw [addresses, List.tail_cons, walked] at ha
      obtain ⟨f, hf, rfl⟩ := List.mem_map.mp (List.mem_of_mem_take ha)
      obtain ⟨next, keeps⟩ := longest.keeps f hf
      exact keeps.returns
  · intro small large le
    rw [cut, cut, List.take_take]
    congr 1
    omega

/-- The second frame leads back to the first. -/
theorem addresses_longest_trail_loop :
    let memory : Memory := fun a =>
      [(16, 48), (24, 700), (48, 16), (56, 701)].lookup a
    let t : Trap := ⟨99, 16⟩
    2 ≤ 64 ∧ addresses memory 64 t = [99, 700, 701] ∧ addresses memory 2 t = [99, 700] ∧
      addresses memory 0 t = [99] := by
  intro memory t
  obtain ⟨_, _, _, _, _, _, shorter⟩ := addresses_longest_trail memory t
  have whole : addresses memory 64 t = [99, 700, 701] := by decide
  have two := shorter 2 64 (by decide)
  have none := shorter 0 64 (by decide)
  rw [whole] at two none
  exact ⟨by decide, whole, two, none⟩

end Postmortem.Trap
