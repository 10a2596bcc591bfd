import Bison.Rmi.GroupRuns

/-!
# Generated ids

`generate_id` (shared/ids.cpp) steps a 32-bit counter by an odd number and mixes its bits. Both
can be undone, so the ids do not repeat until the counter has wrapped, and 0 is one of them.

- `World.distinct_of_generated`: the ids of a session are distinct while its process has generated
  at most 2^32.
-/

namespace Bison

/-- The step of the counter (ids.cpp:33). -/
def kGoldenStep : UInt32 := 0x9e3779b9

/-- `mix32` (ids.cpp:17). -/
def mix32 (x : UInt32) : UInt32 :=
  let x := x ^^^ (x >>> 16)
  let x := x * 0x7feb352d
  let x := x ^^^ (x >>> 15)
  let x := x * 0x846ca68b
  x ^^^ (x >>> 16)

/-- What the calls of `generate_id` give, one after the other. -/
def generatedIds (seed : UInt32) (n : Nat) : Key := mix32 (seed + UInt32.ofNat n * kGoldenStep)

/-! ## The mix can be undone -/

/-- The bits are found again from the top: the highest `s` are as they were, and each of the
others was mixed with one above it. -/
theorem xorShift_injective {w s : Nat} (hs : 0 < s) :
    Function.Injective fun x : BitVec w => x ^^^ (x >>> s) := by
  intro x y heq
  have hmixed (i : Nat) : (x.getLsbD i ^^ x.getLsbD (s + i)) =
    (y.getLsbD i ^^ y.getLsbD (s + i)) := by
    have := congrArg (fun v => v.getLsbD i) heq
    simpa using this
  -- Above the top, all bits are 0.
  have hbits (n i : Nat) (hi : w ≤ i + n) : x.getLsbD i = y.getLsbD i := by
    induction n using Nat.strong_induction_on generalizing i with
    | _ n ih =>
      by_cases htop : w ≤ i
      · rw [BitVec.getLsbD_of_ge _ _ htop, BitVec.getLsbD_of_ge _ _ htop]
      · have hhigher : x.getLsbD (s + i) = y.getLsbD (s + i) := by
          rcases Nat.lt_or_ge n s with hlt | hge
          · rw [BitVec.getLsbD_of_ge _ _ (by omega), BitVec.getLsbD_of_ge _ _ (by omega)]
          · exact ih (n - s) (by omega) (s + i) (by omega)
        have := hmixed i
        rw [hhigher] at this
        simpa using this
  exact BitVec.eq_of_getLsbD_eq fun i _ => hbits w i (Nat.le_add_left _ _)

theorem xorShift_injective_word {s : UInt32} (hs : 0 < s.toNat % 32) :
    Function.Injective fun x : UInt32 => x ^^^ (x >>> s) := by
  intro x y heq
  refine UInt32.toBitVec_inj.1 (xorShift_injective hs ?_)
  have := congrArg UInt32.toBitVec heq
  simpa [UInt32.toBitVec_shiftRight] using this

/-- Multiplying by a number with an inverse can be undone. -/
theorem mul_injective {c : UInt32} (c' : UInt32) (hinverse : c * c' = 1) :
    Function.Injective fun x : UInt32 => x * c := by
  refine Function.LeftInverse.injective (g := fun x => x * c') fun x => ?_
  simp only [UInt32.mul_assoc, hinverse, UInt32.mul_one]

theorem mix32_injective : Function.Injective mix32 := by
  have h16 : Function.Injective fun x : UInt32 => x ^^^ (x >>> 16) :=
    xorShift_injective_word (by decide)
  have h15 : Function.Injective fun x : UInt32 => x ^^^ (x >>> 15) :=
    xorShift_injective_word (by decide)
  have hfirst : Function.Injective fun x : UInt32 => x * 0x7feb352d :=
    mul_injective 0x1d69e2a5 (by decide)
  have hsecond : Function.Injective fun x : UInt32 => x * 0x846ca68b :=
    mul_injective 0x43021123 (by decide)
  exact h16.comp (hsecond.comp (h15.comp (hfirst.comp h16)))

/-! ## Distinct ids -/

theorem generatedIds_eq_iff (seed : UInt32) (i j : Nat) :
    generatedIds seed i = generatedIds seed j ↔ i % 2 ^ 32 = j % 2 ^ 32 := by
  have hstep : Function.Injective fun x : UInt32 => x * kGoldenStep :=
    mul_injective 0x144cbc89 (by decide)
  unfold generatedIds
  rw [mix32_injective.eq_iff, UInt32.add_right_inj, hstep.eq_iff, ← UInt32.toNat_inj,
    UInt32.toNat_ofNat', UInt32.toNat_ofNat']

variable {μ σ : Type}

/-- A session gets some of the ids that its process generates, in their order. They are distinct
until the process has generated 2^32. -/
theorem World.distinct_of_generated {w : World μ σ} {seed : UInt32} {turn : Nat → Nat}
    (hids : ∀ n, w.ids n = generatedIds seed (turn n)) (hturn : StrictMono turn)
    (hfew : ∀ n < w.drawn, turn n < 2 ^ 32) : w.Distinct := by
  intro i hi j hj heq
  rw [hids, hids, generatedIds_eq_iff, Nat.mod_eq_of_lt (hfew i hi),
    Nat.mod_eq_of_lt (hfew j hj)] at heq
  exact hturn.injective heq

end Bison
