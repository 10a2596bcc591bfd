import Mathlib.Logic.Relation
import Mathlib.Order.WellFoundedSet

/-!
# Sharing

What is reached from the roots of a graph, and what two roots share, as the edges change.

- `Closed S`: no edge leads out of `S`, so what is reached from it is in it.
- `Acyclic a`: nothing that is reached from `a` is on a cycle. `Acyclic.induct` is induction from
  the leaves.
- `Separate a b`: nothing is reached from both.
-/

namespace Graph

variable {α : Type} {edge edge' : α → α → Prop} {S T : α → Prop} {a b c : α}

abbrev Reach (edge : α → α → Prop) : α → α → Prop := Relation.ReflTransGen edge

/-- No edge leads out of `S`. -/
def Closed (edge : α → α → Prop) (S : α → Prop) : Prop := ∀ a b, S a → edge a b → S b

theorem Closed.reach (h : Closed edge S) (ha : S a) (hreach : Reach edge a b) : S b := by
  induction hreach with
  | refl => exact ha
  | tail _ hedge ih => exact h _ _ ih hedge

theorem closed_reach (edge : α → α → Prop) (a : α) : Closed edge (Reach edge a) :=
  fun _ _ hreach hedge => hreach.tail hedge

/-- Inside a closed set the edges can be exchanged. -/
theorem Closed.reach_mono (h : Closed edge S) (hedge : ∀ x y, S x → edge x y → edge' x y)
    (ha : S a) (hreach : Reach edge a b) : Reach edge' a b := by
  induction hreach with
  | refl => exact .refl
  | tail hprefix hlast ih => exact ih.tail (hedge _ _ (h.reach ha hprefix) hlast)

/-! ## Cycles -/

/-- Nothing that is reached from `a` is on a cycle. -/
def Acyclic (edge : α → α → Prop) (a : α) : Prop :=
  ∀ b, Reach edge a b → ¬ Relation.TransGen edge b b

theorem Acyclic.next (h : Acyclic edge a) (hedge : edge a b) : Acyclic edge b :=
  fun c hreach => h c (hreach.head hedge)

/-- Where there are finitely many nodes, a property that every node has from the nodes it leads to
holds of the acyclic ones. -/
theorem Acyclic.induct {P : α → Prop} (hfinite : {x | S x}.Finite) (hclosed : Closed edge S)
    (h : Acyclic edge a) (ha : S a) (ih : ∀ x, S x → (∀ y, edge x y → P y) → P x) : P a := by
  -- The edges between the nodes that are reached from `a`, backwards, are well founded.
  set r : α → α → Prop := Relation.TransGen fun y x => Reach edge a x ∧ edge x y with hr
  have hcycle {x y : α} (hxy : r y x) : Reach edge a x ∧ Relation.TransGen edge x y := by
    induction hxy using Relation.TransGen.head_induction_on with
    | single hlast => exact ⟨hlast.1, .single hlast.2⟩
    | head hfirst _ ih => exact ⟨ih.1, ih.2.tail hfirst.2⟩
  have : IsStrictOrder α r := {
    irrefl := fun x hx => h x (hcycle hx).1 (hcycle hx).2
    trans := fun _ _ _ hxy hyz => hxy.trans hyz }
  have hfounded : {x | S x}.WellFoundedOn r := hfinite.wellFoundedOn
  have hreached : ∀ x, S x → Reach edge a x → P x := fun x hx =>
    hfounded.induction hx (P := fun x => Reach edge a x → P x) fun x hx ih' hreach =>
      ih x hx fun y hedge => ih' y (hclosed _ _ hx hedge) (.single ⟨hreach, hedge⟩)
        (hreach.tail hedge)
  exact hreached a ha .refl

/-! ## What is reached from two roots -/

/-- Nothing is reached from both. -/
def Separate (edge : α → α → Prop) (a b : α) : Prop := ∀ c, Reach edge a c → ¬ Reach edge b c

theorem Separate.symm (h : Separate edge a b) : Separate edge b a := fun c hb ha => h c ha hb

theorem Separate.of_closed (hS : Closed edge S) (hT : Closed edge T) (hdisjoint : ∀ x, S x → ¬ T x)
    (ha : S a) (hb : T b) : Separate edge a b :=
  fun c hac hbc => hdisjoint c (hS.reach ha hac) (hT.reach hb hbc)

theorem Separate.reach (h : Separate edge a b) (hreach : Reach edge a c) : Separate edge c b :=
  fun d hcd => h d (hreach.trans hcd)

theorem closed_separate (edge : α → α → Prop) (b : α) : Closed edge fun a => Separate edge a b :=
  fun _ _ h hedge => h.reach (.single hedge)

/-- New edges lead from what is reached from `a` to what shares nothing with `b`. -/
theorem Separate.link (h : Separate edge a b)
    (hedge : ∀ x y, edge' x y → edge x y ∨ Reach edge a x ∧ Separate edge y b) :
    Separate edge' a b := by
  have hS : Closed edge' fun x => Separate edge x b := by
    intro x y hx hxy
    rcases hedge x y hxy with hold | ⟨-, hy⟩
    · exact hx.reach (.single hold)
    · exact hy
  have hT : Closed edge' (Reach edge b) := by
    intro x y hx hxy
    rcases hedge x y hxy with hold | ⟨hax, -⟩
    · exact hx.tail hold
    · exact (h x hax hx).elim
  exact .of_closed hS hT (fun x hx hbx => hx x .refl hbx) h .refl

/-- New nodes are reached from one node only, of those that were there. -/
theorem Separate.grow {old new : α → Prop} (h : Separate edge a b) (hold : Closed edge old)
    (hnew : Closed edge' new) (hdisjoint : ∀ x, old x → ¬ new x)
    (hedge : ∀ x y, old x → edge' x y → edge x y ∨ x = c ∧ new y) (ha : old a) (hb : old b) :
    Separate edge' a b := by
  -- What is reached from a root is what was, and new nodes if the one node is among it.
  have hgrown (d : α) (hd : old d) :
      Closed edge' fun x => Reach edge d x ∨ Reach edge d c ∧ new x := by
    rintro x y (hx | ⟨hc, hx⟩) hxy
    · rcases hedge x y (hold.reach hd hx) hxy with hxy | ⟨rfl, hy⟩
      · exact .inl (hx.tail hxy)
      · exact .inr ⟨hx, hy⟩
    · exact .inr ⟨hc, hnew x y hx hxy⟩
  refine .of_closed (hgrown a ha) (hgrown b hb) ?_ (.inl .refl) (.inl .refl)
  rintro x (hax | ⟨hac, hx⟩) (hbx | ⟨hbc, hx'⟩)
  · exact h x hax hbx
  · exact hdisjoint x (hold.reach ha hax) hx'
  · exact hdisjoint x (hold.reach hb hbx) hx
  · exact h c hac hbc

end Graph
