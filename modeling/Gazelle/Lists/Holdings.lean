import Mathlib.Data.List.Nodup
import Mathlib.Data.List.Perm.Subperm

/-!
# Objects that are held and released

An owner takes objects, holds them for a while and releases them. What it has taken is what it
holds and what it has released, with how often: no object is lost, and none is in two places.

* `Holdings.Takes`: one owner, or several, take objects and release some;
* `Holdings.Takes.trans`, `Holdings.Takes.append`: one step after another, and owners side by side;
* `Holdings.Takes.nodup`: different objects stay different.
-/

/-- The objects that are held, and those that were released. -/
structure Holdings (α : Type*) where
  /-- What is held. -/
  held : List α
  /-- What was released. -/
  released : List α

namespace Holdings

variable {α κ : Type*} [DecidableEq α] {h h' h'' g g' : Holdings α} {new new' : List α}

/-- Owners side by side. -/
def append (h g : Holdings α) : Holdings α := ⟨h.held ++ g.held, h.released ++ g.released⟩

/-- From `h` to `h'`, the objects `new` are taken; some of those that were held and of the new ones
are released, and nothing that was released comes back. -/
structure Takes (new : List α) (h h' : Holdings α) : Prop where
  /-- Nothing is lost and nothing is doubled. -/
  total : ∀ x, h'.held.count x + h'.released.count x =
    h.held.count x + h.released.count x + new.count x
  /-- What was released stays so. -/
  mono : ∀ x, h.released.count x ≤ h'.released.count x

namespace Takes

/-- Nothing happens. -/
theorem refl (h : Holdings α) : Takes [] h h := ⟨fun _ => rfl, fun _ => Nat.le_refl _⟩

/-- One step after another. -/
theorem trans (h₁ : Takes new h h') (h₂ : Takes new' h' h'') : Takes (new ++ new') h h'' where
  total x := by
    have := h₁.total x
    have := h₂.total x
    rw [List.count_append]
    omega
  mono x := Nat.le_trans (h₁.mono x) (h₂.mono x)

/-- Owners side by side. -/
theorem append (h₁ : Takes new h h') (h₂ : Takes new' g g') :
    Takes (new ++ new') (h.append g) (h'.append g') where
  total x := by
    have := h₁.total x
    have := h₂.total x
    simp only [Holdings.append, List.count_append]
    omega
  mono x := by
    have := h₁.mono x
    have := h₂.mono x
    simp only [Holdings.append, List.count_append]
    omega

/-- The objects of the first owner are taken. -/
theorem append_left (h₁ : Takes new h h') (g : Holdings α) :
    Takes new (h.append g) (h'.append g) := by
  have hboth := h₁.append (refl g)
  rwa [List.append_nil] at hboth

/-- The objects of the second owner are taken. -/
theorem append_right (h₁ : Takes new h h') (g : Holdings α) :
    Takes new (g.append h) (g.append h') := (refl g).append h₁

/-- What is held was held before or is new. -/
theorem held_subperm (h₁ : Takes new h h') : h'.held.Subperm (h.held ++ new) := by
  refine List.subperm_ext_iff.2 fun x _ => ?_
  have := h₁.total x
  have := h₁.mono x
  rw [List.count_append]
  omega

/-- Objects with different keys are held afterwards. -/
theorem nodup (h₁ : Takes new h h') {key : α → κ} (hkeys : ((h.held ++ new).map key).Nodup) :
    (h'.held.map key).Nodup := by
  obtain ⟨l, hperm, hsub⟩ := h₁.held_subperm
  exact ((hperm.map key).nodup_iff).1 (hkeys.sublist (hsub.map key))

/-- An object of somebody else stays different from those that are held. -/
theorem nodup_cons (h₁ : Takes new h h') {key : α → κ} {x : α}
    (hkeys : ((x :: h.held ++ new).map key).Nodup) : ((x :: h'.held).map key).Nodup :=
  (h₁.append_right ⟨[x], []⟩).nodup hkeys

end Takes

end Holdings
