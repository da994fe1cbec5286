import Mathlib.Logic.Function.Basic
import HtmlWalk.Proofs.Walk.Basic

/-!
# Attempts

An attempt keeps of a run what it does if it succeeds, and forgets why it fails. Runs that differ
in the order of their calls may fail for different reasons, but they can still be equal as attempts.

Two attempts *commute* if they can be made in either order, whatever follows. Attempts that each
read and write the state of one kind only, and not of the same kind, commute (`Within.commutes`),
and so do the attempts built of such ones. A list that is gone through twice, by attempts that
commute, can as well be gone through once (`mapM_bind_mapM`).
-/

namespace HtmlWalk

variable {σ ε α β γ : Type}

/-- What changes a state and gives a value, or fails. -/
abbrev Attempt (σ α : Type) := StateT σ Option α

/-! ## Runs as attempts -/

namespace Run

/-- What a run does if it succeeds. -/
def ok? (x : Run σ ε α) : Attempt σ α := fun s =>
  match x s with
  | (.ok a, t) => some (a, t)
  | (.error _, _) => none

theorem ok?_eq_some_iff {x : Run σ ε α} {s t : σ} {a : α} :
    x.ok? s = some (a, t) ↔ x s = (.ok a, t) := by
  unfold ok?
  rcases x s with ⟨e | b, u⟩
  · exact ⟨nofun, nofun⟩
  · constructor <;> intro h <;> cases h <;> rfl

@[simp] theorem ok?_pure (a : α) : (pure a : Run σ ε α).ok? = pure a := rfl

@[simp] theorem ok?_bind (x : Run σ ε α) (f : α → Run σ ε β) :
    (x >>= f).ok? = x.ok? >>= fun a => (f a).ok? := by
  funext s
  show _ = (x.ok? s).bind fun p => (f p.1).ok? p.2
  rcases h : x s with ⟨e | a, t⟩
  · simp only [ok?, Run.bind_of_error h, h, Option.bind_none]
  · simp only [ok?, Run.bind_of_ok h, h, Option.bind_some]

@[simp] theorem ok?_map (f : α → β) (x : Run σ ε α) : (f <$> x).ok? = f <$> x.ok? := by
  rw [map_eq_pure_bind, ok?_bind, map_eq_pure_bind]
  rfl

@[simp] theorem ok?_lift (x : Run σ ε α) : (Run.lift x).ok? = x.ok? := by
  funext s
  unfold ok? lift
  rcases x s with ⟨e | a, t⟩ <;> rfl

theorem ok?_foldlM {ι : Type} (f : α → ι → Run σ ε α) (is : List ι) (a : α) :
    (is.foldlM f a).ok? = is.foldlM (fun b i => (f b i).ok?) a := by
  induction is generalizing a with
  | nil => rfl
  | cons i is ih => simp only [List.foldlM_cons, ok?_bind, ih]

end Run

namespace Attempt

/-! ## What comes out -/

/-- Every value that an attempt gives satisfies `P`. -/
def Yields (P : α → Prop) (x : Attempt σ α) : Prop := ∀ ⦃s a t⦄, x s = some (a, t) → P a

theorem bind_apply (x : Attempt σ α) (f : α → Attempt σ β) (s : σ) :
    (x >>= f) s = (x s).bind fun p => f p.1 p.2 := rfl

theorem map_apply (f : α → β) (x : Attempt σ α) (s : σ) :
    (f <$> x) s = (x s).map fun p => (f p.1, p.2) := by
  rw [map_eq_pure_bind, bind_apply, Option.map_eq_bind]
  rfl

theorem Yields.pure {P : α → Prop} {a : α} (h : P a) : Yields P (pure a : Attempt σ α) :=
  fun _ _ _ hp => by cases hp; exact h

/-- What follows an attempt matters only for the values it gives. -/
theorem Yields.bind_congr {P : α → Prop} {x : Attempt σ α} (hx : Yields P x)
    {f g : α → Attempt σ β} (hfg : ∀ a, P a → f a = g a) : x >>= f = x >>= g := by
  funext s
  rw [bind_apply, bind_apply]
  cases h : x s with
  | none => rfl
  | some p => exact congrFun (hfg p.1 (hx h)) p.2

/-! ## Commuting -/

/-- Two attempts can be made in either order, whatever follows. -/
def Commutes (x : Attempt σ α) (y : Attempt σ β) : Prop :=
  ∀ (γ : Type) (f : α → β → Attempt σ γ),
    (do let a ← x; let b ← y; f a b) = (do let b ← y; let a ← x; f a b)

namespace Commutes

variable {x : Attempt σ α} {y : Attempt σ β}

theorem symm (h : Commutes x y) : Commutes y x := fun γ f =>
  (h γ fun a b => f b a).symm

theorem pure_left (a : α) (y : Attempt σ β) : Commutes (pure a) y := fun _ f => by
  simp only [pure_bind]

theorem failure_left (y : Attempt σ β) : Commutes (failure : Attempt σ α) y := by
  intro γ f
  funext s
  show none = (y s).bind fun _ => none
  cases y s <;> rfl

theorem bind_left {g : α → Attempt σ γ} (hx : Commutes x y) (hg : ∀ a, Commutes (g a) y) :
    Commutes (x >>= g) y := by
  intro δ f
  calc (do let c ← x >>= g; let b ← y; f c b)
    _ = (do let a ← x; let c ← g a; let b ← y; f c b) := bind_assoc ..
    _ = (do let a ← x; let b ← y; let c ← g a; f c b) := bind_congr fun a => hg a δ f
    _ = (do let b ← y; let a ← x; let c ← g a; f c b) := hx δ fun a b => g a >>= fun c => f c b
    _ = (do let b ← y; let c ← x >>= g; f c b) := bind_congr fun b => (bind_assoc ..).symm

theorem mapM_left {g : γ → Attempt σ α} {cs : List γ} (h : ∀ c ∈ cs, Commutes (g c) y) :
    Commutes (cs.mapM g) y := by
  induction cs with
  | nil => exact pure_left [] y
  | cons c cs ih =>
    rw [List.mapM_cons]
    refine (h c List.mem_cons_self).bind_left ?_
    intro a
    refine (ih fun d hd => h d (List.mem_cons_of_mem c hd)).bind_left ?_
    intro as
    exact pure_left (a :: as) y

end Commutes

/-- **One pass for two.** A list gone through by attempts `g` after attempts `f` that commute with
them can be gone through once. -/
theorem mapM_bind_mapM {f : α → Attempt σ β} {g : β → Attempt σ γ}
    (hfg : ∀ a b, Commutes (f a) (g b)) (as : List α) :
    (do let bs ← as.mapM f; bs.mapM g) = as.mapM fun a => f a >>= g := by
  induction as with
  | nil => rfl
  | cons a as ih =>
    have hcomm := fun b => Commutes.mapM_left fun a' (_ : a' ∈ as) => hfg a' b
    simp only [List.mapM_cons, bind_assoc, pure_bind]
    apply bind_congr
    intro b
    rw [hcomm b]
    apply bind_congr
    intro c
    rw [← ih, bind_assoc]

/-! ## Separate states -/

variable {τ : Kind → Type} {k l : Kind}

/-- An attempt reads and writes the state of one kind only. -/
def Within (k : Kind) (x : Attempt (∀ k, τ k) α) : Prop :=
  ∃ act : τ k → Option (α × τ k), ∀ s, x s = (act (s k)).map fun p => (p.1, Function.update s k p.2)

theorem Within.pure (k : Kind) (a : α) : Within k (pure a : Attempt (∀ k, τ k) α) :=
  ⟨fun t => some (a, t), fun s => by rw [Option.map_some, Function.update_eq_self]; rfl⟩

/-- Attempts that use the states of different kinds commute. -/
theorem Within.commutes (hkl : k ≠ l) {x : Attempt (∀ k, τ k) α} {y : Attempt (∀ k, τ k) β}
    (hx : Within k x) (hy : Within l y) : Commutes x y := by
  obtain ⟨act, hx⟩ := hx
  obtain ⟨bct, hy⟩ := hy
  intro γ f
  funext s
  simp only [bind_apply, hx, hy]
  cases hact : act (s k) <;> cases hbct : bct (s l) <;>
    simp [hact, hbct, Function.update_of_ne hkl, Function.update_of_ne hkl.symm,
      Function.update_comm hkl]

end Attempt

end HtmlWalk
