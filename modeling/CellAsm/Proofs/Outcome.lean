-- SUMMARY: What the success or failure of a computation in steps says about its steps.
import Mathlib.Data.List.Forall2

/-!
# Outcomes of computations in steps

A computation that may fail succeeds exactly when each of its steps does. The
lemmas here take such a computation apart once, so that no later proof has to
unfold a sequence of steps.
-/
namespace CellAsm

variable {ε ε' α β : Type}

@[simp] theorem bind_eq_ok {x : Except ε α} {f : α → Except ε β} {b : β} :
    x >>= f = .ok b ↔ ∃ a, x = .ok a ∧ f a = .ok b := by
  cases x with
  | error e => simp [bind, Except.bind]
  | ok a => simp [bind, Except.bind]

@[simp] theorem ok_bind (a : α) (f : α → Except ε β) : Except.ok a >>= f = f a := rfl

/-- What follows a step matters only for its result. -/
theorem bind_congr_of_ok {x : Except ε α} {f g : α → Except ε β}
    (h : ∀ a, x = .ok a → f a = g a) : x >>= f = x >>= g := by
  cases x with
  | error => rfl
  | ok a => exact h a rfl

theorem bind_eq_error {x : Except ε α} {f : α → Except ε β} {e : ε} :
    x >>= f = .error e ↔ x = .error e ∨ ∃ a, x = .ok a ∧ f a = .error e := by
  cases x with
  | error e' => simp [bind, Except.bind]
  | ok a => simp [bind, Except.bind]

@[simp] theorem map_eq_ok {x : Except ε α} {f : α → β} {b : β} :
    f <$> x = .ok b ↔ ∃ a, x = .ok a ∧ f a = b := by
  cases x with
  | error e => simp [Functor.map, Except.map]
  | ok a => simp [Functor.map, Except.map]

theorem pure_eq (a : α) : (pure a : Except ε α) = .ok a := rfl

@[simp] theorem pure_eq_ok {a b : α} : (pure a : Except ε α) = .ok b ↔ a = b := by
  simp [pure, Except.pure]

@[simp] theorem mapError_eq_ok {x : Except ε α} {f : ε → ε'} {a : α} :
    x.mapError f = .ok a ↔ x = .ok a := by
  cases x with
  | error e => simp [Except.mapError]
  | ok b => simp [Except.mapError]

theorem toOption_eq_some {x : Except ε α} {a : α} : x.toOption = some a ↔ x = .ok a := by
  cases x with
  | error e => simp [Except.toOption]
  | ok b => simp [Except.toOption]

theorem mapM_eq_ok {f : α → Except ε β} {l : List α} {r : List β} :
    l.mapM f = .ok r ↔ List.Forall₂ (fun a b => f a = .ok b) l r := by
  induction l generalizing r with
  | nil =>
    rw [List.mapM_nil, pure_eq_ok, List.forall₂_nil_left_iff]
    exact eq_comm
  | cons a l ih =>
    simp only [List.mapM_cons, bind_eq_ok, pure_eq_ok, List.forall₂_cons_left_iff, ih]
    constructor
    · rintro ⟨b, hb, bs, hbs, rfl⟩
      exact ⟨b, bs, hb, hbs, rfl⟩
    · rintro ⟨b, bs, hb, hbs, rfl⟩
      exact ⟨b, hb, bs, hbs, rfl⟩

/-- A traversal fails as one of its steps does. -/
theorem exists_of_mapM_eq_error {f : α → Except ε β} {l : List α} {e : ε}
    (h : l.mapM f = .error e) : ∃ a ∈ l, f a = .error e := by
  induction l with
  | nil => cases h
  | cons a l ih =>
    simp only [List.mapM_cons, bind_eq_error] at h
    rcases h with h | ⟨b, _, h | ⟨bs, _, h⟩⟩
    · exact ⟨a, List.mem_cons_self, h⟩
    · obtain ⟨a', ha', h⟩ := ih h
      exact ⟨a', List.mem_cons_of_mem a ha', h⟩
    · cases h

theorem forall₂_getElem?_left {R : α → β → Prop} {l : List α} {r : List β} (h : List.Forall₂ R l r)
    {i : Nat} {a : α} (hi : l[i]? = some a) : ∃ b, r[i]? = some b ∧ R a b := by
  induction h generalizing i with
  | nil => cases hi
  | @cons a' b' _ _ hab _ ih =>
    cases i with
    | zero =>
      cases hi
      exact ⟨b', rfl, hab⟩
    | succ i => exact ih hi

theorem forall₂_getElem?_right {R : α → β → Prop} {l : List α} {r : List β}
    (h : List.Forall₂ R l r) {i : Nat} {b : β} (hi : r[i]? = some b) :
    ∃ a, l[i]? = some a ∧ R a b :=
  forall₂_getElem?_left h.flip hi

theorem forall₂_of_getElem? {R : α → β → Prop} {l : List α} {r : List β}
    (hlength : l.length = r.length)
    (h : ∀ {i : Nat} {a b}, l[i]? = some a → r[i]? = some b → R a b) : List.Forall₂ R l r := by
  refine List.forall₂_iff_get.2 ⟨hlength, fun i hl hr => ?_⟩
  exact h (List.getElem?_eq_getElem hl) (List.getElem?_eq_getElem hr)

theorem forM_eq_ok {f : α → Except ε Unit} {l : List α} :
    l.forM f = .ok () ↔ ∀ a ∈ l, f a = .ok () := by
  induction l with
  | nil => simp [List.forM]
  | cons a l ih =>
    rw [List.forM, bind_eq_ok, List.forall_mem_cons, ih]
    constructor
    · rintro ⟨_, ha, hl⟩
      exact ⟨ha, hl⟩
    · rintro ⟨ha, hl⟩
      exact ⟨(), ha, hl⟩

/-! ## How a computation ends -/

/-- The computation succeeds with a result that has the property `P`, or it fails with an
error that has the property `Q`. -/
inductive Ends (P : α → Prop) (Q : ε → Prop) : Except ε α → Prop
  | ok {a : α} (h : P a) : Ends P Q (.ok a)
  | error {e : ε} (h : Q e) : Ends P Q (.error e)

namespace Ends

variable {P : α → Prop} {Q : ε → Prop} {x : Except ε α}

theorem of_ok {a : α} (h : Ends P Q (.ok a : Except ε α)) : P a := by
  cases h with
  | ok h => exact h

theorem of_error {e : ε} (h : Ends P Q (.error e : Except ε α)) : Q e := by
  cases h with
  | error h => exact h

theorem bind {R : β → Prop} {f : α → Except ε β} (hx : Ends P Q x)
    (hf : ∀ a, P a → Ends R Q (f a)) : Ends R Q (x >>= f) := by
  cases hx with
  | ok h => exact hf _ h
  | error h => exact .error h

theorem mapError {Q : ε' → Prop} {f : ε → ε'} (h : Ends P (fun e => Q (f e)) x) :
    Ends P Q (x.mapError f) := by
  cases h with
  | ok h => exact .ok h
  | error h => exact .error h

theorem mapM {R : β → Prop} {f : α → Except ε β} {l : List α} (h : ∀ a ∈ l, Ends R Q (f a)) :
    Ends (fun r => ∀ b ∈ r, R b) Q (l.mapM f) := by
  induction l with
  | nil => exact .ok (List.forall_mem_nil _)
  | cons a l ih =>
    obtain ⟨ha, hl⟩ := List.forall_mem_cons.1 h
    rw [List.mapM_cons]
    refine ha.bind fun b hb => (ih hl).bind fun bs hbs => ?_
    exact .ok (List.forall_mem_cons.2 ⟨hb, hbs⟩)

end Ends

/-! ## Two computations side by side -/

/-- Both computations fail, or both succeed with related results. -/
inductive Corresponds (R : α → β → Prop) : Except ε α → Except ε β → Prop
  | ok {a : α} {b : β} (h : R a b) : Corresponds R (.ok a) (.ok b)
  | error {e e' : ε} : Corresponds R (.error e) (.error e')

namespace Corresponds

variable {γ δ : Type} {R : α → β → Prop} {S : γ → δ → Prop}

theorem of_eq {x : Except ε α} {T : α → α → Prop} (hT : ∀ a, T a a) : Corresponds T x x := by
  cases x with
  | error e => exact .error
  | ok a => exact .ok (hT a)

theorem bind {x : Except ε α} {y : Except ε β} {f : α → Except ε γ} {g : β → Except ε δ}
    (h : Corresponds R x y) (hf : ∀ a b, x = .ok a → y = .ok b → R a b → Corresponds S (f a) (g b)) :
    Corresponds S (x >>= f) (y >>= g) := by
  cases h with
  | ok h => exact hf _ _ rfl rfl h
  | error => exact .error

theorem bind_same {x : Except ε α} {f : α → Except ε γ} {g : α → Except ε δ}
    (hf : ∀ a, x = .ok a → Corresponds S (f a) (g a)) : Corresponds S (x >>= f) (x >>= g) := by
  cases x with
  | error e => exact .error
  | ok a => exact hf a rfl

theorem mapM {f : α → Except ε γ} {g : β → Except ε δ} {l : List α} {l' : List β}
    (h : List.Forall₂ (fun a b => Corresponds S (f a) (g b)) l l') :
    Corresponds (List.Forall₂ S) (l.mapM f) (l'.mapM g) := by
  induction h with
  | nil => exact .ok .nil
  | cons hab _ ih =>
    rw [List.mapM_cons, List.mapM_cons]
    refine hab.bind fun c d _ _ hcd => ih.bind fun cs ds _ _ hrest => ?_
    exact .ok (.cons hcd hrest)

theorem mapError {x : Except ε α} {y : Except ε β} (h : Corresponds R x y) (f g : ε → ε') :
    Corresponds R (x.mapError f) (y.mapError g) := by
  cases h with
  | ok h => exact .ok h
  | error => exact .error

theorem branch {P : Prop} [Decidable P] {x x' : Except ε α} {y y' : Except ε β}
    (hpos : P → Corresponds R x y) (hneg : ¬P → Corresponds R x' y') :
    Corresponds R (if P then x else x') (if P then y else y') := by
  split
  · exact hpos ‹P›
  · exact hneg ‹¬P›

theorem of_error {x : Except ε α} {y : Except ε β} (hx : ∃ e, x = .error e)
    (hy : ∃ e, y = .error e) : Corresponds R x y := by
  obtain ⟨_, rfl⟩ := hx
  obtain ⟨_, rfl⟩ := hy
  exact .error

theorem exists_ok {a : α} {y : Except ε β} (h : Corresponds R (.ok a : Except ε α) y) :
    ∃ b, y = .ok b ∧ R a b := by
  cases h with
  | ok h => exact ⟨_, rfl, h⟩

theorem symm {x : Except ε α} {y : Except ε β} (h : Corresponds R x y) :
    Corresponds (fun b a => R a b) y x := by
  cases h with
  | ok h => exact .ok h
  | error => exact .error

theorem trans {x : Except ε α} {y : Except ε β} {z : Except ε γ} {T : β → γ → Prop}
    {U : α → γ → Prop} (hx : Corresponds R x y) (hy : Corresponds T y z)
    (hU : ∀ a b c, R a b → T b c → U a c) : Corresponds U x z := by
  cases hx with
  | ok ha =>
    cases hy with
    | ok hb => exact .ok (hU _ _ _ ha hb)
  | error =>
    cases hy with
    | error => exact .error

/-- Two computations that both correspond to a third. -/
theorem join {x y : Except ε α} {z : Except ε β} {T : α → α → Prop}
    (hx : Corresponds R x z) (hy : Corresponds R y z) (hT : ∀ a b c, R a c → R b c → T a b) :
    Corresponds T x y :=
  hx.trans hy.symm fun a c b ha hb => hT a b c ha hb

theorem toOption_eq {x y : Except ε α} (h : Corresponds Eq x y) : x.toOption = y.toOption := by
  cases h with
  | ok h => rw [h]
  | error => rfl

end Corresponds

end CellAsm
