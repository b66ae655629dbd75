import Mathlib.Tactic.Common

namespace Intcode.Result

variable {ε α β : Type} {x : Except ε α} {f : α → Except ε β}

@[simp] theorem pure_eq_ok (a : α) : (pure a : Except ε α) = .ok a :=
  rfl

@[simp] theorem throw_eq_error (e : ε) : (throw e : Except ε α) = .error e :=
  rfl

@[simp] theorem ok_bind (a : α) (f : α → Except ε β) : (Except.ok a >>= f) = f a :=
  rfl

@[simp] theorem error_bind (e : ε) (f : α → Except ε β) : (Except.error e >>= f) = .error e :=
  rfl

theorem bind_eq_ok_iff {b : β} : (x >>= f) = .ok b ↔ ∃ a, x = .ok a ∧ f a = .ok b := by
  cases x <;> simp

theorem mapError_eq_ok_iff {ε' : Type} {g : ε → ε'} {a : α} :
    x.mapError g = .ok a ↔ x = .ok a := by
  cases x <;> simp [Except.mapError]

variable {xs : List α} {ys : List β}

theorem mapM_eq_map {g : α → β} (h : xs.mapM f = .ok ys)
    (hg : ∀ x ∈ xs, ∀ y, f x = .ok y → y = g x) : ys = xs.map g := by
  induction xs generalizing ys
  case nil => simpa [eq_comm] using h
  case cons x xs hi =>
    rw [List.mapM_cons] at h
    have ⟨y, hy, h⟩ := bind_eq_ok_iff.mp h
    have ⟨ys', hys, h⟩ := bind_eq_ok_iff.mp h
    obtain rfl : _ = ys := by simpa using h
    rw [List.map_cons, hg x (by simp) y hy, hi hys fun x hx => hg x (by simp [hx])]

theorem exists_of_mapM_eq_ok {x : α} (h : xs.mapM f = .ok ys) (hx : x ∈ xs) : ∃ y, f x = .ok y := by
  induction xs generalizing ys
  case nil => simp at hx
  case cons x' xs hi =>
    rw [List.mapM_cons] at h
    have ⟨y, hy, h⟩ := bind_eq_ok_iff.mp h
    obtain ⟨ys', hys, -⟩ := bind_eq_ok_iff.mp h
    cases hx
    case head    => exact ⟨y, hy⟩
    case tail hx => exact hi hys hx

theorem mapM_eq_ok_map {g : α → β} (h : ∀ x ∈ xs, f x = .ok (g x)) :
    xs.mapM f = .ok (xs.map g) := by
  induction xs
  case nil => rfl
  case cons x xs hi =>
    rw [List.mapM_cons, h x (by simp), ok_bind, hi fun x hx => h x (by simp [hx])]
    rfl

theorem exists_mapM_eq_error_iff :
    (∃ e, xs.mapM f = .error e) ↔ ∃ x ∈ xs, ∃ e, f x = .error e := by
  induction xs
  case nil => simp
  case cons x xs hi =>
    rw [List.mapM_cons]
    cases hx : f x
    case error e => simp [hx]
    case ok y =>
      have ho : (∃ x' ∈ x :: xs, ∃ e, f x' = .error e) ↔ ∃ x' ∈ xs, ∃ e, f x' = .error e := by
        simp [hx]
      rw [ho, ←hi, ok_bind]
      cases xs.mapM f <;> simp

theorem foldlM_eq_error_iff {f : β → α → Except ε β} {b : β} {e : ε} :
    xs.foldlM f b = .error e ↔
      ∃ before x after b', xs = before ++ x :: after ∧ before.foldlM f b = .ok b' ∧
        f b' x = .error e := by
  constructor
  case mp =>
    intro h
    induction xs generalizing b
    case nil => simp at h
    case cons x xs hi =>
      rw [List.foldlM_cons] at h
      cases hx : f b x
      case error e' =>
        rw [hx, error_bind] at h
        exact ⟨[], x, xs, b, rfl, rfl, hx.trans h⟩
      case ok b₁ =>
        rw [hx, ok_bind] at h
        obtain ⟨before, y, after, b', rfl, hb, hy⟩ := hi h
        exact ⟨x :: before, y, after, b', rfl, by rw [List.foldlM_cons, hx, ok_bind, hb], hy⟩
  case mpr =>
    rintro ⟨before, x, after, b', rfl, hb, hx⟩
    rw [List.foldlM_append, hb, ok_bind, List.foldlM_cons, hx, error_bind]

variable {σ : Type}

def stateAfter : EStateM.Result ε σ α → σ
  | .ok _ s | .error _ s => s

def atomic (s : σ) : Except ε σ → EStateM.Result ε σ Unit
  | .ok s'   => .ok () s'
  | .error e => .error e s

end Intcode.Result
