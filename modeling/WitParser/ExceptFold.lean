import Mathlib.Data.List.Basic

/-! # Loops in the `Except` monad

Rust's `?` and its panics are modelled in `Except`; the loops of the model are monadic folds, and
these are the equations their proofs take one element at a time.
-/

namespace WitParser

@[simp] theorem except_ok_bind {ε α β : Type} (a : α) (f : α → Except ε β) :
    (Except.ok a >>= f) = f a := rfl

theorem except_pure {ε α : Type} (a : α) : (pure a : Except ε α) = .ok a := rfl

@[simp] theorem except_error_bind {ε α β : Type} (e : ε) (f : α → Except ε β) :
    (Except.error e >>= f) = Except.error e := rfl

theorem foldlM_toList {α β ε : Type} (o : Option α) (g : β → α → Except ε β) (b : β) :
    o.toList.foldlM g b = match o with
      | some a => g b a
      | none => pure b := by
  cases o <;> simp [Option.toList]

theorem foldlM_filterMap {α β γ ε : Type} (l : List α) (o : α → Option γ) (g : β → γ → Except ε β)
    (b : β) : (l.filterMap o).foldlM g b = l.foldlM (fun b a => match o a with
      | some c => g b c
      | none => pure b) b := by
  induction l generalizing b with
  | nil => rfl
  | cons a l ih => cases found : o a <;> simp [List.filterMap_cons, found, ih]

/-- A fold reads its step function only at the elements it folds over. -/
theorem foldlM_congr_mem {α β ε : Type} {l : List α} {g g' : β → α → Except ε β}
    (same : ∀ a ∈ l, ∀ b, g b a = g' b a) (b : β) : l.foldlM g b = l.foldlM g' b := by
  induction l generalizing b with
  | nil => rfl
  | cons a l ih =>
    simp only [List.foldlM_cons, same a (List.mem_cons_self a l)]
    congr
    funext b
    exact ih (fun a' mem => same a' (List.mem_cons_of_mem a mem)) b

end WitParser
