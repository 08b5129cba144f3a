import Mathlib.Data.List.Defs

/-! Lists cut into chunks of a fixed size, the last of which may be shorter. -/

namespace EkaCI.Lib

universe u

variable {A : Type u}

/-- Chunks of `size + 1` elements. -/
def chunks (size : Nat) (items : List A) : List (List A) := (items.toChunksAux size 0).2

theorem toChunksAux_flatten (size : Nat) (items : List A) (first : Nat) :
    (items.toChunksAux size first).1 ++ (items.toChunksAux size first).2.flatten = items := by
  induction items generalizing first with
  | nil => rfl
  | cons item rest ih =>
    cases first with
    | zero => exact congrArg (item :: ·) (ih size)
    | succ first => exact congrArg (item :: ·) (ih first)

theorem flatten_chunks (size : Nat) (items : List A) : (chunks size items).flatten = items := by
  have joined := toChunksAux_flatten size items 0
  cases items with
  | nil => rfl
  | cons item rest => exact joined

theorem mem_of_mem_chunks {size : Nat} {items chunk : List A} {item : A} (member : chunk ∈ chunks size items)
    (inside : item ∈ chunk) : item ∈ items := by
  rw [← flatten_chunks size items]
  exact List.mem_flatten.mpr ⟨chunk, member, inside⟩

end EkaCI.Lib
