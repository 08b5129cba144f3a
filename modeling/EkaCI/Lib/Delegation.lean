import Mathlib.Data.List.Basic

/-! Rights that are handed on by acts. Whoever has the right may act, and an act may give the
right to others; it starts with the roots. -/

namespace EkaCI.Lib

universe u v

variable {A : Type u} {P : Type v}

/-- The acts, in their order, hand the right on from a root to the last party. -/
inductive Delegates (roots : P → Prop) (actor : A → P) (grants : A → P → Prop) : List A → P → Prop where
  | root {party : P} (root : roots party) : Delegates roots actor grants [] party
  | granted {chain : List A} {act : A} {party : P} (chained : Delegates roots actor grants chain (actor act))
      (given : grants act party) : Delegates roots actor grants (chain ++ [act]) party

/-- Some of the acts hand the right on to the party. -/
def Entitled (roots : P → Prop) (actor : A → P) (grants : A → P → Prop) (acts : List A) (party : P) : Prop :=
  ∃ chain : List A, chain.Sublist acts ∧ Delegates roots actor grants chain party

variable {roots : P → Prop} {actor : A → P} {grants : A → P → Prop} {acts : List A} {party : P}

theorem entitled_of_root (root : roots party) : Entitled roots actor grants acts party :=
  ⟨[], List.nil_sublist acts, .root root⟩

/-- What is done later takes no right away. -/
theorem Entitled.snoc (entitled : Entitled roots actor grants acts party) (act : A) :
    Entitled roots actor grants (acts ++ [act]) party := by
  obtain ⟨chain, part, delegates⟩ := entitled
  exact ⟨chain, part.trans (List.sublist_append_left acts [act]), delegates⟩

theorem Entitled.grant {act : A} (entitled : Entitled roots actor grants acts (actor act))
    (given : grants act party) : Entitled roots actor grants (acts ++ [act]) party := by
  obtain ⟨chain, part, delegates⟩ := entitled
  exact ⟨chain ++ [act], part.append_right [act], delegates.granted given⟩

end EkaCI.Lib
