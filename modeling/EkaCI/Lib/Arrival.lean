import Mathlib.Data.List.Basic
import Mathlib.Data.List.Pairwise

/-! Lists that keep the order in which their elements have arrived, and end with
the one that has arrived last. -/

namespace EkaCI.Lib

universe u

variable {A : Type u} [DecidableEq A]

/-- The line is in the order of arrival. An element may have arrived several times,
and may stand in the line several times; its first arrival counts. -/
structure Lined (arrived line : List A) : Prop where
  members : ∀ item ∈ line, item ∈ arrived
  ordered : line.Pairwise fun first second => arrived.idxOf first ≤ arrived.idxOf second
  last : line.getLast? = arrived.getLast?

namespace Lined

variable {arrived front back : List A} {item other : A}

theorem nil : Lined ([] : List A) [] := ⟨fun _ member => member, .nil, rfl⟩

/-- Nothing in a line is behind its last element. -/
theorem le_last {line : List A} (lined : Lined arrived line) (final : line.getLast? = some other) (member : item ∈ line) :
    arrived.idxOf item ≤ arrived.idxOf other := by
  obtain ⟨before, rfl⟩ := List.getLast?_eq_some_iff.mp final
  obtain earlier | same := List.mem_append.mp member
  · exact (List.pairwise_append.mp lined.ordered).2.2 item earlier other List.mem_cons_self
  · exact Nat.le_of_eq (congrArg arrived.idxOf (List.mem_singleton.mp same))

/-- What arrives now, or has just arrived, joins at the end. -/
theorem arrive {line : List A} (lined : Lined arrived line) (new : item ∉ arrived ∨ arrived.getLast? = some item) :
    Lined (arrived ++ [item]) (line ++ [item]) where
  members other member := by
    obtain earlier | now := List.mem_append.mp member
    · exact List.mem_append_left _ (lined.members other earlier)
    · exact List.mem_append_right _ now
  ordered := by
    have index : ∀ other ∈ line, (arrived ++ [item]).idxOf other = arrived.idxOf other :=
      fun other member => List.idxOf_append_of_mem (lined.members other member)
    refine List.pairwise_append.mpr ⟨?_, List.pairwise_singleton _ _, fun first member second now => ?_⟩
    · refine lined.ordered.imp_of_mem fun member member' ordered => ?_
      rw [index _ member, index _ member']
      exact ordered
    · rw [List.mem_singleton.mp now, index first member]
      obtain unknown | repeated := new
      · rw [List.idxOf_append_of_notMem unknown]
        exact Nat.le_trans List.idxOf_le_length (Nat.le_add_right _ _)
      · rw [List.idxOf_append_of_mem (List.mem_of_getLast? repeated)]
        exact lined.le_last (lined.last.trans repeated) member
  last := by rw [List.getLast?_concat, List.getLast?_concat]

/-- An element that stands further ahead may leave the line. -/
theorem leave (lined : Lined arrived (front ++ item :: back)) (ahead : item ∈ front) : Lined arrived (front ++ back) where
  members other member := by
    apply lined.members other
    rw [List.mem_append, List.mem_cons]
    exact (List.mem_append.mp member).imp_right .inr
  ordered := lined.ordered.sublist (List.Sublist.append_left (List.sublist_cons_self _ _) front)
  last := by
    rw [← lined.last]
    cases back with
    | cons next rest => rw [List.getLast?_append_cons, List.getLast?_append_cons, List.getLast?_cons_cons]
    | nil =>
      -- the last of the others came neither before nor after the one that leaves
      obtain ⟨final, found⟩ := Option.ne_none_iff_exists'.mp (mt List.getLast?_eq_none_iff.mp (List.ne_nil_of_mem ahead))
      rw [List.append_nil, List.getLast?_concat, found]
      obtain ⟨before, rfl⟩ := List.getLast?_eq_some_iff.mp found
      have notBefore := (List.pairwise_append.mp lined.ordered).2.2 final List.mem_concat_self item List.mem_cons_self
      have notAfter : arrived.idxOf item ≤ arrived.idxOf final := by
        obtain earlier | same := List.mem_append.mp ahead
        · exact (List.pairwise_append.mp (List.pairwise_append.mp lined.ordered).1).2.2 item earlier final
            List.mem_cons_self
        · exact Nat.le_of_eq (congrArg arrived.idxOf (List.mem_singleton.mp same))
      have member := lined.members final (List.mem_append_left _ List.mem_concat_self)
      rw [(List.idxOf_inj member).mp (Nat.le_antisymm notBefore notAfter)]

/-- An element that another one follows may leave the line. -/
theorem overtake (lined : Lined arrived (front ++ item :: other :: back)) : Lined arrived (front ++ other :: back) where
  members next member := by
    apply lined.members next
    rw [List.mem_append, List.mem_cons]
    exact (List.mem_append.mp member).imp_right .inr
  ordered := lined.ordered.sublist (List.Sublist.append_left (List.sublist_cons_self _ _) front)
  last := by
    rw [← lined.last, List.getLast?_append_cons, List.getLast?_append_cons, List.getLast?_cons_cons]

omit [DecidableEq A] in
/-- Behind equal elements an element stands as well as ahead of them. -/
theorem rotate (same : ∀ other ∈ back, other = item) : back ++ [item] = item :: back := by
  obtain ⟨count, rfl⟩ : ∃ count, back = List.replicate count item := ⟨_, List.eq_replicate_of_mem same⟩
  rw [← List.replicate_succ', List.replicate_succ]

end Lined

end EkaCI.Lib
