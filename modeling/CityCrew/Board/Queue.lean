import CityCrew.Board.Point

/-!
# Queues of walks

A queue gives back the most promising of the walks that have been put into it. It is a binary tree
in which no walk stands above one that is more promising.
-/

namespace CityCrew

namespace Search

structure Entry where
  /-- The cost of the walk together with an estimate of what is left. -/
  bound : Int
  cost : Int
  point : Point

namespace Entry

/-- Whether `e` leaves the queue before `f`. Of two walks with one bound the dearer one has come
further. -/
def Precedes (e f : Entry) : Prop :=
  e.bound < f.bound ∨ e.bound = f.bound ∧ (f.cost < e.cost ∨ e.cost = f.cost ∧
    (e.point.col < f.point.col ∨ e.point.col = f.point.col ∧ e.point.row < f.point.row))

instance (e f : Entry) : Decidable (e.Precedes f) :=
  inferInstanceAs (Decidable (_ ∨ _))

theorem Precedes.asymm {e f : Entry} (h : e.Precedes f) : ¬ f.Precedes e := by
  unfold Precedes at *
  omega

theorem not_precedes_trans {e f g : Entry} (hef : ¬ e.Precedes f) (hfg : ¬ f.Precedes g) :
    ¬ e.Precedes g := by
  unfold Precedes at *
  omega

theorem bound_le_of_not_precedes {e f : Entry} (h : ¬ f.Precedes e) : e.bound ≤ f.bound := by
  unfold Precedes at h
  omega

end Entry

inductive Tree where
  | empty
  | node (first : Entry) (left right : Tree)

namespace Tree

def entries : Tree → List Entry
  | empty => []
  | node first left right => first :: (left.entries ++ right.entries)

def Ordered : Tree → Prop
  | empty => True
  | node first left right =>
    (∀ e ∈ left.entries ++ right.entries, ¬ e.Precedes first) ∧ left.Ordered ∧ right.Ordered

/-- The entries of two trees in one. The branches change places, so that the tree does not grow to
one side only. -/
def merge : Tree → Tree → Tree
  | empty, u => u
  | t, empty => t
  | node e left right, node f left' right' =>
    if f.Precedes e then node f (merge (node e left right) right') left'
    else node e (merge right (node f left' right')) left
termination_by t u => sizeOf t + sizeOf u

theorem entries_merge (t u : Tree) : (t.merge u).entries.Perm (t.entries ++ u.entries) := by
  fun_induction merge t u with
  | case1 u => exact .refl _
  | case2 t _ => simp [entries]
  | case3 e left right f left' right' _ ih =>
    have hLeft : ((merge (node e left right) right').entries ++ left'.entries).Perm
        ((node e left right).entries ++ (left'.entries ++ right'.entries)) := by
      refine (ih.append_right _).trans ?_
      rw [List.append_assoc]
      exact (List.perm_append_comm).append_left _
    exact (hLeft.cons f).trans List.perm_middle.symm
  | case4 e left right f left' right' _ ih =>
    have hLeft : ((merge right (node f left' right')).entries ++ left.entries).Perm
        ((left.entries ++ right.entries) ++ (node f left' right').entries) := by
      refine (ih.append_right _).trans ?_
      refine List.perm_append_comm.trans ?_
      rw [List.append_assoc]
    exact hLeft.cons e

theorem ordered_merge {t u : Tree} (ht : t.Ordered) (hu : u.Ordered) : (t.merge u).Ordered := by
  fun_induction merge t u with
  | case1 u => exact hu
  | case2 t _ => exact ht
  | case3 e left right f left' right' hFirst ih =>
    refine ⟨fun x hx => ?_, ih ht hu.2.2, hu.2.1⟩
    simp only [List.mem_append, (entries_merge _ _).mem_iff, entries, List.mem_cons] at hx
    rcases hx with ((rfl | hx) | hx) | hx
    · exact hFirst.asymm
    · exact Entry.not_precedes_trans (ht.1 x (List.mem_append.mpr hx)) hFirst.asymm
    · exact hu.1 x (List.mem_append.mpr (.inr hx))
    · exact hu.1 x (List.mem_append.mpr (.inl hx))
  | case4 e left right f left' right' hFirst ih =>
    refine ⟨fun x hx => ?_, ih ht.2.2 hu, ht.2.1⟩
    simp only [List.mem_append, (entries_merge _ _).mem_iff, entries, List.mem_cons] at hx
    rcases hx with (hx | rfl | hx) | hx
    · exact ht.1 x (List.mem_append.mpr (.inr hx))
    · exact hFirst
    · exact Entry.not_precedes_trans (hu.1 x (List.mem_append.mpr hx)) hFirst
    · exact ht.1 x (List.mem_append.mpr (.inl hx))

end Tree

structure Queue where
  tree : Tree
  ordered : tree.Ordered

namespace Queue

def entries (q : Queue) : List Entry :=
  q.tree.entries

def empty : Queue where
  tree := .empty
  ordered := trivial

def push (q : Queue) (e : Entry) : Queue where
  tree := (Tree.node e .empty .empty).merge q.tree
  ordered := Tree.ordered_merge ⟨by simp [Tree.entries], trivial, trivial⟩ q.ordered

def pop? (q : Queue) : Option (Entry × Queue) :=
  match q with
  | ⟨.empty, _⟩ => none
  | ⟨.node first left right, h⟩ => some (first, ⟨left.merge right, Tree.ordered_merge h.2.1 h.2.2⟩)

theorem entries_push (q : Queue) (e : Entry) : (q.push e).entries.Perm (e :: q.entries) :=
  Tree.entries_merge _ _

theorem pop?_eq_none_iff {q : Queue} : q.pop? = none ↔ q.entries = [] := by
  obtain ⟨_ | ⟨first, left, right⟩, h⟩ := q <;> simp [pop?, entries, Tree.entries]

theorem entries_of_pop?_eq_some {q rest : Queue} {first : Entry} (h : q.pop? = some (first, rest)) :
    q.entries.Perm (first :: rest.entries) ∧ ∀ e ∈ rest.entries, ¬ e.Precedes first := by
  obtain ⟨_ | ⟨root, left, right⟩, hOrdered⟩ := q
  · cases h
  · cases h
    have hRest := Tree.entries_merge left right
    exact ⟨hRest.symm.cons _, fun e he => hOrdered.1 e (hRest.mem_iff.mp he)⟩

end Queue

end Search

end CityCrew
