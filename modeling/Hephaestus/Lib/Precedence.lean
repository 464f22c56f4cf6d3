import Mathlib.Data.List.Induction
import Mathlib.Data.List.Nodup
import Mathlib.Data.List.Perm.Subperm
import Mathlib.Logic.Relation
import Mathlib.Order.RelClasses

/-!
# Orders that put what is needed first

Nodes with what each of them needs. The plain way to order them takes, again and again,
the first node that is not in yet and whose needs all are. It comes to exactly the nodes
that are grounded: those whose needs, and the needs of these, are all nodes and lead into
no circle. A faster algorithm is right where it gives this order.
-/

namespace Hephaestus.Lib.Precedence

open Relation

variable {α : Type} [DecidableEq α] (needs : α → List α) (nodes : List α)

/-- `d` is needed by `n`. -/
def Before (d n : α) : Prop := d ∈ needs n

/-- A node that can be reached from below: all it needs is grounded. -/
inductive Grounded : α → Prop
  | intro {n : α} (hnode : n ∈ nodes) (hneeds : ∀ d ∈ needs n, Grounded d) : Grounded n

/-- The node is not in, and all it needs is. -/
def isReady (done : List α) (n : α) : Bool := decide (n ∉ done) && (needs n).all (· ∈ done)

def greedyFrom : Nat → List α → List α
  | 0, done => done
  | k + 1, done =>
      match nodes.find? (isReady needs done) with
      | none => done
      | some n => greedyFrom k (done ++ [n])

/-- Take the first node that is ready, again and again. -/
def greedyOrder : List α := greedyFrom needs nodes nodes.length []

/-- What a node needs stands before it. -/
def Ordered (order : List α) : Prop :=
  ∀ before n after, order = before ++ n :: after → ∀ d ∈ needs n, d ∈ before

variable {needs nodes}

theorem isReady_iff {done : List α} {n : α} :
    isReady needs done n = true ↔ n ∉ done ∧ ∀ d ∈ needs n, d ∈ done := by
  simp [isReady]

/-- What is found stands before everything else that could have been. -/
theorem idxOf_find?_le {p : α → Bool} {n : α} (hfind : nodes.find? p = some n) {m : α}
    (hmem : m ∈ nodes) (hm : p m = true) : nodes.idxOf n ≤ nodes.idxOf m := by
  obtain ⟨_, before, after, rfl, hbefore⟩ := List.find?_eq_some_iff_append.mp hfind
  have hout : ∀ k, p k = true → k ∉ before := by
    intro k hk hin
    have := hbefore k hin
    simp [hk] at this
  have hn := List.find?_some hfind
  rw [List.idxOf_append_of_notMem (hout n hn), List.idxOf_append_of_notMem (hout m hm),
    List.idxOf_cons_self]
  omega

/-! ## Grounded nodes -/

omit [DecidableEq α] in
theorem Grounded.mem {n : α} (h : Grounded needs nodes n) : n ∈ nodes := by
  cases h with
  | intro hnode _ => exact hnode

omit [DecidableEq α] in
/-- Nothing grounded needs itself, however far around. -/
theorem not_acc_of_circle {n : α} (h : TransGen (Before needs) n n) : ¬ Acc (Before needs) n := by
  intro hacc
  have hchains := hacc.transGen
  clear hacc
  induction hchains with
  | intro m _ ih => exact ih m h h

/-! ## The greedy order -/

omit [DecidableEq α] in
theorem Ordered.concat {done : List α} (h : Ordered needs done) {n : α}
    (hneeds : ∀ d ∈ needs n, d ∈ done) : Ordered needs (done ++ [n]) := by
  intro before m after heq
  rcases List.eq_nil_or_concat after with rfl | ⟨after, last, rfl⟩
  · obtain ⟨rfl, hlast⟩ := List.append_inj' heq rfl
    obtain rfl := List.singleton_inj.mp hlast
    exact hneeds
  · rw [List.concat_eq_append, ← List.cons_append, ← List.append_assoc] at heq
    exact h before m after (List.append_inj' heq rfl).1

/-- What the loop keeps, and how it stops. -/
theorem greedyFrom_spec (k : Nat) {done : List α} (hnodup : done.Nodup) (hsub : done ⊆ nodes)
    (hordered : Ordered needs done) :
    (greedyFrom needs nodes k done).Nodup ∧ greedyFrom needs nodes k done ⊆ nodes
      ∧ Ordered needs (greedyFrom needs nodes k done)
      ∧ (nodes.find? (isReady needs (greedyFrom needs nodes k done)) = none
        ∨ (greedyFrom needs nodes k done).length = done.length + k) := by
  induction k generalizing done with
  | zero => exact ⟨hnodup, hsub, hordered, .inr rfl⟩
  | succ k ih =>
      rw [greedyFrom]
      cases hfind : nodes.find? (isReady needs done) with
      | none => exact ⟨hnodup, hsub, hordered, .inl hfind⟩
      | some n =>
          obtain ⟨hnew, hneeds⟩ := isReady_iff.mp (List.find?_some hfind)
          have hnodup' : (done ++ [n]).Nodup :=
            hnodup.append (List.nodup_singleton n) (List.disjoint_singleton.mpr hnew)
          have hsub' : done ++ [n] ⊆ nodes :=
            List.append_subset.mpr ⟨hsub, List.cons_subset.mpr ⟨List.mem_of_find?_eq_some hfind, List.nil_subset _⟩⟩
          obtain ⟨h1, h2, h3, h4⟩ := ih hnodup' hsub' (hordered.concat hneeds)
          refine ⟨h1, h2, h3, h4.imp_right fun hlength => ?_⟩
          rw [hlength, List.length_append, List.length_singleton]
          omega

theorem greedyOrder_spec : (greedyOrder needs nodes).Nodup ∧ greedyOrder needs nodes ⊆ nodes
    ∧ Ordered needs (greedyOrder needs nodes)
    ∧ (nodes.find? (isReady needs (greedyOrder needs nodes)) = none
      ∨ (greedyOrder needs nodes).length = 0 + nodes.length) :=
  greedyFrom_spec nodes.length List.nodup_nil (List.nil_subset _) (by simp [Ordered])

theorem greedyOrder_nodup : (greedyOrder needs nodes).Nodup := greedyOrder_spec.1

theorem greedyOrder_subset : greedyOrder needs nodes ⊆ nodes := greedyOrder_spec.2.1

theorem greedyOrder_ordered : Ordered needs (greedyOrder needs nodes) := greedyOrder_spec.2.2.1

/-- With as many nodes as there are, all are in. -/
theorem perm_of_length (h : nodes.length ≤ (greedyOrder needs nodes).length) :
    (greedyOrder needs nodes).Perm nodes :=
  (greedyOrder_nodup.subperm greedyOrder_subset).perm_of_length_le h

/-- At the end no node is ready. -/
theorem greedyOrder_stuck {n : α} (hnode : n ∈ nodes)
    (hneeds : ∀ d ∈ needs n, d ∈ greedyOrder needs nodes) : n ∈ greedyOrder needs nodes := by
  rcases (@greedyOrder_spec _ _ needs nodes).2.2.2 with hnone | hlength
  · by_contra hout
    exact List.find?_eq_none.mp hnone n hnode (isReady_iff.mpr ⟨hout, hneeds⟩)
  · exact (perm_of_length (by omega)).mem_iff.mpr hnode

omit [DecidableEq α] in
theorem Ordered.grounded {order : List α} (h : Ordered needs order) (hsub : order ⊆ nodes) :
    ∀ n ∈ order, Grounded needs nodes n := by
  induction order using List.reverseRecOn with
  | nil => exact fun _ hn => absurd hn List.not_mem_nil
  | append_singleton order last ih =>
      have hbefore : ∀ n ∈ order, Grounded needs nodes n := by
        refine ih (fun before n after heq => h before n (after ++ [last]) ?_) fun n hn =>
          hsub (List.mem_append_left _ hn)
        rw [heq, List.append_assoc, List.cons_append]
      intro n hn
      rcases List.mem_append.mp hn with hn | hn
      · exact hbefore n hn
      · rw [List.mem_singleton.mp hn]
        refine .intro (hsub (List.mem_append_right _ (List.mem_singleton_self _))) fun d hd => ?_
        exact hbefore d (h order last [] rfl d hd)

/-- The greedy order comes to the grounded nodes. -/
theorem mem_greedyOrder {n : α} : n ∈ greedyOrder needs nodes ↔ Grounded needs nodes n := by
  constructor
  · exact greedyOrder_ordered.grounded greedyOrder_subset n
  · intro h
    induction h with
    | intro hnode _ ih => exact greedyOrder_stuck hnode ih

theorem greedyOrder_perm (hnodup : nodes.Nodup) (h : ∀ n ∈ nodes, Grounded needs nodes n) :
    (greedyOrder needs nodes).Perm nodes := by
  refine (List.perm_ext_iff_of_nodup greedyOrder_nodup hnodup).mpr fun n => ?_
  rw [mem_greedyOrder]
  exact ⟨Grounded.mem, h n⟩

/-- The order is as long as the nodes where it has them all. -/
theorem length_greedyOrder (hnodup : nodes.Nodup) :
    (greedyOrder needs nodes).length = nodes.length ↔ ∀ n ∈ nodes, Grounded needs nodes n := by
  constructor
  · intro hlength n hn
    exact mem_greedyOrder.mp ((perm_of_length (Nat.le_of_eq hlength.symm)).mem_iff.mpr hn)
  · intro h
    exact (greedyOrder_perm hnodup h).length_eq

theorem greedyFrom_extends (k : Nat) (done : List α) :
    ∃ more, greedyFrom needs nodes k done = done ++ more := by
  induction k generalizing done with
  | zero => exact ⟨[], (List.append_nil done).symm⟩
  | succ k ih =>
      rw [greedyFrom]
      split
      · exact ⟨[], (List.append_nil done).symm⟩
      · next n _ =>
        obtain ⟨more, hmore⟩ := ih (done ++ [n])
        refine ⟨n :: more, ?_⟩
        rw [hmore, List.append_assoc, List.singleton_append]

theorem greedyFrom_split (k : Nat) {done before after : List α} {n : α}
    (h : greedyFrom needs nodes k done = before ++ n :: after) (hlength : done.length ≤ before.length) :
    nodes.find? (isReady needs before) = some n := by
  induction k generalizing done with
  | zero =>
      rw [greedyFrom] at h
      rw [h] at hlength
      simp only [List.length_append, List.length_cons] at hlength
      omega
  | succ k ih =>
      rw [greedyFrom] at h
      split at h
      · rw [h] at hlength
        simp only [List.length_append, List.length_cons] at hlength
        omega
      · next m hfind =>
        rcases Nat.lt_or_ge done.length before.length with hlt | hge
        · refine ih h ?_
          rw [List.length_append, List.length_singleton]
          omega
        · -- This is the turn that puts `n` in.
          obtain ⟨more, hmore⟩ := @greedyFrom_extends _ _ needs nodes k (done ++ [m])
          rw [hmore, List.append_assoc, List.singleton_append] at h
          obtain ⟨rfl, hrest⟩ := List.append_inj h (Nat.le_antisymm hlength hge)
          rw [← (List.cons.inj hrest).1]
          exact hfind

/-- Of what is ready, the first is taken. -/
theorem greedyOrder_first {before after : List α} {n m : α}
    (h : greedyOrder needs nodes = before ++ n :: after) (hm : m ∈ nodes) (hnew : m ∉ before)
    (hneeds : ∀ d ∈ needs m, d ∈ before) : nodes.idxOf n ≤ nodes.idxOf m :=
  idxOf_find?_le (greedyFrom_split _ h (Nat.zero_le _)) hm (isReady_iff.mpr ⟨hnew, hneeds⟩)

end Hephaestus.Lib.Precedence
