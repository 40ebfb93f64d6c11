import Mathlib.Data.List.Perm.Subperm
import Mathlib.Logic.Relation
import TreeFlow.Proofs.Tree.Children

/-!
# Trees without cycles

A tree that passes validation has all its handles in range, but they may still form a cycle. Where those
that can be reached from the top level do not (`Tree.IsAcyclic`), a chain of handles never comes back to
one that is on it, and so is no longer than the tree is large (`Tree.Trail.length_lt`): to go from a node
to its children is well founded (`Tree.acc_of_reached`).
-/

namespace TreeFlow

open Relation

namespace Tree

variable {t : Tree}

/-- A handle is stored in the node at another one. -/
def Refers (t : Tree) (a b : Handle) : Prop := b ∈ t.children a

/-- A handle can be reached from the top level. -/
def Reaches (t : Tree) (h : Handle) : Prop :=
  ∃ id ∈ t.externs ++ t.root, ReflTransGen t.Refers (.stmt id) h

/-- No handle that can be reached leads back to itself. -/
def IsAcyclic (t : Tree) : Prop := ∀ h, t.Reaches h → ¬TransGen t.Refers h h

theorem Reaches.child {h c : Handle} (hh : t.Reaches h) (hc : c ∈ t.children h) : t.Reaches c := by
  obtain ⟨id, hid, hpath⟩ := hh
  exact ⟨id, hid, hpath.tail hc⟩

/-! ### Handles in range -/

/-- The handles that refer to a node: those of statements, or all others. -/
def population (t : Tree) : (stmts : Bool) → List Handle
  | true => (List.range t.stmts.size).map fun i => .stmt (.ofNat i)
  | false =>
    ((List.range t.exprs.size).map fun i => .expr (.ofNat i)) ++
      ((List.range t.specs.size).map fun i => .spec (.ofNat i)) ++
        (List.range t.declarators.size).map fun i => .declarator (.ofNat i)

theorem mem_population {h : Handle} (hh : h.InRange t) : h ∈ t.population h.isStmt := by
  cases h with
  | expr id =>
    exact List.mem_append_left _ (List.mem_append_left _ (List.mem_map.2
      ⟨id.index, List.mem_range.2 hh, by simp [ExprId.ofNat, ExprId.index]⟩))
  | stmt id =>
    exact List.mem_map.2 ⟨id.index, List.mem_range.2 hh, by simp [StmtId.ofNat, StmtId.index]⟩
  | spec id =>
    exact List.mem_append_left _ (List.mem_append_right _ (List.mem_map.2
      ⟨id.index, List.mem_range.2 hh, by simp [SpecId.ofNat, SpecId.index]⟩))
  | declarator id =>
    exact List.mem_append_right _ (List.mem_map.2
      ⟨id.index, List.mem_range.2 hh, by simp [DeclaratorId.ofNat, DeclaratorId.index]⟩)

theorem length_population_stmts : (t.population true).length = t.stmts.size := by
  simp [population]

theorem length_population_others : (t.population false).length = t.exprSize := by
  simp [population, exprSize, Nat.add_assoc]

/-- What is stored in a node is among the handles that are checked. -/
theorem mem_handles_of_mem_children {h c : Handle} (hc : c ∈ t.children h) : c ∈ t.handles := by
  unfold handles
  simp only [List.mem_append, List.mem_flatMap]
  cases h with
  | expr id =>
    cases he : t.expr? id with
    | none => simp [children, he] at hc
    | some e =>
      exact .inl (.inl (.inl (.inl ⟨e, Array.mem_toList_iff.2 (Array.mem_of_getElem? he),
        by rwa [children_expr he] at hc⟩)))
  | stmt id =>
    cases he : t.stmt? id with
    | none => simp [children, he] at hc
    | some e =>
      exact .inl (.inl (.inl (.inr ⟨e, Array.mem_toList_iff.2 (Array.mem_of_getElem? he),
        by rwa [children_stmt he] at hc⟩)))
  | spec id =>
    cases he : t.spec? id with
    | none => simp [children, he] at hc
    | some e =>
      exact .inl (.inl (.inr ⟨e, Array.mem_toList_iff.2 (Array.mem_of_getElem? he),
        by rwa [children_spec he] at hc⟩))
  | declarator id =>
    cases he : t.declarator? id with
    | none => simp [children, he] at hc
    | some e =>
      exact .inl (.inr ⟨e, Array.mem_toList_iff.2 (Array.mem_of_getElem? he),
        by rwa [children_declarator he] at hc⟩)

theorem inRange_of_mem_children (hvalid : t.validate = .ok ()) {h c : Handle}
    (hc : c ∈ t.children h) : c.InRange t :=
  (validate_eq_ok_iff t).1 hvalid c (mem_handles_of_mem_children hc)

theorem inRange_of_top (hvalid : t.validate = .ok ()) {id : StmtId}
    (hid : id ∈ t.externs ++ t.root) : (Handle.stmt id).InRange t := by
  refine (validate_eq_ok_iff t).1 hvalid _ ?_
  unfold handles
  exact List.mem_append_right _ (List.mem_map_of_mem hid)

theorem Reaches.inRange (hvalid : t.validate = .ok ()) {h : Handle} (hh : t.Reaches h) :
    h.InRange t := by
  obtain ⟨id, hid, hpath⟩ := hh
  cases hpath with
  | refl => exact inRange_of_top hvalid hid
  | tail _ hc => exact inRange_of_mem_children hvalid hc

theorem inRange_of_child {h c : Handle} (hc : c ∈ t.children h) : h.InRange t := by
  have hlt : ∀ {α : Type} {xs : Array α} {i : Nat} {f : α → List Handle},
      c ∈ (xs[i]?.map f).getD [] → i < xs.size := fun {_ xs i _} hc => by
    by_contra hge
    simp [Array.getElem?_eq_none (Nat.le_of_not_lt hge)] at hc
  cases h <;> exact hlt hc

/-- It is enough to number the nodes so that each one refers only to those with smaller numbers. -/
theorem isAcyclic_of_rank (rank : Handle → Nat)
    (h : ∀ stmts, ∀ a ∈ t.population stmts, ∀ b ∈ t.children a, rank b < rank a) : t.IsAcyclic := by
  have hrank : ∀ a b, TransGen t.Refers a b → rank b < rank a := fun a b hab => by
    induction hab with
    | single hb => exact h _ _ (mem_population (inRange_of_child hb)) _ hb
    | tail _ hc ih => exact Nat.lt_trans (h _ _ (mem_population (inRange_of_child hc)) _ hc) ih
  exact fun a _ hcycle => absurd (hrank a a hcycle) (Nat.lt_irrefl _)

/-! ### Trails -/

/-- The handles that a walk has come along, the latest first, on the way to another one. -/
structure Trail (t : Tree) (path : List Handle) (h : Handle) : Prop where
  reached : t.Reaches h
  nodup : (h :: path).Nodup
  inRange : ∀ a ∈ h :: path, a.InRange t
  leads : ∀ a ∈ path, TransGen t.Refers a h

namespace Trail

variable {path : List Handle} {h c : Handle}

theorem start (hvalid : t.validate = .ok ()) (hreach : t.Reaches h) : t.Trail [] h :=
  ⟨hreach, by simp, by simpa using hreach.inRange hvalid, by simp⟩

/-- A walk in a tree without cycles never comes back to where it was. -/
theorem step (hvalid : t.validate = .ok ()) (hacyclic : t.IsAcyclic) (htrail : t.Trail path h)
    (hc : c ∈ t.children h) : t.Trail (h :: path) c := by
  have hleads : ∀ a ∈ h :: path, TransGen t.Refers a c := fun a ha => by
    rcases List.mem_cons.1 ha with rfl | ha
    · exact .single hc
    · exact (htrail.leads a ha).tail hc
  have hreach := htrail.reached.child hc
  refine ⟨hreach, List.nodup_cons.2 ⟨fun hmem => hacyclic c hreach (hleads c hmem), htrail.nodup⟩, ?_,
    hleads⟩
  intro a ha
  rcases List.mem_cons.1 ha with rfl | ha
  · exact inRange_of_mem_children hvalid hc
  · exact htrail.inRange a ha

theorem length_lt (htrail : t.Trail path h) {all : List Handle} (hall : ∀ a ∈ h :: path, a ∈ all) :
    path.length < all.length :=
  (List.subperm_of_subset htrail.nodup hall).length_le

end Trail

/-- To go on to the children ends, from wherever a walk can come. -/
theorem acc_of_reached (hvalid : t.validate = .ok ()) (hacyclic : t.IsAcyclic) {h : Handle}
    (hreach : t.Reaches h) : Acc (fun a b => t.Refers b a) h := by
  have hall : ∀ {path h}, t.Trail path h →
      path.length < (t.population true ++ t.population false).length := fun htrail =>
    htrail.length_lt fun a ha => by
      have := mem_population (htrail.inRange a ha)
      cases hs : a.isStmt <;> simp_all
  have hbounded : ∀ n path h, t.Trail path h →
      (t.population true ++ t.population false).length ≤ path.length + n →
      Acc (fun a b => t.Refers b a) h := fun n => by
    induction n with
    | zero => exact fun path h htrail hle => absurd (hall htrail) (by omega)
    | succ n ih =>
      refine fun path h htrail hle => .intro h fun c hc => ?_
      refine ih _ c (htrail.step hvalid hacyclic hc) ?_
      rw [List.length_cons]
      omega
  exact hbounded _ [] h (.start hvalid hreach) (Nat.le_add_left _ _)

end Tree

end TreeFlow
