import TreeFlow.Tree.Handles

/-!
# The children of handles

A handle refers to a node, and the node to other ones. Statements are entered through handles of their
own, so handles of statements are told apart from all others.
-/

namespace TreeFlow

/-- Does the handle refer to a statement? -/
def Handle.isStmt : Handle → Bool
  | .stmt _ => true
  | _ => false

/-- The handles stored in the node at a handle. -/
def Tree.children (t : Tree) : Handle → List Handle
  | .expr id => ((t.expr? id).map (·.kind.handles)).getD []
  | .stmt id => ((t.stmt? id).map (·.kind.handles)).getD []
  | .spec id => ((t.spec? id).map (·.kind.handles)).getD []
  | .declarator id => ((t.declarator? id).map (·.kind.handles)).getD []

/-! ### Handles in a node

Only a statement holds handles of statements. -/

theorem ParamDecl.not_isStmt {p : ParamDecl} {c : Handle} (h : c ∈ p.handles) : c.isStmt = false := by
  simp only [handles, List.mem_cons, Option.mem_toList, Option.map_eq_some_iff] at h
  rcases h with rfl | ⟨_, _, rfl⟩ <;> rfl

theorem VariableDecl.not_isStmt {v : VariableDecl} {c : Handle} (h : c ∈ v.handles) :
    c.isStmt = false := by
  simp only [handles, List.mem_cons, List.mem_map] at h
  rcases h with rfl | ⟨_, _, rfl⟩ <;> rfl

theorem AggregateDecl.not_isStmt {a : AggregateDecl} {c : Handle} (h : c ∈ a.handles) :
    c.isStmt = false := by
  obtain ⟨_, _, hc⟩ := List.mem_flatMap.1 h
  exact VariableDecl.not_isStmt hc

theorem ExprKind.not_isStmt {k : ExprKind} {c : Handle} (h : c ∈ k.handles) : c.isStmt = false := by
  cases k <;> simp only [handles, List.mem_cons, List.mem_map, List.not_mem_nil, or_false] at h <;>
    first
    | (rcases h with rfl | ⟨_, _, rfl⟩ <;> rfl)
    | (rcases h with rfl | rfl | rfl <;> rfl)

theorem SpecKind.not_isStmt {k : SpecKind} {c : Handle} (h : c ∈ k.handles) : c.isStmt = false := by
  cases k with
  | named | bitField => simp [handles] at h
  | struct decl => exact AggregateDecl.not_isStmt h
  | union decl => exact AggregateDecl.not_isStmt h
  | typeOf e =>
    obtain rfl := List.mem_singleton.1 h
    rfl
  | derived base n =>
    obtain rfl := List.mem_singleton.1 h
    rfl

theorem DeclaratorKind.not_isStmt {k : DeclaratorKind} {c : Handle} (h : c ∈ k.handles) :
    c.isStmt = false := by
  cases k with
  | identifier | anonymous => simp [handles] at h
  | pointer inner n =>
    obtain rfl := List.mem_singleton.1 h
    rfl
  | array inner dims =>
    rcases List.mem_cons.1 h with rfl | h
    · rfl
    · obtain ⟨_, _, rfl⟩ := List.mem_map.1 h
      rfl
  | function inner ps variadic =>
    rcases List.mem_cons.1 h with rfl | h
    · rfl
    · obtain ⟨_, _, hc⟩ := List.mem_flatMap.1 h
      exact ParamDecl.not_isStmt hc
  | init inner value =>
    simp only [handles, List.mem_cons, List.not_mem_nil, or_false] at h
    rcases h with rfl | rfl <;> rfl

/-! ### Children -/

section Children

variable {t : Tree}

theorem Tree.children_expr {id : ExprId} {e : Expr} (h : t.expr? id = some e) :
    t.children (.expr id) = e.kind.handles := by simp [children, h]

theorem Tree.children_stmt {id : StmtId} {s : Stmt} (h : t.stmt? id = some s) :
    t.children (.stmt id) = s.kind.handles := by simp [children, h]

theorem Tree.children_spec {id : SpecId} {s : Spec} (h : t.spec? id = some s) :
    t.children (.spec id) = s.kind.handles := by simp [children, h]

theorem Tree.children_declarator {id : DeclaratorId} {d : Declarator}
    (h : t.declarator? id = some d) : t.children (.declarator id) = d.kind.handles := by
  simp [children, h]

theorem Tree.not_isStmt_of_mem_children {h c : Handle} (hh : h.isStmt = false)
    (hc : c ∈ t.children h) : c.isStmt = false := by
  cases h with
  | stmt => exact nomatch hh
  | expr id =>
    rw [children] at hc
    cases he : t.expr? id with
    | none => simp [he] at hc
    | some e => exact ExprKind.not_isStmt (k := e.kind) (by simpa [he] using hc)
  | spec id =>
    rw [children] at hc
    cases he : t.spec? id with
    | none => simp [he] at hc
    | some e => exact SpecKind.not_isStmt (k := e.kind) (by simpa [he] using hc)
  | declarator id =>
    rw [children] at hc
    cases he : t.declarator? id with
    | none => simp [he] at hc
    | some e => exact DeclaratorKind.not_isStmt (k := e.kind) (by simpa [he] using hc)

end Children

end TreeFlow
