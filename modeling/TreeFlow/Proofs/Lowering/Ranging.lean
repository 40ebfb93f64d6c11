import TreeFlow.Proofs.Lowering.Termination
import TreeFlow.Proofs.Tree.Stored

/-!
# Handles in range

Lowering follows handles from node to node. If all that are stored in a tree are in range, which is just what
validation checks, then so are all that lowering comes upon, and it never looks for a node that is not there
(`Tree.validate_suffices`). Handles that form a cycle make no difference to this: however deep a walk has gone, the
next handle is one that is stored in a node.
-/

namespace TreeFlow

namespace Lower

variable {α : Type} {env : Env}

/-- Has what a walk is stuck at nothing to do with a handle that refers to nothing? -/
def Stuck.IsInRange : Stuck → Prop
  | .dangling _ => False
  | _ => True

/-- Where validation has passed, a walk is not stuck because a handle refers to nothing. -/
def Footing.ofValid (env : Env) (hvalid : env.tree.validate = .ok ()) : Footing env where
  Allows := Stuck.IsInRange
  Bears _ h := h.InRange env.tree
  missingBlock _ := trivial
  bottomless _ := trivial
  endless _ := trivial
  dangling h hrange := absurd h hrange
  child _ hc _ := Tree.inRange_of_mem_children hvalid hc
  part _ hc _ _ := Tree.inRange_of_mem_children hvalid hc
  anew h _ := h
  top hid := Tree.inRange_of_top hvalid hid
  Jumps := True

/-- A step never looks for a node that is not there. -/
def StaysInRange (env : Env) (m : Lower α) : Prop := ∀ s h, (m env s).1 ≠ .stuck (.dangling h)

theorem Regular.staysInRange {hvalid : env.tree.validate = .ok ()} {m : Lower α}
    (h : Regular (.ofValid env hvalid) false m) : StaysInRange env m :=
  fun s handle hstuck => h.supports s (.dangling handle) hstuck

/-- However deep statements are followed. -/
theorem staysInRange_statementTo (env : Env) (hvalid : env.tree.validate = .ok ()) (depth : Nat) {id : StmtId}
    (hid : (Handle.stmt id).InRange env.tree) : StaysInRange env (statementTo depth id) :=
  have hregular : Regular (.ofValid env hvalid) false (statementTo depth id) := regular_statementTo trivial hid
  hregular.staysInRange

/-- However deep expressions, types and declarators are followed. -/
theorem staysInRange_descentTo (env : Env) (hvalid : env.tree.validate = .ok ()) (depth : Nat) :
    (∀ e, (Handle.expr e).InRange env.tree → StaysInRange env ((descentTo depth).raw e)) ∧
      (∀ id, (Handle.spec id).InRange env.tree → StaysInRange env ((descentTo depth).spec id)) ∧
        ∀ mode id info, (Handle.declarator id).InRange env.tree →
          StaysInRange env ((descentTo depth).link mode id info) := by
  have hdescent := regularDescent_descentTo (.ofValid env hvalid) depth
  exact ⟨fun e he => (hdescent.raw he).staysInRange, fun id hid => (hdescent.spec hid).staysInRange,
    fun mode id info hid => (hdescent.link hid).staysInRange⟩

theorem staysInRange_completeUnit (env : Env) (hvalid : env.tree.validate = .ok ()) {σ : Type} (hook : DiagnosticHook σ)
    (start : σ) : StaysInRange env (completeUnit hook start) :=
  have hsupports : (Footing.ofValid env hvalid).Supports (completeUnit hook start) :=
    supports_completeUnit trivial hook start
  fun s h hstuck => hsupports s (.dangling h) hstuck

end Lower

namespace Tree

/-- **Validation is exact, and it suffices.** A tree passes exactly if every handle that is stored in it, wherever
that is, is smaller than the list that it refers to is long. And if a tree passes, then no access to a node is ever
out of range: not in lowering a unit, with any hook after its declarations, and not in any part of it, from any
state on and however deep. -/
theorem validate_suffices (tree : Tree) :
    (tree.validate = .ok () ↔ ∀ h, tree.Stores h → h.InRange tree) ∧
      (tree.validate = .ok () → ∀ config : Config,
        (∀ (σ : Type) (hook : DiagnosticHook σ) (start : σ) (h : Handle),
          tree.compileWith config hook start ≠ .error (.dangling h)) ∧
        ∀ depth : Nat,
          (∀ id, (Handle.stmt id).InRange tree →
            Lower.StaysInRange ⟨tree, config⟩ (Lower.statementTo depth id)) ∧
          (∀ e, (Handle.expr e).InRange tree →
            Lower.StaysInRange ⟨tree, config⟩ ((Lower.descentTo depth).raw e)) ∧
          (∀ id, (Handle.spec id).InRange tree →
            Lower.StaysInRange ⟨tree, config⟩ ((Lower.descentTo depth).spec id)) ∧
          ∀ mode id info, (Handle.declarator id).InRange tree →
            Lower.StaysInRange ⟨tree, config⟩ ((Lower.descentTo depth).link mode id info)) := by
  refine ⟨validate_eq_ok_iff_stores, fun hvalid config => ⟨fun σ hook start h hdangling => ?_, fun depth => ?_⟩⟩
  · have hstays := Lower.staysInRange_completeUnit ⟨tree, config⟩ hvalid hook start (.initial config) h
    unfold compileWith at hdangling
    rcases hrun : Lower.completeUnit hook start ⟨tree, config⟩ (.initial config) with ⟨_ | _ | _, s⟩ <;>
      rw [hrun] at hdangling hstays
    · cases hdangling
    · cases hdangling
    · exact hstays (congrArg Lower.Outcome.stuck (Except.error.inj hdangling))
  · exact ⟨fun id hid => Lower.staysInRange_statementTo ⟨tree, config⟩ hvalid depth hid,
      Lower.staysInRange_descentTo ⟨tree, config⟩ hvalid depth⟩

/-- A tree on which lowering goes on for ever. -/
theorem validate_suffices_cyclic :
    cyclicTree.validate = .ok () ∧ (∀ h, cyclicTree.Stores h → h.InRange cyclicTree) ∧
      (∀ h, cyclicTree.compileWith {} .drain [] ≠ .error (.dangling h)) ∧ (Handle.stmt ⟨0⟩).InRange cyclicTree ∧
        ∀ depth, Lower.StaysInRange ⟨cyclicTree, {}⟩ (Lower.statementTo depth ⟨0⟩) := by
  have hvalid : cyclicTree.validate = .ok () := rfl
  have hfirst : (Handle.stmt ⟨0⟩).InRange cyclicTree := by decide
  obtain ⟨hexact, hsuffices⟩ := validate_suffices cyclicTree
  exact ⟨hvalid, hexact.1 hvalid, (hsuffices hvalid {}).1 _ .drain [], hfirst,
    fun depth => ((hsuffices hvalid {}).2 depth).1 ⟨0⟩ hfirst⟩

/-- A handle that refers to nothing is found. -/
example : ({ root := [⟨42⟩] } : Tree).validate = .error (.stmt ⟨42⟩) := rfl

end Tree

end TreeFlow
