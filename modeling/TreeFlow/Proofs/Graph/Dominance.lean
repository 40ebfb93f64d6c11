import TreeFlow.Proofs.Graph.Basic

/-!
# Paths and dominance

A block dominates another when control cannot get from the entry to the other without passing
through it. To know this of a graph that is still being built, some blocks are given a **parent**: a
block with a parent is only ever entered from blocks below that parent. As long as this holds of every
edge, a block is dominated by all of its ancestors (`Function.dominates_of_below`), whatever edges are
added between other blocks.
-/

namespace TreeFlow

/-! ### Parents -/

/-- The parents of some blocks; nothing for a block that may be entered from anywhere. -/
abbrev Parents := BlockId → Option BlockId

namespace Parents

/-- A block is `a` or lies below it. -/
inductive Below (P : Parents) (a : BlockId) : BlockId → Prop
  | refl : Below P a a
  | step {b c : BlockId} (h : P c = some b) (rest : Below P a b) : Below P a c

variable {P Q : Parents} {a b c : BlockId}

theorem Below.trans (hab : P.Below a b) (hbc : P.Below b c) : P.Below a c := by
  induction hbc with
  | refl => exact hab
  | step h _ ih => exact .step h ih

/-- What lies below a block without a parent, seen from there, is only that block. -/
theorem Below.eq_of_none (h : P.Below a b) (hb : P b = none) : a = b := by
  cases h with
  | refl => rfl
  | step hc _ => simp [hb] at hc

/-- A block is below another one if the parents agree on a set of blocks closed under taking
parents that it belongs to. -/
theorem Below.congr {S : BlockId → Prop} (h : P.Below a b) (hb : S b)
    (hS : ∀ c d, S c → P c = some d → S d) (hPQ : ∀ c, S c → Q c = P c) : Q.Below a b := by
  induction h with
  | refl => exact .refl
  | @step b c hc _ ih => exact .step ((hPQ c hb).trans hc) (ih (hS c b hb hc))

/-- Some blocks are given a common parent. -/
def adopt (P : Parents) (bs : List BlockId) (d : BlockId) : Parents :=
  fun b => if b ∈ bs then some d else P b

theorem adopt_of_mem {bs : List BlockId} (d : BlockId) (h : b ∈ bs) : P.adopt bs d b = some d :=
  if_pos h

theorem adopt_of_not_mem {bs : List BlockId} (d : BlockId) (h : b ∉ bs) : P.adopt bs d b = P b :=
  if_neg h

/-- A parent for blocks that had none takes no ancestors away. -/
theorem Below.adopt {bs : List BlockId} (h : P.Below a b) (hbs : ∀ b ∈ bs, P b = none)
    (d : BlockId) : (P.adopt bs d).Below a b := by
  induction h with
  | refl => exact .refl
  | step hc _ ih =>
    refine .step ((adopt_of_not_mem d fun hmem => ?_).trans hc) ih
    simp [hbs _ hmem] at hc

end Parents

namespace Function

variable {f : Function} {P : Parents} {b d : BlockId}

/-! ### Paths -/

/-- A way that control can take from the entry on, the latest block first. -/
inductive Path (f : Function) : List BlockId → Prop
  | entry {e : BlockId} (h : f.entry? = some e) : Path f [e]
  | step {p b : BlockId} {rest : List BlockId} (path : Path f (p :: rest))
      (edge : b ∈ f.successors p) : Path f (b :: p :: rest)

/-- Control can get to the block. -/
def Reachable (f : Function) (b : BlockId) : Prop := ∃ rest, f.Path (b :: rest)

/-- Control cannot get to `b` without passing through `d`. -/
def Dominates (f : Function) (d b : BlockId) : Prop := ∀ rest, f.Path (b :: rest) → d ∈ b :: rest

theorem entry_dominates {e : BlockId} (he : f.entry? = some e) (b : BlockId) :
    f.Dominates e b := by
  intro rest path
  generalize hl : b :: rest = l at path
  rw [← hl]
  induction path generalizing b rest with
  | entry h =>
    obtain ⟨rfl, rfl⟩ := List.cons_eq_cons.1 hl
    obtain rfl : e = b := by simpa [he] using h
    exact List.mem_singleton_self e
  | step path _ ih =>
    obtain ⟨rfl, rfl⟩ := List.cons_eq_cons.1 hl
    exact List.mem_cons_of_mem _ (ih _ _ rfl)

/-- Every ancestor of a block dominates it. The induction is on the path: the block before the last
one is below the parent, hence below all that the parent is below. -/
theorem dominates_of_below (hentry : ∀ e, f.entry? = some e → P e = none)
    (hedge : ∀ p, ∀ b ∈ f.successors p, ∀ d, P b = some d → P.Below d p) (h : P.Below d b) :
    f.Dominates d b := by
  intro rest path
  generalize hl : b :: rest = l at path
  rw [← hl]
  induction path generalizing b d rest with
  | entry he =>
    obtain ⟨rfl, rfl⟩ := List.cons_eq_cons.1 hl
    rw [h.eq_of_none (hentry _ he)]
    exact List.mem_cons_self
  | @step p _ _ path edge ih =>
    obtain ⟨rfl, rfl⟩ := List.cons_eq_cons.1 hl
    cases h with
    | refl => exact List.mem_cons_self
    | step hparent habove =>
      exact List.mem_cons_of_mem _ (ih (habove.trans (hedge p _ edge _ hparent)) _ rfl)

/-! ### Strict graphs -/

/-- **Every value is computed before it is used.** What an instruction reads is computed earlier in
its block or in another block that dominates it, and so is what a terminator reads. A phi lists the
blocks that control may come from, each of them once, and what it takes from a block is computed
there or in a block that dominates that one. -/
structure IsStrict (f : Function) : Prop where
  inst : ∀ b, f.Reachable b → ∀ before x after i, f.instsAt b = before ++ x :: after →
    f.inst? x = some i → i.kind.incoming? = none → ∀ y, Operand.inst y ∈ i.kind.operands →
      y ∈ before ∨ ∃ d, d ≠ b ∧ f.Dominates d b ∧ y ∈ f.instsAt d
  term : ∀ b, f.Reachable b → ∀ t, f.termAt b = some t → ∀ y, Operand.inst y ∈ t.operands →
    ∃ d, f.Dominates d b ∧ y ∈ f.instsAt d
  phi : ∀ b, ∀ x ∈ f.instsAt b, ∀ i incoming, f.inst? x = some i →
    i.kind.incoming? = some incoming → (incoming.map Prod.snd).Nodup ∧
      ∀ p, p ∈ incoming.map Prod.snd ↔ p ∈ f.predecessors b
  source : ∀ b, ∀ x ∈ f.instsAt b, ∀ i incoming, f.inst? x = some i →
    i.kind.incoming? = some incoming → ∀ y p, (Operand.inst y, p) ∈ incoming →
      ∃ d, f.Dominates d p ∧ y ∈ f.instsAt d

end Function

end TreeFlow
