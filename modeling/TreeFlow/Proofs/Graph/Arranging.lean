import Mathlib.Data.List.Nodup
import TreeFlow.Proofs.Graph.Basic

/-!
# Arranging blocks

The layout of a function is a list of its own beside the blocks. A block is put at the end of it or in front
of another one when it is created, and may be moved behind another one later. Whatever is done, the layout is
a rearrangement of all the blocks (`Function.IsArranged`), so nothing that goes through it overlooks a block
or sees one twice (`Function.Lists`). The block that an edit creates or moves stands right at the anchor, and
all others stand to each other as they did (`Function.Edit.Places`). Both hold at every moment of every history
(`Function.layout_run`).
-/

namespace TreeFlow

/-! ### Insertion at an anchor -/

section Insertion

variable {α : Type} [DecidableEq α] {x anchor : α} {l : List α}

/-- What is inserted before an element of a list stands right before it. -/
theorem exists_insertBefore_eq (x : α) (h : anchor ∈ l) :
    ∃ front back, l = front ++ anchor :: back ∧ insertBefore x anchor l = front ++ x :: anchor :: back := by
  induction l with
  | nil => exact absurd h List.not_mem_nil
  | cons y ys ih =>
    rw [insertBefore]
    by_cases hy : y = anchor
    · exact ⟨[], ys, by simp [hy]⟩
    · obtain ⟨front, back, hys, hinsert⟩ := ih ((List.mem_cons.1 h).resolve_left (Ne.symm hy))
      exact ⟨y :: front, back, by simp [hys], by simp [hy, hinsert]⟩

/-- What is inserted after an element of a list stands right after it. -/
theorem exists_insertAfter_eq (x : α) (h : anchor ∈ l) :
    ∃ front back, l = front ++ anchor :: back ∧ insertAfter x anchor l = front ++ anchor :: x :: back := by
  induction l with
  | nil => exact absurd h List.not_mem_nil
  | cons y ys ih =>
    rw [insertAfter]
    by_cases hy : y = anchor
    · exact ⟨[], ys, by simp [hy]⟩
    · obtain ⟨front, back, hys, hinsert⟩ := ih ((List.mem_cons.1 h).resolve_left (Ne.symm hy))
      exact ⟨y :: front, back, by simp [hys], by simp [hy, hinsert]⟩

end Insertion

namespace Function

variable {f g : Function} {b : BlockId}

/-! ### Layouts that list every block once -/

/-- The first `n` blocks, in the order in which they were created. -/
def firstBlocks (n : Nat) : List BlockId := (List.range n).map BlockId.mk

theorem mem_firstBlocks {n : Nat} : b ∈ firstBlocks n ↔ b.index < n := by
  obtain ⟨i⟩ := b
  simp [firstBlocks]

theorem nodup_firstBlocks (n : Nat) : (firstBlocks n).Nodup :=
  List.nodup_range.map fun _ _ h => congrArg BlockId.index h

theorem firstBlocks_succ (n : Nat) : firstBlocks (n + 1) = firstBlocks n ++ [⟨n⟩] := by
  simp [firstBlocks, List.range_succ]

/-- The layout is a rearrangement of the blocks. -/
def IsArranged (f : Function) : Prop := f.layout.Perm (firstBlocks f.blocks.size)

namespace IsArranged

theorem mem_layout (h : f.IsArranged) : b ∈ f.layout ↔ f.Has b := h.mem_iff.trans mem_firstBlocks

theorem nodup (h : f.IsArranged) : f.layout.Nodup := h.nodup_iff.2 (nodup_firstBlocks _)

/-- A new block may have any place in the layout. -/
theorem addBlock (h : f.IsArranged) {layout : List BlockId} (hperm : layout.Perm (f.nextBlock :: f.layout)) :
    (f.addBlock layout).IsArranged := by
  have hall : (firstBlocks (f.blocks.push {}).size).Perm (f.nextBlock :: firstBlocks f.blocks.size) := by
    rw [Array.size_push, firstBlocks_succ]
    exact List.perm_append_singleton _ _
  exact hperm.trans ((h.cons _).trans hall.symm)

end IsArranged

/-- **What is seen of the blocks** of a function that has `n` of them: by their number, one by one in the order of
the layout, as those that pass control to a block, and in the text of the function. -/
structure Lists (f : Function) (n : Nat) : Prop where
  blocks : f.layout.Perm (firstBlocks n)
  length : f.layout.length = n
  present : ∀ b ∈ f.layout, (f.block? b).isSome
  predecessors : ∀ target,
    (f.predecessors target).Perm ((firstBlocks n).filter fun b => target ∈ f.successors b)
  text :
    let head := s!"fn {f.name} ({f.paramList}) -> {f.sig.result}"
    f.text = if n = 0 then s!"declare {head}\n"
      else s!"{f.linkage.text} {head}:\n" ++ String.join (f.layout.map f.blockLines)

theorem IsArranged.lists (h : f.IsArranged) : f.Lists f.blocks.size where
  blocks := h
  length := by rw [h.length_eq, firstBlocks, List.length_map, List.length_range]
  present b hb := by
    have hlt : b.index < f.blocks.size := h.mem_layout.1 hb
    simp [block?, hlt]
  predecessors target := by
    have hfilter : f.predecessors target = f.layout.filter fun b => target ∈ f.successors b := by
      simp [Function.predecessors]
    rw [hfilter]
    exact h.filter _
  text := by
    have hempty : f.isDeclaration = true ↔ f.blocks.size = 0 := by
      rw [isDeclaration, List.isEmpty_iff, ← List.length_eq_zero_iff, h.length_eq]
      simp [firstBlocks]
    by_cases hsize : f.blocks.size = 0
    · simp only [Function.text, if_pos (hempty.2 hsize), if_pos hsize]
    · simp only [Function.text, if_neg (mt hempty.1 hsize), if_neg hsize]

/-! ### Edits -/

/-- What is done to the blocks of a function. -/
inductive Edit where
  | newBlock
  | newBlockBefore (anchor : BlockId)
  | moveBlockAfter (id anchor : BlockId)
  /-- Something is written into a block. -/
  | write (id : BlockId) (change : Block → Block)

namespace Edit

/-- Carries out an edit. -/
def perform : Edit → Function → Function
  | newBlock, f => f.newBlock.2
  | newBlockBefore anchor, f => (f.newBlockBefore anchor).2
  | moveBlockAfter id anchor, f => f.moveBlockAfter id anchor
  | write id change, f => f.modifyBlock id change

/-- The blocks that an edit refers to. -/
def blocks : Edit → List BlockId
  | newBlock => []
  | newBlockBefore anchor => [anchor]
  | moveBlockAfter id anchor => [id, anchor]
  | write id _ => [id]

/-- The function has all the blocks that the edit refers to. -/
def Fits (e : Edit) (f : Function) : Prop := ∀ b ∈ e.blocks, f.Has b

instance (e : Edit) (f : Function) : Decidable (e.Fits f) :=
  inferInstanceAs (Decidable (∀ b ∈ e.blocks, f.Has b))

/-- Does an edit create a block? -/
def creates : Edit → Bool
  | newBlock | newBlockBefore _ => true
  | moveBlockAfter .. | write .. => false

/-- The block that gets a place in the layout of a function. -/
def placed? : Edit → Function → Option BlockId
  | newBlock, f | newBlockBefore _, f => some f.nextBlock
  | moveBlockAfter id _, _ => some id
  | write .., _ => none

/-- **Where an edit puts a block**: one function comes of another one by an edit. -/
structure Places (e : Edit) (f g : Function) : Prop where
  atEnd : e = newBlock → g.layout = f.layout ++ [f.nextBlock]
  before : ∀ anchor, e = newBlockBefore anchor → ∃ front back,
    f.layout = front ++ anchor :: back ∧ g.layout = front ++ f.nextBlock :: anchor :: back
  after : ∀ id anchor, e = moveBlockAfter id anchor → id ≠ anchor → ∃ front back,
    f.layout.filter (· ≠ id) = front ++ anchor :: back ∧ g.layout = front ++ anchor :: id :: back
  self : ∀ id, e = moveBlockAfter id id → g = f
  /-- All other blocks are in the order in which they were. -/
  others : g.layout.filter (some · ≠ e.placed? f) = f.layout.filter (some · ≠ e.placed? f)

theorem size_perform (e : Edit) (f : Function) :
    (e.perform f).blocks.size = f.blocks.size + if e.creates then 1 else 0 := by
  cases e with
  | newBlock | newBlockBefore => exact Array.size_push _
  | moveBlockAfter id anchor =>
    show (f.moveBlockAfter id anchor).blocks.size = _
    rw [Function.moveBlockAfter]
    split <;> rfl
  | write id change => exact Array.size_modify

/-- What gets a place between two parts of a list makes no difference to all else. -/
theorem filter_insert (x : BlockId) (front back : List BlockId) :
    (front ++ x :: back).filter (some · ≠ some x) = (front ++ back).filter (some · ≠ some x) := by
  simp

theorem newBlock_arranged (h : f.IsArranged) : f.newBlock.2.IsArranged ∧ newBlock.Places f f.newBlock.2 := by
  refine ⟨h.addBlock (List.perm_append_singleton _ _), fun _ => rfl, nofun, nofun, nofun, ?_⟩
  show (f.layout ++ [f.nextBlock]).filter (some · ≠ some f.nextBlock) = _
  rw [filter_insert, List.append_nil]
  rfl

theorem newBlockBefore_arranged (h : f.IsArranged) {anchor : BlockId} (hanchor : f.Has anchor) :
    (f.newBlockBefore anchor).2.IsArranged ∧ (newBlockBefore anchor).Places f (f.newBlockBefore anchor).2 := by
  obtain ⟨front, back, hlayout, hinsert⟩ := exists_insertBefore_eq f.nextBlock (h.mem_layout.2 hanchor)
  refine ⟨h.addBlock ?_, nofun, fun _ heq => ?_, nofun, nofun, ?_⟩
  · rw [hinsert, hlayout]
    exact List.perm_middle
  · cases heq
    exact ⟨front, back, hlayout, hinsert⟩
  · show (insertBefore f.nextBlock anchor f.layout).filter (some · ≠ some f.nextBlock) = _
    rw [hinsert, filter_insert, ← hlayout]
    rfl

theorem moveBlockAfter_arranged (h : f.IsArranged) {id anchor : BlockId} (hid : f.Has id) (hanchor : f.Has anchor) :
    (f.moveBlockAfter id anchor).IsArranged ∧ (moveBlockAfter id anchor).Places f (f.moveBlockAfter id anchor) := by
  by_cases hsame : id = anchor
  · have hmove : f.moveBlockAfter id anchor = f := if_pos hsame
    rw [hmove]
    refine ⟨h, nofun, nofun, fun _ _ heq hne => ?_, fun _ _ => rfl, rfl⟩
    cases heq
    exact absurd hsame hne
  · -- The block is taken out of its place and put back at another one.
    have hout : f.layout.Perm (id :: f.layout.filter (· ≠ id)) := by
      have hmem : id ∈ f.layout := h.mem_layout.2 hid
      simpa [bne, beq_eq_decide, h.nodup.erase_eq_filter] using List.perm_cons_erase hmem
    have hmem : anchor ∈ f.layout.filter (· ≠ id) :=
      List.mem_filter.2 ⟨h.mem_layout.2 hanchor, by simpa using Ne.symm hsame⟩
    obtain ⟨front, back, hlayout, hinsert⟩ := exists_insertAfter_eq id hmem
    have hmove : f.moveBlockAfter id anchor = { f with layout := front ++ anchor :: id :: back } := by
      rw [Function.moveBlockAfter, if_neg hsame, hinsert]
    have hsplit : front ++ anchor :: id :: back = (front ++ [anchor]) ++ id :: back := by simp
    have hrest : (front ++ [anchor]) ++ back = f.layout.filter (· ≠ id) := by
      rw [hlayout, List.append_assoc, List.singleton_append]
    rw [hmove]
    refine ⟨?_, nofun, nofun, fun _ _ heq _ => ?_, fun _ heq => ?_, ?_⟩
    · calc front ++ anchor :: id :: back
        _ = (front ++ [anchor]) ++ id :: back := hsplit
        _ |>.Perm (id :: f.layout.filter (· ≠ id)) := hrest ▸ List.perm_middle
        _ |>.Perm f.layout := hout.symm
        _ |>.Perm (firstBlocks f.blocks.size) := h
    · cases heq
      exact ⟨front, back, hlayout, rfl⟩
    · cases heq
      exact absurd rfl hsame
    · show (front ++ anchor :: id :: back).filter (some · ≠ some id) = f.layout.filter (some · ≠ some id)
      rw [hsplit, filter_insert, hrest, List.filter_filter]
      simp

/-- **One edit** keeps the layout a rearrangement of the blocks, and puts the block where it belongs. -/
theorem perform_arranged (h : f.IsArranged) {e : Edit} (hfit : e.Fits f) :
    (e.perform f).IsArranged ∧ e.Places f (e.perform f) := by
  cases e with
  | newBlock => exact newBlock_arranged h
  | newBlockBefore anchor => exact newBlockBefore_arranged h (hfit anchor List.mem_cons_self)
  | moveBlockAfter id anchor =>
    exact moveBlockAfter_arranged h (hfit id List.mem_cons_self) (hfit anchor (by simp [blocks]))
  | write id change =>
    refine ⟨?_, nofun, nofun, nofun, nofun, rfl⟩
    rw [IsArranged, size_perform]
    exact h

end Edit

/-! ### Histories -/

/-- A function after some edits. -/
def run (f : Function) (edits : List Edit) : Function := edits.foldl (fun f e => e.perform f) f

/-- Every edit refers only to blocks that the function has by then. -/
def FitsAll : List Edit → Function → Prop
  | [], _ => True
  | e :: rest, f => e.Fits f ∧ FitsAll rest (e.perform f)

theorem IsArranged.run (h : f.IsArranged) {edits : List Edit} (hfit : FitsAll edits f) :
    (f.run edits).IsArranged ∧ (f.run edits).blocks.size = f.blocks.size + edits.countP Edit.creates := by
  induction edits generalizing f with
  | nil => exact ⟨h, rfl⟩
  | cons e rest ih =>
    obtain ⟨hfirst, hrest⟩ := hfit
    obtain ⟨harranged, hsize⟩ := ih (Edit.perform_arranged h hfirst).1 hrest
    refine ⟨harranged, hsize.trans ?_⟩
    rw [Edit.size_perform, List.countP_cons, Nat.add_assoc, Nat.add_comm (rest.countP Edit.creates)]

/-- **The layout lists every block once, at every moment of every history** of a function, and each further edit
puts the block that it creates or moves where it is meant to be, and keeps the order of all others. -/
theorem layout_run (name : String) (sig : Signature) (linkage : Linkage) {edits : List Edit}
    (hfit : FitsAll edits { name, sig, linkage }) :
    (Function.run { name, sig, linkage } edits).Lists (edits.countP Edit.creates) ∧
      ∀ e : Edit, e.Fits (Function.run { name, sig, linkage } edits) →
        e.Places (Function.run { name, sig, linkage } edits) (Function.run { name, sig, linkage } (edits ++ [e])) := by
  obtain ⟨harranged, hsize⟩ := IsArranged.run (f := { name, sig, linkage }) (.refl _) hfit
  have hcount : (Function.run { name, sig, linkage } edits).blocks.size = edits.countP Edit.creates :=
    hsize.trans (Nat.zero_add _)
  refine ⟨hcount ▸ harranged.lists, fun e he => ?_⟩
  have hlast : Function.run { name, sig, linkage } (edits ++ [e]) =
      e.perform (Function.run { name, sig, linkage } edits) := by simp [Function.run]
  exact hlast ▸ (Edit.perform_arranged harranged he).2

/-- Three blocks, the last one created in front of the second, and the first one closed. -/
def threeBlocks : List Edit :=
  [.newBlock, .newBlock, .newBlockBefore ⟨1⟩, .write ⟨0⟩ fun b => { b with term := some (.goto ⟨2⟩) }]

theorem layout_run_threeBlocks :
    FitsAll threeBlocks { name := "f", sig := ⟨.void, [], false⟩, linkage := .external } ∧
      ∃ f : Function, f.layout = [⟨0⟩, ⟨2⟩, ⟨1⟩] ∧ f.Lists 3 ∧ (Edit.moveBlockAfter ⟨0⟩ ⟨1⟩).Fits f ∧
        (f.run [.moveBlockAfter ⟨0⟩ ⟨1⟩]).layout = [⟨2⟩, ⟨1⟩, ⟨0⟩] ∧
        (Edit.moveBlockAfter ⟨0⟩ ⟨1⟩).Places f (f.run [.moveBlockAfter ⟨0⟩ ⟨1⟩]) := by
  have hfit : FitsAll threeBlocks { name := "f", sig := ⟨.void, [], false⟩, linkage := .external } :=
    ⟨by decide, by decide, by decide, by decide, trivial⟩
  obtain ⟨hlists, hplaces⟩ := layout_run "f" ⟨.void, [], false⟩ .external hfit
  exact ⟨hfit, _, rfl, hlists, by decide, rfl, hplaces (.moveBlockAfter ⟨0⟩ ⟨1⟩) (by decide)⟩

end Function

end TreeFlow
